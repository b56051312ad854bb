import ItemStore.Expression.Inferred
import ItemStore.Expression.Tagged

/-
  Expressions compiled in either grammar. A blank source compiles to nothing; any other gives
  the skeleton of its grammar, with placeholders numbered from a start.
-/

namespace ItemStore

/-- How literals are written in an expression. -/
inductive Grammar where
  /-- Literal types are inferred from the text. -/
  | inferred
  /-- Literals name their types. -/
  | tagged
  deriving DecidableEq, Inhabited

namespace Grammar

/-- A grammar as text. -/
def name : Grammar → String
  | .inferred => "auto"
  | .tagged => "explicit"

/-- The grammar of a name. -/
def ofName? (s : String) : Option Grammar :=
  if s == "auto" then some .inferred else if s == "explicit" then some .tagged else none

/-- The grammar that a value names. -/
def ofValue (v : Value) : Outcome Grammar :=
  match v with
  | .text s =>
    match ofName? s with
    | some g => .ok g
    | none => .error (.fault .badValue)
  | _ => .error (.fault .badValue)

end Grammar

namespace Expression

/-- The skeleton of a source. -/
def skeleton (g : Grammar) (source : List Char) : Except Error Skeleton :=
  if source.all Text.isBlank then .ok []
  else
    match g with
    | .inferred => Inferred.skeleton source
    | .tagged => Tagged.skeleton source

/-- The compiled expression of a source. -/
def compile (g : Grammar) (start : Int) (source : String) : Except Error Compiled :=
  match skeleton g source.toList with
  | .ok ps => .ok (ps.fill start)
  | .error e => .error e

/-- Whether bytes are all white space. -/
def blankBytes (data : List UInt8) : Bool :=
  data.all fun b => b == 32 || (9 ≤ b && b ≤ 13)

/-- The compiled expression of a value. A value that counts as absent is a blank source; any
other has to be text. -/
def compileValue (g : Grammar) (start : Int) (source : Value) : Outcome Compiled :=
  match source with
  | .text s =>
    match compile g start s with
    | .ok c => .ok c
    | .error e => .error e.toFailure
  | .bytes .view (_ :: _) => .error (.fault .noOperation)
  | .bytes _ data =>
    if blankBytes data then .ok {}
    else .error (.fault (if g = .tagged then .wrongKind else .noOperation))
  | v => if v.isTruthy then .error (.fault .noOperation) else .ok {}

end Expression

end ItemStore
