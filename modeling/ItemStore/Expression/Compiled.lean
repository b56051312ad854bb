import ItemStore.Failure.Basic
import ItemStore.Text.Digit
import ItemStore.Wire.Basic

/-
  A compiled expression: the text that is sent, with placeholders, and what the placeholders
  stand for. `lastIndex` is the highest number among placeholders of the generated form, a hash
  or a colon, the letter V and digits.
-/

namespace ItemStore

/-- An expression with its placeholders' bindings. -/
structure Compiled where
  expression : String := ""
  names : List (String × String) := []
  values : List (String × Value) := []
  deriving Inhabited

namespace Compiled

/-- The digits of a generated placeholder. A newline may stand at its end. -/
def indexDigits? (placeholder : List Char) : Option (List Char) :=
  match placeholder with
  | mark :: 'V' :: rest =>
    let ds := rest.takeWhile Text.isDigit
    let after := rest.dropWhile Text.isDigit
    if (mark == '#' || mark == ':') && !ds.isEmpty && (after == [] || after == ['\n']) then some ds
    else none
  | _ => none

/-- The number of a placeholder; 0 when it is not of the generated form. -/
def indexOf (placeholder : String) : Nat :=
  match indexDigits? placeholder.toList with
  | some ds => Number.valueOf ds
  | none => 0

/-- The highest number among the placeholders, 0 when there are none. -/
def lastIndex (c : Compiled) : Nat :=
  (c.names.map (·.1) ++ c.values.map (·.1)).foldl (fun n p => max n (indexOf p)) 0

/-- Whether there is nothing to send. -/
def isEmpty (c : Compiled) : Bool :=
  c.expression == ""

/-- The placeholders for names, as the map that is sent. -/
def namesValue (c : Compiled) : Value :=
  .record (c.names.map fun e => (e.1, .text e.2))

/-- The placeholders for values, as the map that is sent. -/
def valuesValue (c : Compiled) : Value :=
  .record c.values

/-- The parameters that send the expression under a name; what is empty is left out. -/
def toParams (c : Compiled) (expressionName : String) : Params :=
  let expression := if c.isEmpty then [] else [(expressionName, .text c.expression)]
  let names :=
    if c.names.isEmpty then expression
    else Entries.insert "ExpressionAttributeNames" c.namesValue expression
  if c.values.isEmpty then names
  else Entries.insert "ExpressionAttributeValues" c.valuesValue names

/-- Adds bindings to the map under a name, if there are any. -/
def bindUnder (name : String) (bindings : List (Value × Value)) (params : Params) :
    Outcome Params :=
  if bindings.isEmpty then .ok params
  else
    match Entries.get? name params with
    | none => .ok (Entries.insert name (.map bindings) params)
    | some (.map es) => .ok (Entries.insert name (.map (Entries.merge es bindings)) params)
    | some _ => .error (.fault .noOperation)

/-- Adds the placeholders' bindings to those of other parameters, names before values. -/
def bindInto (c : Compiled) (params : Params) : Outcome Unit × Params :=
  let names := c.names.map fun e => (Value.text e.1, Value.text e.2)
  match bindUnder "ExpressionAttributeNames" names params with
  | .error e => (.error e, params)
  | .ok params =>
    match bindUnder "ExpressionAttributeValues" (c.values.map fun e => (.text e.1, e.2)) params with
    | .error e => (.error e, params)
    | .ok params => (.ok (), params)

end Compiled

end ItemStore
