import ItemStore.Expression.Compiled
import ItemStore.Expression.Path

/-
  A compiled expression before its placeholders are numbered: characters that are sent as they
  are, and holes for names and for values. Filling gives each hole the next number, from left to
  right, names and values together.
-/

namespace ItemStore.Expression

/-- A literal value of an expression. -/
inductive Literal where
  | string (payload : List Char)
  | number (text : List Char)
  | binary (payload : List Char)
  | null
  | boolean (b : Bool)
  | strings (parts : List (List Char))
  | numbers (parts : List (List Char))
  | binaries (parts : List (List Char))
  deriving DecidableEq, Inhabited

namespace Literal

/-- Texts as a list of values. -/
def textList (parts : List (List Char)) : Value :=
  .list (parts.map fun p => .text (String.ofList p))

/-- The wire value of a literal; binary payloads are kept as they are written. -/
def wire : Literal → Value
  | .string payload => Wire.tagged .s (.text (String.ofList payload))
  | .number text => Wire.tagged .n (.text (String.ofList text))
  | .binary payload => Wire.tagged .b (.text (String.ofList payload))
  | .null => Wire.tagged .null (.bool true)
  | .boolean b => Wire.tagged .bool (.bool b)
  | .strings parts => Wire.tagged .ss (textList parts)
  | .numbers parts => Wire.tagged .ns (textList parts)
  | .binaries parts => Wire.tagged .bs (textList parts)

end Literal

/-- A part of a skeleton. -/
inductive Piece where
  | char (c : Char)
  | name (key : List Char)
  | value (literal : Literal)
  deriving DecidableEq, Inhabited

/-- An expression with holes. -/
abbrev Skeleton := List Piece

namespace Skeleton

/-- Text that is sent as it is. -/
def verbatim (cs : List Char) : Skeleton :=
  cs.map .char

/-- White space, not a hole. -/
def isBlankPiece : Piece → Bool
  | .char c => Text.isBlank c
  | _ => false

/-- The skeleton without white space at both ends. -/
def trim (ps : Skeleton) : Skeleton :=
  Text.trim isBlankPiece ps

/-- The placeholder of a name. -/
def namePlaceholder (index : Int) : List Char :=
  '#' :: 'V' :: Number.intText index

/-- The placeholder of a value. -/
def valuePlaceholder (index : Int) : List Char :=
  ':' :: 'V' :: Number.intText index

/-- The text with the holes filled by placeholders numbered from `start` on. -/
def text (start : Int) : Skeleton → List Char
  | [] => []
  | .char c :: ps => c :: text start ps
  | .name _ :: ps => namePlaceholder start ++ text (start + 1) ps
  | .value _ :: ps => valuePlaceholder start ++ text (start + 1) ps

/-- The names that the placeholders stand for. -/
def names (start : Int) : Skeleton → List (String × String)
  | [] => []
  | .char _ :: ps => names start ps
  | .name a :: ps =>
    (String.ofList (namePlaceholder start), String.ofList a) :: names (start + 1) ps
  | .value _ :: ps => names (start + 1) ps

/-- The values that the placeholders stand for. -/
def values (start : Int) : Skeleton → List (String × Value)
  | [] => []
  | .char _ :: ps => values start ps
  | .name _ :: ps => values (start + 1) ps
  | .value l :: ps => (String.ofList (valuePlaceholder start), l.wire) :: values (start + 1) ps

/-- The compiled expression with placeholders numbered from `start` on. -/
def fill (start : Int) (ps : Skeleton) : Compiled :=
  { expression := String.ofList (text start ps)
    names := names start ps
    values := values start ps }

/-- A path with a hole for the name of each segment. -/
def ofSegment (s : Segment) : Skeleton :=
  .name s.name :: verbatim s.suffix

/-- The segments of a path, joined by points. -/
def ofPath : List Segment → Skeleton
  | [] => []
  | [s] => ofSegment s
  | s :: rest => ofSegment s ++ .char '.' :: ofPath rest

end Skeleton

end ItemStore.Expression
