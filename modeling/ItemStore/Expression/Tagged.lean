import ItemStore.Expression.Skeleton
import ItemStore.Text.Letter

/-
  The grammar in which literals name their types: a tag with a payload in parentheses is a value,
  a dollar sign with one is an attribute path, and all else is sent as it is. Parentheses in a
  payload are balanced. A tag counts only where no word character or dollar sign stands before
  it.
-/

namespace ItemStore.Expression

namespace Tagged

open Text

/-- What a literal starts with. -/
inductive Constructor where
  | boolean
  | null
  | binaries
  | strings
  | numbers
  | string
  | number
  | binary
  | path
  deriving DecidableEq, Inhabited

/-- The rest of a text that starts with the given one. -/
def after? : List Char → List Char → Option (List Char)
  | [], cs => some cs
  | _ :: _, [] => none
  | c :: front, d :: cs => if c = d then after? front cs else none

theorem append_eq_of_after? {front cs rest : List Char} (h : after? front cs = some rest) :
    front ++ rest = cs := by
  fun_induction after? front cs with
  | case1 => simpa using h.symm
  | case2 => simp at h
  | case3 c front cs ih => simp [ih h]
  | case4 => simp at h

namespace Constructor

/-- A constructor as text. -/
def text : Constructor → String
  | .boolean => "BOOL"
  | .null => "NULL"
  | .binaries => "BS"
  | .strings => "SS"
  | .numbers => "NS"
  | .string => "S"
  | .number => "N"
  | .binary => "B"
  | .path => "$"

/-- All constructors. -/
def all : List Constructor :=
  [.boolean, .null, .binaries, .strings, .numbers, .string, .number, .binary, .path]

/-- The text after the constructor and its parenthesis, if the text starts with them. -/
def strip? (k : Constructor) (cs : List Char) : Option (List Char) :=
  after? (k.text.toList ++ ['(']) cs

end Constructor

/-- The literal that starts here, and the text of its payload on; `prev` is the character
before. -/
def opener? (prev : Option Char) (cs : List Char) : Option (Constructor × List Char) :=
  if prev.any fun c => isWord c || c == '$' then none
  else Constructor.all.findSome? fun k => (k.strip? cs).map fun rest => (k, rest)

/-- The payload up to the parenthesis that closes it, and the text after that one; `depth` counts
the parentheses open inside the payload. -/
def payload? (depth : Nat) : List Char → Option (List Char × List Char)
  | [] => none
  | '(' :: cs => (payload? (depth + 1) cs).map fun r => ('(' :: r.1, r.2)
  | ')' :: cs =>
    match depth with
    | 0 => some ([], cs)
    | depth + 1 => (payload? depth cs).map fun r => (')' :: r.1, r.2)
  | c :: cs => (payload? depth cs).map fun r => (c :: r.1, r.2)

theorem payload?_length {depth : Nat} {cs payload rest : List Char}
    (h : payload? depth cs = some (payload, rest)) : rest.length < cs.length := by
  fun_induction payload? depth cs generalizing payload rest with
  | case1 => simp at h
  | case3 cs =>
    simp only [Option.some.injEq, Prod.mk.injEq] at h
    simp [h.2]
  | _ =>
    next ih =>
    obtain ⟨r, hr, he⟩ := Option.map_eq_some_iff.1 h
    have := ih hr
    simp only [Prod.mk.injEq] at he
    rw [← he.2]
    simp only [List.length_cons]
    omega

theorem opener?_length {prev : Option Char} {cs rest : List Char} {k : Constructor}
    (h : opener? prev cs = some (k, rest)) : rest.length < cs.length := by
  unfold opener? at h
  split at h
  · simp at h
  · obtain ⟨k', _, hk⟩ := List.exists_of_findSome?_eq_some h
    obtain ⟨r, hr, he⟩ := Option.map_eq_some_iff.1 hk
    simp only [Prod.mk.injEq] at he
    rw [← append_eq_of_after? hr, ← he.2]
    simp only [List.length_append, List.length_singleton]
    omega

/-- The parts of a text between commas. -/
def commaParts : List Char → List (List Char)
  | [] => [[]]
  | c :: cs =>
    match commaParts cs with
    | part :: parts => if c = ',' then [] :: part :: parts else (c :: part) :: parts
    | [] => [[c]]

/-- The trimmed parts of a text between commas, without the empty ones. -/
def setParts (payload : List Char) : List (List Char) :=
  ((commaParts payload).map (trim isBlank)).filter (· ≠ [])

/-- The segments of a path literal. The source of a fault inside the path is the path's own
text. -/
def pathOf (payload source : List Char) (offset : Nat) : Except Error (List Segment) :=
  let path := trim isBlank payload
  if path = [] then .error ⟨.emptyPath, source, offset⟩
  else
    match scanPath true path with
    | .ok (segments, []) => .ok segments
    | .ok (_, _ :: _) => .error ⟨.malformedPath payload, source, offset⟩
    | .error (.unclosedName, rest) => .error ⟨.unclosedName, path, path.length - rest.length⟩
    | .error (.missingName, rest) =>
      .error ⟨.missingName (path.length - rest.length), path, path.length - rest.length⟩

/-- The boolean that a payload writes, in any case and with white space around it. -/
def booleanOf? (payload : List Char) : Option Bool :=
  let word := lower (trim isBlank payload)
  if word == "true".toList then some true
  else if word == "false".toList then some false
  else none

/-- The pieces of a literal that starts at an offset of a source. -/
def literal (k : Constructor) (payload source : List Char) (offset : Nat) :
    Except Error Skeleton :=
  match k with
  | .string => .ok [.value (.string payload)]
  | .number => .ok [.value (.number payload)]
  | .binary => .ok [.value (.binary payload)]
  | .null => .ok [.value .null]
  | .boolean =>
    match booleanOf? payload with
    | some b => .ok [.value (.boolean b)]
    | none => .error ⟨.notBoolean payload, source, offset⟩
  | .strings => .ok [.value (.strings (setParts payload))]
  | .numbers => .ok [.value (.numbers (setParts payload))]
  | .binaries => .ok [.value (.binaries (setParts payload))]
  | .path =>
    match pathOf payload source offset with
    | .ok segments => .ok (Skeleton.ofPath segments)
    | .error e => .error e

/-- The skeleton of the rest of a source from an offset on; `prev` is the character before. -/
def skeletonFrom (source : List Char) (prev : Option Char) (offset : Nat) (cs : List Char) :
    Except Error Skeleton :=
  match cs with
  | [] => .ok []
  | c :: cs =>
    match ho : opener? prev (c :: cs) with
    | none =>
      match skeletonFrom source (some c) (offset + 1) cs with
      | .ok ps => .ok (.char c :: ps)
      | .error e => .error e
    | some (k, inner) =>
      match hp : payload? 0 inner with
      | none => .error ⟨.unclosedLiteral, source, offset⟩
      | some (payload, rest) =>
        have := opener?_length ho
        have := payload?_length hp
        match literal k payload source offset with
        | .error e => .error e
        | .ok pieces =>
          match skeletonFrom source (some ')') (offset + ((c :: cs).length - rest.length)) rest with
          | .ok ps => .ok (pieces ++ ps)
          | .error e => .error e
termination_by cs.length
decreasing_by all_goals (simp only [List.length_cons] at *; omega)

/-- The skeleton of a source, without white space at its ends. -/
def skeleton (source : List Char) : Except Error Skeleton :=
  match skeletonFrom source none 0 source with
  | .ok ps => .ok ps.trim
  | .error e => .error e

end Tagged

end ItemStore.Expression
