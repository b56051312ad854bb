/-
  Maps that keep the order of insertion, as lists of pairs. A key keeps the place where it was
  first put; putting it again replaces its value and nothing else.
-/

namespace ItemStore

variable {κ : Type u} {β : Type v} [BEq κ]

namespace Entries

/-- The value of a key. -/
def get? (k : κ) : List (κ × β) → Option β
  | [] => none
  | (k', v) :: es => if k' == k then some v else get? k es

/-- Whether a key has a value. -/
def has (k : κ) (es : List (κ × β)) : Bool :=
  (get? k es).isSome

/-- Whether one of some keys has a value. -/
def hasAny (ks : List κ) (es : List (κ × β)) : Bool :=
  es.any fun e => ks.contains e.1

/-- Gives a key a value: in place if the key is there, else at the end. -/
def insert (k : κ) (v : β) : List (κ × β) → List (κ × β)
  | [] => [(k, v)]
  | (k', v') :: es => if k' == k then (k', v) :: es else (k', v') :: insert k v es

/-- The map without a key. -/
def erase (k : κ) : List (κ × β) → List (κ × β)
  | [] => []
  | (k', v) :: es => if k' == k then es else (k', v) :: erase k es

/-- Puts the second map's pairs into the first, in order. -/
def merge (es fs : List (κ × β)) : List (κ × β) :=
  fs.foldl (fun acc e => insert e.1 e.2 acc) es

/-- The map of a list of pairs in which keys may repeat. -/
def ofPairs (ps : List (κ × β)) : List (κ × β) :=
  merge [] ps

end Entries

end ItemStore
