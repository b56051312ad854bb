import ItemStore.Failure.Basic

/-
  Values taken into the type of a field, or the issues why not. Checks of several fields are
  combined so that the issues of all of them are told, in the order of the fields.
-/

namespace ItemStore

/-- A value of a field's type, or why there is none. -/
inductive Checked (α : Type) where
  | taken (a : α)
  | refused (issues : List Issue)

namespace Checked

variable {α β : Type}

/-- The issues of a check. -/
def issues : Checked α → List Issue
  | .taken _ => []
  | .refused is => is

/-- A check with a function applied to what it takes. -/
def map (f : α → β) : Checked α → Checked β
  | .taken a => .taken (f a)
  | .refused is => .refused is

/-- Two checks together: refused with the issues of both if one is refused. -/
def apply (f : Checked (α → β)) (x : Checked α) : Checked β :=
  match f, x with
  | .taken f, .taken a => .taken (f a)
  | f, x => .refused (f.issues ++ x.issues)

instance : Applicative Checked where
  pure := .taken
  map := map
  seq f x := apply f (x ())

/-- A single issue, of the value itself. -/
def refuse (kind : IssueKind) : Checked α :=
  .refused [⟨[], kind⟩]

/-- The check of a part of a value: its issues lie under the step to that part. -/
def under (step : Value) : Checked α → Checked α
  | .taken a => .taken a
  | .refused is => .refused (is.map fun i => { i with path := step :: i.path })

/-- What a check takes that another check accepts. -/
def andThen (x : Checked α) (f : α → Checked β) : Checked β :=
  match x with
  | .taken a => f a
  | .refused is => .refused is

/-- A check as an outcome. -/
def toOutcome : Checked α → Outcome α
  | .taken a => .ok a
  | .refused is => .error (.invalid is)

end Checked

/-- The field of a name: the default where it is not given, else what its check takes. -/
def fieldOr {α : Type} (fields : Params) (name : String) (standIn : α)
    (check : Value → Checked α) : Checked α :=
  match Entries.get? name fields with
  | none => .taken standIn
  | some v => (check v).under (.text name)

end ItemStore
