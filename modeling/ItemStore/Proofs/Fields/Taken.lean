import ItemStore.Fields.Checked

/-
  What a check that takes its value says of the checks in it. Checks that are combined are taken
  exactly if each of them is (`seq_eq_taken`), so a record of fields tells field by field what was
  taken. A field that is not given has its default, which no check has seen (`fieldOr_eq_taken`).
-/

namespace ItemStore

namespace Checked

variable {α β : Type}

theorem map_eq_taken {f : α → β} {x : Checked α} {b : β} :
    f <$> x = .taken b ↔ ∃ a, x = .taken a ∧ f a = b := by
  cases x with
  | taken a =>
    constructor
    · rintro ⟨⟩
      exact ⟨a, rfl, rfl⟩
    · rintro ⟨_, ⟨⟩, rfl⟩
      rfl
  | refused is => exact ⟨nofun, fun ⟨_, h, _⟩ => nomatch h⟩

theorem seq_eq_taken {f : Checked (α → β)} {x : Checked α} {b : β} :
    f <*> x = .taken b ↔ ∃ g a, f = .taken g ∧ x = .taken a ∧ g a = b := by
  cases f with
  | taken g =>
    have hmap : (Checked.taken g <*> x) = g <$> x := by cases x <;> rfl
    rw [hmap, map_eq_taken]
    constructor
    · rintro ⟨a, hx, hb⟩
      exact ⟨g, a, rfl, hx, hb⟩
    · rintro ⟨_, a, ⟨⟩, hx, hb⟩
      exact ⟨a, hx, hb⟩
  | refused is => exact ⟨nofun, fun ⟨_, _, h, _⟩ => nomatch h⟩

theorem under_eq_taken {step : Value} {x : Checked α} {a : α} :
    x.under step = .taken a ↔ x = .taken a := by
  cases x with
  | taken b => exact Iff.rfl
  | refused is => exact ⟨nofun, nofun⟩

theorem andThen_eq_taken {x : Checked α} {f : α → Checked β} {b : β} :
    x.andThen f = .taken b ↔ ∃ a, x = .taken a ∧ f a = .taken b := by
  cases x with
  | taken a =>
    constructor
    · intro h
      exact ⟨a, rfl, h⟩
    · rintro ⟨_, ⟨⟩, h⟩
      exact h
  | refused is => exact ⟨nofun, fun ⟨_, h, _⟩ => nomatch h⟩

theorem toOutcome_eq_ok {x : Checked α} {a : α} : x.toOutcome = .ok a ↔ x = .taken a := by
  cases x with
  | taken b =>
    constructor
    · rintro ⟨⟩
      rfl
    · rintro ⟨⟩
      rfl
  | refused is => exact ⟨nofun, nofun⟩

end Checked

variable {α : Type}

theorem fieldOr_eq_taken {fields : Params} {name : String} {standIn a : α}
    {check : Value → Checked α} :
    fieldOr fields name standIn check = .taken a ↔
      (Entries.get? name fields = none ∧ standIn = a) ∨
        ∃ v, Entries.get? name fields = some v ∧ check v = .taken a := by
  unfold fieldOr
  cases Entries.get? name fields with
  | none => simp
  | some v => simp [Checked.under_eq_taken]

/-- What a check makes sure of holds of a field exactly if it holds of the default, where that is
what the field has. -/
theorem iff_of_fieldOr {P : α → Prop} {fields : Params} {name : String} {standIn a : α}
    {check : Value → Checked α} (hcheck : ∀ v b, check v = .taken b → P b)
    (h : fieldOr fields name standIn check = .taken a) :
    P a ↔ (Entries.get? name fields = none → P standIn) := by
  rcases fieldOr_eq_taken.mp h with ⟨hnone, rfl⟩ | ⟨v, hv, htaken⟩
  · rw [hnone]
    exact ⟨fun hp _ => hp, fun hp => hp rfl⟩
  · rw [hv]
    exact ⟨fun _ => nofun, fun _ => hcheck v a htaken⟩

end ItemStore
