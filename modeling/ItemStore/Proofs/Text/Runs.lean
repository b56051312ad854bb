import ItemStore.Text.Blank

/-
  Runs of characters of one class. A run that is followed by nothing, or by a character outside
  the class (`Stops`), is exactly what `takeWhile` takes and `dropWhile` drops. A list without
  elements of a class at its ends is its own `trim`.
-/

namespace ItemStore.Text

variable {α : Type u}

/-- What is checked of every element of a list holds of its members. The check runs over the list,
not over the type. -/
theorem forall_mem_of_all {p : α → Prop} [DecidablePred p] {xs : List α}
    (h : xs.all (fun x => decide (p x)) = true) : ∀ x ∈ xs, p x :=
  fun x hx => of_decide_eq_true (List.all_eq_true.mp h x hx)

/-- What is of a class is nothing that is not. -/
theorem ne_of_class {p : α → Bool} {x y : α} (hx : p x = true) (hy : p y = false) : x ≠ y := by
  rintro rfl
  rw [hx] at hy
  cases hy

theorem eq_ok_of_toOption {ε α : Type} {r : Except ε α} {a : α} (h : r.toOption = some a) :
    r = .ok a := by
  cases r with
  | error e => cases h
  | ok b => rw [Option.some.inj h]

/-- What is checked of a result holds of it, and there is one. -/
theorem exists_ok_of_any {ε α : Type} {r : Except ε α} {p : α → Prop} [DecidablePred p]
    (h : r.toOption.any (fun a => decide (p a)) = true) : ∃ a, r = .ok a ∧ p a := by
  cases r with
  | error e => cases h
  | ok a => exact ⟨a, rfl, of_decide_eq_true h⟩

/-- The list is empty or starts with an element outside the class. -/
def Stops (p : α → Bool) (rest : List α) : Prop :=
  ∀ x ∈ rest.head?, p x = false

theorem stops_nil (p : α → Bool) : Stops p [] := by
  simp [Stops]

theorem stops_cons {p : α → Bool} {x : α} {rest : List α} :
    Stops p (x :: rest) ↔ p x = false := by
  simp [Stops]

/-- What ends a run of a class ends a run of a smaller one. -/
theorem Stops.mono {p q : α → Bool} {rest : List α} (h : Stops q rest)
    (hpq : ∀ x, p x = true → q x = true) : Stops p rest := by
  intro x hx
  have hq := h x hx
  rw [← Bool.not_eq_true] at hq ⊢
  exact fun hp => hq (hpq x hp)

theorem Stops.append {p : α → Bool} {xs rest : List α} (h : Stops p xs) (hr : Stops p rest) :
    Stops p (xs ++ rest) := by
  cases xs with
  | nil => exact hr
  | cons x xs => exact h

/-- A text that does not stop a run of one character starts with it. -/
theorem exists_cons_of_not_stops {c : Char} {cs : List Char} (h : ¬Stops (· == c) cs) :
    ∃ ds, cs = c :: ds := by
  cases cs with
  | nil => exact absurd (fun _ hx => nomatch hx) h
  | cons d ds =>
    rw [stops_cons, Bool.not_eq_false, beq_iff_eq] at h
    exact ⟨ds, by rw [h]⟩

theorem takeWhile_of_stops {p : α → Bool} {rest : List α} (h : Stops p rest) :
    rest.takeWhile p = [] := by
  cases rest with
  | nil => rfl
  | cons x rest => rw [List.takeWhile_cons, stops_cons.mp h]; rfl

theorem stops_of_takeWhile {p : α → Bool} {rest : List α} (h : rest.takeWhile p = []) :
    Stops p rest := by
  cases rest with
  | nil => exact stops_nil p
  | cons x rest =>
    rw [List.takeWhile_cons] at h
    split at h
    · cases h
    · next hx => exact stops_cons.mpr (Bool.not_eq_true _ ▸ hx)

theorem dropWhile_of_stops {p : α → Bool} {rest : List α} (h : Stops p rest) :
    rest.dropWhile p = rest := by
  cases rest with
  | nil => rfl
  | cons x rest => rw [List.dropWhile_cons, stops_cons.mp h]; rfl

theorem takeWhile_run {p : α → Bool} {run rest : List α} (hr : ∀ x ∈ run, p x = true)
    (h : Stops p rest) : (run ++ rest).takeWhile p = run := by
  rw [List.takeWhile_append_of_pos hr, takeWhile_of_stops h, List.append_nil]

theorem dropWhile_run {p : α → Bool} {run rest : List α} (hr : ∀ x ∈ run, p x = true)
    (h : Stops p rest) : (run ++ rest).dropWhile p = rest := by
  rw [List.dropWhile_append_of_pos hr, dropWhile_of_stops h]

/-- A run has one end. -/
theorem run_unique {p : α → Bool} {run run' rest rest' : List α}
    (heq : run ++ rest = run' ++ rest') (hr : ∀ x ∈ run, p x = true)
    (hr' : ∀ x ∈ run', p x = true) (h : Stops p rest) (h' : Stops p rest') :
    run = run' ∧ rest = rest' := by
  have htake := takeWhile_run hr h
  have hdrop := dropWhile_run hr h
  rw [heq, takeWhile_run hr' h'] at htake
  rw [heq, dropWhile_run hr' h'] at hdrop
  exact ⟨htake.symm, hdrop.symm⟩

/-- What does not go on with a run leaves it as it is. -/
theorem takeWhile_append_of_stops {p : α → Bool} {rest : List α} (h : Stops p rest)
    (xs : List α) : (xs ++ rest).takeWhile p = xs.takeWhile p := by
  induction xs with
  | nil => exact takeWhile_of_stops h
  | cons x xs ih => rw [List.cons_append, List.takeWhile_cons, List.takeWhile_cons, ih]

theorem dropWhile_append_of_stops {p : α → Bool} {rest : List α} (h : Stops p rest)
    (xs : List α) : (xs ++ rest).dropWhile p = xs.dropWhile p ++ rest := by
  induction xs with
  | nil => exact dropWhile_of_stops h
  | cons x xs ih =>
    rw [List.cons_append, List.dropWhile_cons, List.dropWhile_cons, ih]
    split <;> rfl

/-- A run that ends within a list is the same whatever follows the list. -/
theorem run_append_of_exists {p : α → Bool} {xs : List α} (h : ∃ x ∈ xs, p x = false)
    (rest : List α) : (xs ++ rest).takeWhile p = xs.takeWhile p ∧
      (xs ++ rest).dropWhile p = xs.dropWhile p ++ rest ∧ xs.dropWhile p ≠ [] := by
  induction xs with
  | nil =>
    obtain ⟨x, hx, -⟩ := h
    exact absurd hx List.not_mem_nil
  | cons x xs ih =>
    rw [List.cons_append, List.takeWhile_cons, List.dropWhile_cons, List.takeWhile_cons,
      List.dropWhile_cons]
    cases hx : p x with
    | false => exact ⟨rfl, rfl, List.cons_ne_nil _ _⟩
    | true =>
      obtain ⟨y, hy, hp⟩ := h
      have hmem : y ∈ xs := by
        rcases List.mem_cons.mp hy with rfl | hy
        · rw [hx] at hp
          cases hp
        · exact hy
      obtain ⟨htake, hdrop, hne⟩ := ih ⟨y, hmem, hp⟩
      exact ⟨congrArg (x :: ·) htake, hdrop, hne⟩

theorem takeWhile_all {p : α → Bool} {run : List α} (hr : ∀ x ∈ run, p x = true) :
    run.takeWhile p = run := by
  simpa using takeWhile_run hr (stops_nil p)

theorem dropWhile_all {p : α → Bool} {run : List α} (hr : ∀ x ∈ run, p x = true) :
    run.dropWhile p = [] := by
  simpa using dropWhile_run hr (stops_nil p)

/-! ## Trimming -/

/-- What is trimmed off the end is of the class. -/
theorem exists_trimEnd (p : α → Bool) (xs : List α) :
    ∃ back, (∀ x ∈ back, p x = true) ∧ xs = trimEnd p xs ++ back := by
  induction xs with
  | nil => exact ⟨[], nofun, rfl⟩
  | cons x xs ih =>
    obtain ⟨back, hback, hxs⟩ := ih
    rw [trimEnd]
    split
    · next hnil =>
      rw [hnil, List.nil_append] at hxs
      split
      · next hx => exact ⟨x :: xs, List.forall_mem_cons.mpr ⟨hx, hxs ▸ hback⟩, rfl⟩
      · exact ⟨xs, hxs ▸ hback, rfl⟩
    · exact ⟨back, hback, congrArg (x :: ·) hxs⟩

/-- What is trimmed off is of the class. -/
theorem exists_trim (p : α → Bool) (xs : List α) :
    ∃ front back, (∀ x ∈ front, p x = true) ∧ (∀ x ∈ back, p x = true) ∧
      xs = front ++ trim p xs ++ back := by
  obtain ⟨back, hback, hdrop⟩ := exists_trimEnd p (xs.dropWhile p)
  refine ⟨xs.takeWhile p, back, List.all_eq_true.mp List.all_takeWhile, hback, ?_⟩
  rw [List.append_assoc, trim, ← hdrop, List.takeWhile_append_dropWhile]

theorem trimEnd_cons_of_not {p : α → Bool} {x : α} (hx : p x = false) (xs : List α) :
    trimEnd p (x :: xs) = x :: trimEnd p xs := by
  rw [trimEnd]
  cases trimEnd p xs with
  | nil => simp [hx]
  | cons y ys => rfl

theorem trimEnd_of_forall_not {p : α → Bool} {xs : List α} (h : ∀ x ∈ xs, p x = false) :
    trimEnd p xs = xs := by
  induction xs with
  | nil => rfl
  | cons x xs ih =>
    rw [List.forall_mem_cons] at h
    rw [trimEnd_cons_of_not h.1, ih h.2]

theorem trim_of_forall_not {p : α → Bool} {xs : List α} (h : ∀ x ∈ xs, p x = false) :
    trim p xs = xs := by
  have hs : Stops p xs := fun x hx => h x (List.mem_of_mem_head? hx)
  rw [trim, dropWhile_of_stops hs, trimEnd_of_forall_not h]

/-- The list is empty or ends with an element outside the class. -/
def EndsOutside (p : α → Bool) (xs : List α) : Prop :=
  ∀ x ∈ xs.getLast?, p x = false

instance (p : α → Bool) (xs : List α) : Decidable (EndsOutside p xs) :=
  decidable_of_iff (xs.getLast?.all (fun x => !p x) = true) <| by
    rw [EndsOutside]
    cases xs.getLast? <;> simp

theorem endsOutside_of_forall {p : α → Bool} {xs : List α} (h : ∀ x ∈ xs, p x = false) :
    EndsOutside p xs :=
  fun x hx => h x (List.mem_of_mem_getLast? hx)

theorem endsOutside_concat {p : α → Bool} {x : α} (h : p x = false) (xs : List α) :
    EndsOutside p (xs ++ [x]) := by
  intro y hy
  rw [List.getLast?_concat] at hy
  rwa [← Option.some.inj hy]

theorem EndsOutside.append {p : α → Bool} {xs ys : List α} (hx : EndsOutside p xs)
    (hy : EndsOutside p ys) : EndsOutside p (xs ++ ys) := by
  intro x h
  rw [List.getLast?_append] at h
  rcases Option.or_eq_some_iff.mp h with h | ⟨-, h⟩
  · exact hy x h
  · exact hx x h

theorem endsOutside_flatMap {β : Type v} {p : α → Bool} {f : β → List α} {ys : List β}
    (h : ∀ y ∈ ys, EndsOutside p (f y)) : EndsOutside p (ys.flatMap f) := by
  induction ys with
  | nil => exact nofun
  | cons y ys ih =>
    rw [List.forall_mem_cons] at h
    exact h.1.append (ih h.2)

theorem trimEnd_append_of_forall {p : α → Bool} {back : List α} (h : ∀ x ∈ back, p x = true)
    (xs : List α) : trimEnd p (xs ++ back) = trimEnd p xs := by
  induction xs with
  | nil =>
    show trimEnd p back = []
    induction back with
    | nil => rfl
    | cons x back ih =>
      rw [List.forall_mem_cons] at h
      rw [trimEnd, ih h.2, h.1]
      rfl
  | cons x xs ih => rw [List.cons_append, trimEnd, trimEnd, ih]

theorem trimEnd_of_endsOutside {p : α → Bool} {xs : List α} (h : EndsOutside p xs) :
    trimEnd p xs = xs := by
  induction xs with
  | nil => rfl
  | cons x xs ih =>
    cases xs with
    | nil =>
      have hx : p x = false := h x rfl
      rw [trimEnd, trimEnd, hx]
      rfl
    | cons y ys => rw [trimEnd, ih h]

/-- Trimming takes what is of the class at both ends, and no more. -/
theorem trim_of_ends {p : α → Bool} {front xs back : List α} (hf : ∀ x ∈ front, p x = true)
    (hb : ∀ x ∈ back, p x = true) (hs : Stops p xs) (he : EndsOutside p xs) :
    trim p (front ++ xs ++ back) = xs := by
  rw [trim, List.append_assoc]
  cases xs with
  | nil =>
    rw [List.nil_append, dropWhile_all (List.forall_mem_append.mpr ⟨hf, hb⟩)]
    rfl
  | cons x xs =>
    rw [dropWhile_run hf (show Stops p (x :: xs ++ back) from hs), trimEnd_append_of_forall hb,
      trimEnd_of_endsOutside he]

end ItemStore.Text
