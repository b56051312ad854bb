import ItemStore.Expression.Tagged
import Mathlib.Data.List.Infix

/-
  Parentheses of a text, by counting: `Within depth` says that no prefix closes more than `depth`
  parentheses beyond those it opens, and a text is `Balanced` when that holds for depth zero and
  the whole closes what it opens.

  The payload of a literal is read to the parenthesis that closes it exactly when the text up to
  there is balanced (`payload?_balanced`, `payload?_sound`), whatever follows; just where no prefix
  of the rest of the input closes more than it opens, the literal has no end (`payload?_of_within`,
  `within_of_payload?`). All are by induction on the text for every depth, since the scanner goes on
  one deeper behind an opening parenthesis.
-/

namespace ItemStore.Expression

/-- No prefix closes more parentheses than it opens, but for `depth` of them. -/
def Within (depth : Nat) (cs : List Char) : Prop :=
  ∀ front, front <+: cs → front.count ')' ≤ depth + front.count '('

/-- Every parenthesis closes one before it or is closed by one behind it. -/
structure Balanced (cs : List Char) : Prop where
  within : Within 0 cs
  count_eq : cs.count ')' = cs.count '('

instance (depth : Nat) (cs : List Char) : Decidable (Within depth cs) :=
  decidable_of_iff (∀ front ∈ cs.inits, front.count ')' ≤ depth + front.count '(')
    (forall_congr' fun front => imp_congr_left (List.mem_inits front cs))

instance (cs : List Char) : Decidable (Balanced cs) :=
  decidable_of_iff (Within 0 cs ∧ cs.count ')' = cs.count '(')
    ⟨fun h => ⟨h.1, h.2⟩, fun h => ⟨h.within, h.count_eq⟩⟩

/-! ## One character -/

theorem within_nil (depth : Nat) : Within depth [] := by
  intro front h
  rw [List.prefix_nil.mp h]
  exact Nat.zero_le _

/-- A fact about the prefixes of a list with a head is one about those with that head. -/
theorem within_cons_iff {depth : Nat} {c : Char} {cs : List Char} :
    Within depth (c :: cs) ↔
      ∀ front, front <+: cs → (c :: front).count ')' ≤ depth + (c :: front).count '(' := by
  constructor
  · intro h front hfront
    exact h _ ((List.prefix_cons_inj c).mpr hfront)
  · intro h front hfront
    rcases List.prefix_cons_iff.mp hfront with rfl | ⟨front', rfl, hfront'⟩
    · exact Nat.zero_le _
    · exact h front' hfront'

theorem within_open_iff {depth : Nat} {cs : List Char} :
    Within depth ('(' :: cs) ↔ Within (depth + 1) cs := by
  rw [within_cons_iff]
  refine forall_congr' fun front => imp_congr_right fun _ => ?_
  rw [List.count_cons_of_ne (by decide), List.count_cons_self]
  omega

/-- A closing parenthesis takes one off the depth. -/
theorem Within.of_close {depth : Nat} {cs : List Char} (h : Within depth (')' :: cs)) :
    ∃ depth', depth = depth' + 1 ∧ Within depth' cs := by
  rw [within_cons_iff] at h
  have hone := h [] (List.nil_prefix)
  rw [List.count_cons_self, List.count_cons_of_ne (by decide)] at hone
  refine ⟨depth - 1, by simp at hone; omega, fun front hfront => ?_⟩
  have hall := h front hfront
  rw [List.count_cons_self, List.count_cons_of_ne (by decide)] at hall
  omega

theorem Within.close {depth : Nat} {cs : List Char} (h : Within depth cs) :
    Within (depth + 1) (')' :: cs) := by
  rw [within_cons_iff]
  intro front hfront
  have hall := h front hfront
  rw [List.count_cons_self, List.count_cons_of_ne (by decide)]
  omega

theorem within_other_iff {depth : Nat} {c : Char} {cs : List Char} (ho : c ≠ '(') (hc : c ≠ ')') :
    Within depth (c :: cs) ↔ Within depth cs := by
  rw [within_cons_iff]
  refine forall_congr' fun front => imp_congr_right fun _ => ?_
  rw [List.count_cons_of_ne hc, List.count_cons_of_ne ho]

/-! ## Texts end to end -/

/-- What stands behind a text starts at the depth that the text leaves. -/
theorem Within.append {depth depth' : Nat} {cs ds : List Char} (hc : Within depth cs)
    (hcount : cs.count ')' + depth' = depth + cs.count '(') (hd : Within depth' ds) :
    Within depth (cs ++ ds) := by
  intro front hfront
  rcases List.prefix_or_prefix_of_prefix hfront (List.prefix_append cs ds) with h | ⟨front', rfl⟩
  · exact hc front h
  · have := hd front' ((List.prefix_append_right_inj cs).mp hfront)
    rw [List.count_append, List.count_append]
    omega

theorem balanced_nil : Balanced [] :=
  ⟨within_nil 0, rfl⟩

theorem Balanced.append {cs ds : List Char} (hc : Balanced cs) (hd : Balanced ds) :
    Balanced (cs ++ ds) := by
  have hcount : cs.count ')' + 0 = 0 + cs.count '(' := by rw [hc.count_eq, Nat.zero_add]; rfl
  refine ⟨hc.within.append hcount hd.within, ?_⟩
  rw [List.count_append, List.count_append, hc.count_eq, hd.count_eq]

theorem balanced_flatMap {α : Type} {f : α → List Char} {xs : List α}
    (h : ∀ x ∈ xs, Balanced (f x)) : Balanced (xs.flatMap f) := by
  induction xs with
  | nil => exact balanced_nil
  | cons x xs ih =>
    rw [List.forall_mem_cons] at h
    rw [List.flatMap_cons]
    exact h.1.append (ih h.2)

/-- A text without parentheses. -/
theorem balanced_of_forall {cs : List Char} (h : ∀ c ∈ cs, c ≠ '(' ∧ c ≠ ')') : Balanced cs := by
  have hopen : ∀ front, front <+: cs → front.count '(' = 0 := fun front hfront =>
    List.count_eq_zero.mpr fun hmem => (h _ (hfront.subset hmem)).1 rfl
  have hclose : ∀ front, front <+: cs → front.count ')' = 0 := fun front hfront =>
    List.count_eq_zero.mpr fun hmem => (h _ (hfront.subset hmem)).2 rfl
  refine ⟨fun front hfront => ?_, ?_⟩
  · rw [hclose front hfront]
    exact Nat.zero_le _
  · rw [hclose cs List.prefix_rfl, hopen cs List.prefix_rfl]

/-! ## Payloads -/

namespace Tagged

/-- A payload ends at the first parenthesis that closes more than was open. -/
theorem payload?_append {depth : Nat} {cs : List Char} (hw : Within depth cs)
    (hc : cs.count ')' = depth + cs.count '(') (rest : List Char) :
    payload? depth (cs ++ ')' :: rest) = some (cs, rest) := by
  induction cs generalizing depth with
  | nil =>
    obtain rfl : depth = 0 := by simpa using hc.symm
    rfl
  | cons c cs ih =>
    by_cases ho : c = '('
    · subst ho
      rw [List.count_cons_of_ne (by decide), List.count_cons_self] at hc
      rw [List.cons_append, payload?, ih (within_open_iff.mp hw) (by omega)]
      rfl
    by_cases hcl : c = ')'
    · subst hcl
      obtain ⟨depth', rfl, hw'⟩ := hw.of_close
      rw [List.count_cons_self, List.count_cons_of_ne (by decide)] at hc
      rw [List.cons_append, payload?, ih hw' (by omega)]
      rfl
    · rw [List.count_cons_of_ne hcl, List.count_cons_of_ne ho] at hc
      rw [List.cons_append, payload?, ih ((within_other_iff ho hcl).mp hw) hc]
      · rfl
      · exact ho
      · exact hcl

/-- A payload is read to the parenthesis that closes it. -/
theorem payload?_balanced {cs : List Char} (h : Balanced cs) (rest : List Char) :
    payload? 0 (cs ++ ')' :: rest) = some (cs, rest) :=
  payload?_append h.within (by rw [h.count_eq, Nat.zero_add]) rest

/-- Where nothing closes a payload it has no end. -/
theorem payload?_of_within {depth : Nat} {cs : List Char} (hw : Within depth cs) :
    payload? depth cs = none := by
  induction cs generalizing depth with
  | nil => rfl
  | cons c cs ih =>
    by_cases ho : c = '('
    · subst ho
      rw [payload?, ih (within_open_iff.mp hw)]
      rfl
    by_cases hcl : c = ')'
    · subst hcl
      obtain ⟨depth', rfl, hw'⟩ := hw.of_close
      rw [payload?, ih hw']
      rfl
    · rw [payload?, ih ((within_other_iff ho hcl).mp hw)]
      · rfl
      · exact ho
      · exact hcl

/-- What is read as a payload is balanced but for the depth at which it was started. -/
theorem payload?_sound {depth : Nat} {cs payload rest : List Char}
    (h : payload? depth cs = some (payload, rest)) :
    cs = payload ++ ')' :: rest ∧ Within depth payload ∧
      payload.count ')' = depth + payload.count '(' := by
  fun_induction payload? depth cs generalizing payload rest with
  | case1 => cases h
  | case2 depth cs ih =>
    obtain ⟨r, hr, he⟩ := Option.map_eq_some_iff.mp h
    cases he
    obtain ⟨hcs, hw, hcount⟩ := ih hr
    refine ⟨congrArg ('(' :: ·) hcs, within_open_iff.mpr hw, ?_⟩
    rw [List.count_cons_of_ne (by decide), List.count_cons_self]
    omega
  | case3 cs =>
    cases h
    exact ⟨rfl, within_nil 0, rfl⟩
  | case4 cs depth ih =>
    obtain ⟨r, hr, he⟩ := Option.map_eq_some_iff.mp h
    cases he
    obtain ⟨hcs, hw, hcount⟩ := ih hr
    refine ⟨congrArg (')' :: ·) hcs, hw.close, ?_⟩
    rw [List.count_cons_self, List.count_cons_of_ne (by decide)]
    omega
  | case5 depth c cs ho hc ih =>
    obtain ⟨r, hr, he⟩ := Option.map_eq_some_iff.mp h
    cases he
    obtain ⟨hcs, hw, hcount⟩ := ih hr
    refine ⟨congrArg (c :: ·) hcs, (within_other_iff ho hc).mpr hw, ?_⟩
    rw [List.count_cons_of_ne hc, List.count_cons_of_ne ho]
    exact hcount

/-- A payload has no end only where nothing closes it. -/
theorem within_of_payload? {depth : Nat} {cs : List Char} (h : payload? depth cs = none) :
    Within depth cs := by
  fun_induction payload? depth cs with
  | case1 depth => exact within_nil depth
  | case2 depth cs ih => exact within_open_iff.mpr (ih (Option.map_eq_none_iff.mp h))
  | case3 => cases h
  | case4 cs depth ih => exact (ih (Option.map_eq_none_iff.mp h)).close
  | case5 depth c cs ho hc ih =>
    exact (within_other_iff ho hc).mpr (ih (Option.map_eq_none_iff.mp h))

end Tagged

end ItemStore.Expression
