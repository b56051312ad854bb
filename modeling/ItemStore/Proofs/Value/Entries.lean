import ItemStore.Value.Basic

/-
  Maps as lists of pairs. A key that is not there is put at the end (`insert_of_notMem`), so pairs
  with distinct keys are the map that `ofPairs` makes of them (`ofPairs_of_nodup`). Whatever pairs
  it is made of, a map has distinct keys (`nodup_ofPairs`), and its values are among theirs
  (`forall_mem_ofPairs`).

  What a key is bound to after an insertion or a merge (`get?_insert`, `get?_merge`) is asked of
  keys that no other key is the same as. Among plain values not all keys are of this kind, as
  equal numbers of two kinds are one key, but texts are (`sole_text`).
-/

namespace ItemStore

namespace Entries

variable {κ : Type u} {β : Type v} [BEq κ]

/-- No other key is the same as this one. -/
def Sole (k : κ) : Prop :=
  ∀ x, (x == k) = true ↔ x = k

theorem sole_of_lawful [LawfulBEq κ] (k : κ) : Sole k :=
  fun _ => beq_iff_eq

/-! ## Maps of pairs with distinct keys -/

theorem insert_of_notMem {k : κ} (hk : Sole k) {v : β} {es : List (κ × β)}
    (h : k ∉ es.map Prod.fst) : insert k v es = es ++ [(k, v)] := by
  induction es with
  | nil => rfl
  | cons e es ih =>
    rw [List.map_cons, List.mem_cons, not_or] at h
    have hne : ¬(e.1 == k) = true := fun he => h.1 ((hk e.1).mp he).symm
    rw [insert, if_neg hne, ih h.2, List.cons_append]

theorem merge_of_nodup {es fs : List (κ × β)} (hfs : ∀ f ∈ fs, Sole f.1)
    (h : ((es ++ fs).map Prod.fst).Nodup) : merge es fs = es ++ fs := by
  induction fs generalizing es with
  | nil => simp [merge]
  | cons f fs ih =>
    rw [List.forall_mem_cons] at hfs
    have hf : f.1 ∉ es.map Prod.fst := by
      rw [List.map_append, List.map_cons, List.nodup_append] at h
      exact fun hm => h.2.2 _ hm _ List.mem_cons_self rfl
    have hstep : merge es (f :: fs) = merge (es ++ [f]) fs := by
      simp only [merge, List.foldl_cons, insert_of_notMem hfs.1 hf]
    rw [hstep, ih hfs.2 (by simpa using h), List.append_assoc, List.singleton_append]

/-- Pairs with distinct keys are a map already. -/
theorem ofPairs_of_nodup [LawfulBEq κ] {ps : List (κ × β)} (h : (ps.map Prod.fst).Nodup) :
    ofPairs ps = ps :=
  merge_of_nodup (fun f _ => sole_of_lawful f.1) h

theorem merge_append (es fs gs : List (κ × β)) :
    merge es (fs ++ gs) = merge (merge es fs) gs :=
  List.foldl_append

/-! ## Maps of pairs in which keys may repeat -/

/-- A key that is there stays in its place. -/
theorem map_fst_insert_of_mem [LawfulBEq κ] {k : κ} {v : β} {es : List (κ × β)}
    (h : k ∈ es.map Prod.fst) : (insert k v es).map Prod.fst = es.map Prod.fst := by
  induction es with
  | nil => cases h
  | cons e es ih =>
    rw [insert]
    split
    · rfl
    · next hne =>
      have hmem : k ∈ es.map Prod.fst :=
        (List.mem_cons.mp h).resolve_left fun he => hne (beq_iff_eq.mpr he.symm)
      rw [List.map_cons, List.map_cons, ih hmem]

theorem nodup_insert [LawfulBEq κ] {k : κ} {v : β} {es : List (κ × β)}
    (h : (es.map Prod.fst).Nodup) : ((insert k v es).map Prod.fst).Nodup := by
  by_cases hk : k ∈ es.map Prod.fst
  · rw [map_fst_insert_of_mem hk]
    exact h
  · rw [insert_of_notMem (sole_of_lawful k) hk, List.map_append, List.nodup_append]
    refine ⟨h, List.pairwise_singleton _ k, fun a ha b hb hab => ?_⟩
    rw [hab, List.mem_singleton.mp hb] at ha
    exact hk ha

theorem forall_mem_insert {P : β → Prop} {k : κ} {v : β} {es : List (κ × β)} (hv : P v)
    (h : ∀ e ∈ es, P e.2) : ∀ e ∈ insert k v es, P e.2 := by
  induction es with
  | nil => simpa [insert] using hv
  | cons e es ih =>
    rw [List.forall_mem_cons] at h
    rw [insert]
    split
    · exact List.forall_mem_cons.mpr ⟨hv, h.2⟩
    · exact List.forall_mem_cons.mpr ⟨h.1, ih h.2⟩

theorem insert_ne_nil (k : κ) (v : β) (es : List (κ × β)) : insert k v es ≠ [] := by
  cases es with
  | nil => exact List.cons_ne_nil _ _
  | cons e es =>
    rw [insert]
    split <;> exact List.cons_ne_nil _ _

theorem merge_ne_nil {es fs : List (κ × β)} (h : fs ≠ []) : merge es fs ≠ [] := by
  obtain ⟨init, f, rfl⟩ := (List.eq_nil_or_concat fs).resolve_left h
  rw [List.concat_eq_append, merge, List.foldl_append]
  exact insert_ne_nil _ _ _

theorem nodup_merge [LawfulBEq κ] {es fs : List (κ × β)} (h : (es.map Prod.fst).Nodup) :
    ((merge es fs).map Prod.fst).Nodup := by
  induction fs generalizing es with
  | nil => exact h
  | cons f fs ih => exact ih (nodup_insert h)

theorem forall_mem_merge {P : β → Prop} {es fs : List (κ × β)} (hes : ∀ e ∈ es, P e.2)
    (hfs : ∀ e ∈ fs, P e.2) : ∀ e ∈ merge es fs, P e.2 := by
  induction fs generalizing es with
  | nil => exact hes
  | cons f fs ih =>
    rw [List.forall_mem_cons] at hfs
    exact ih (forall_mem_insert hfs.1 hes) hfs.2

/-- A map has distinct keys. -/
theorem nodup_ofPairs [LawfulBEq κ] (ps : List (κ × β)) : ((ofPairs ps).map Prod.fst).Nodup :=
  nodup_merge List.nodup_nil

/-- The last pair is replaced in its place. -/
theorem insert_append_singleton {k : κ} (hk : Sole k) {v w : β} {es : List (κ × β)}
    (h : k ∉ es.map Prod.fst) : insert k v (es ++ [(k, w)]) = es ++ [(k, v)] := by
  induction es with
  | nil => rw [List.nil_append, insert, if_pos ((hk k).mpr rfl), List.nil_append]
  | cons e es ih =>
    rw [List.map_cons, List.mem_cons, not_or] at h
    rw [List.cons_append, insert, if_neg fun he => h.1 ((hk _).mp he).symm, ih h.2]
    rfl

/-- What holds of the values of pairs holds of those of their map. -/
theorem forall_mem_ofPairs {P : β → Prop} {ps : List (κ × β)} (h : ∀ e ∈ ps, P e.2) :
    ∀ e ∈ ofPairs ps, P e.2 :=
  forall_mem_merge (List.forall_mem_nil _) h

/-! ## Look-ups -/

theorem get?_cons_of_ne [LawfulBEq κ] {k k' : κ} (h : k' ≠ k) (v : β) (es : List (κ × β)) :
    get? k ((k', v) :: es) = get? k es := by
  rw [get?, if_neg (mt beq_iff_eq.mp h)]

theorem get?_append (k : κ) (es fs : List (κ × β)) :
    get? k (es ++ fs) = (get? k es).or (get? k fs) := by
  induction es with
  | nil => rfl
  | cons e es ih =>
    rw [List.cons_append, get?, get?]
    split
    · rfl
    · exact ih

theorem get?_of_notMem {k : κ} (hk : Sole k) {es : List (κ × β)} (h : k ∉ es.map Prod.fst) :
    get? k es = none := by
  induction es with
  | nil => rfl
  | cons e es ih =>
    rw [List.map_cons, List.mem_cons, not_or] at h
    have hne : ¬(e.1 == k) = true := fun he => h.1 ((hk e.1).mp he).symm
    rw [get?, if_neg hne, ih h.2]

theorem get?_of_mem {e : κ × β} (he : Sole e.1) {es : List (κ × β)}
    (h : (es.map Prod.fst).Nodup) (hmem : e ∈ es) : get? e.1 es = some e.2 := by
  induction es with
  | nil => cases hmem
  | cons e' es ih =>
    rw [List.map_cons, List.nodup_cons] at h
    rw [get?]
    rcases List.mem_cons.mp hmem with rfl | hmem
    · rw [if_pos ((he e.1).mpr rfl)]
    · have hne : ¬(e'.1 == e.1) = true := by
        rw [he e'.1]
        exact fun hsame => h.1 (hsame ▸ List.mem_map_of_mem hmem)
      rw [if_neg hne, ih h.2 hmem]

theorem mem_of_get? [LawfulBEq κ] {k : κ} {v : β} {es : List (κ × β)}
    (h : get? k es = some v) : (k, v) ∈ es := by
  induction es with
  | nil => cases h
  | cons e es ih =>
    rw [get?] at h
    split at h
    · next he =>
      cases h
      rw [← beq_iff_eq.mp he]
      exact List.mem_cons_self
    · exact List.mem_cons_of_mem e (ih h)

theorem notMem_of_get? [LawfulBEq κ] {k : κ} {es : List (κ × β)} (hnodup : (es.map Prod.fst).Nodup)
    (h : get? k es = none) : k ∉ es.map Prod.fst := by
  intro hmem
  obtain ⟨e, he, rfl⟩ := List.mem_map.mp hmem
  rw [get?_of_mem (sole_of_lawful e.1) hnodup he] at h
  cases h

/-- A key is not bound where none of some keys is that it is one of. -/
theorem get?_of_hasAny_eq_false [LawfulBEq κ] {k : κ} {ks : List κ} {es : List (κ × β)}
    (h : hasAny ks es = false) (hk : k ∈ ks) : get? k es = none := by
  refine get?_of_notMem (sole_of_lawful k) fun hmem => ?_
  obtain ⟨e, he, rfl⟩ := List.mem_map.mp hmem
  exact List.any_eq_false.mp h e he (List.contains_iff_mem.mpr hk)

theorem hasAny_eq_false_of_get? [LawfulBEq κ] {ks : List κ} {es : List (κ × β)}
    (hnodup : (es.map Prod.fst).Nodup) (h : ∀ k ∈ ks, get? k es = none) :
    hasAny ks es = false := by
  refine List.any_eq_false.mpr fun e he hmem => ?_
  exact notMem_of_get? hnodup (h e.1 (List.contains_iff_mem.mp hmem)) (List.mem_map_of_mem he)

theorem hasAny_of_subset [LawfulBEq κ] {ks ks' : List κ} {es : List (κ × β)} (hks : ks ⊆ ks')
    (h : hasAny ks' es = false) : hasAny ks es = false := by
  refine List.any_eq_false.mpr fun e he hmem => List.any_eq_false.mp h e he ?_
  exact List.contains_iff_mem.mpr (hks (List.contains_iff_mem.mp hmem))

theorem get?_insert {k k' : κ} (hk : Sole k) (hk' : Sole k') (v : β) (es : List (κ × β)) :
    get? k (insert k' v es) = if k' == k then some v else get? k es := by
  induction es with
  | nil => rfl
  | cons e es ih =>
    rw [insert]
    by_cases he : (e.1 == k') = true
    · rw [if_pos he, get?, get?, (hk' e.1).mp he]
      split <;> rfl
    · rw [if_neg he, get?, get?, ih]
      by_cases hek : (e.1 == k) = true
      · have hne : ¬(k' == k) = true := by
          rw [hk k', ← (hk e.1).mp hek]
          exact fun h => he ((hk' e.1).mpr h.symm)
        rw [if_pos hek, if_pos hek, if_neg hne]
      · rw [if_neg hek, if_neg hek]

theorem get?_insert_of_ne [LawfulBEq κ] {k k' : κ} (h : k' ≠ k) (v : β) (es : List (κ × β)) :
    get? k (insert k' v es) = get? k es := by
  rw [get?_insert (sole_of_lawful k) (sole_of_lawful k'), if_neg (mt beq_iff_eq.mp h)]

theorem get?_insert_self [LawfulBEq κ] (k : κ) (v : β) (es : List (κ × β)) :
    get? k (insert k v es) = some v := by
  rw [get?_insert (sole_of_lawful k) (sole_of_lawful k), if_pos (beq_iff_eq.mpr rfl)]

theorem get?_erase_of_ne [LawfulBEq κ] {k k' : κ} (h : k' ≠ k) (es : List (κ × β)) :
    get? k (erase k' es) = get? k es := by
  induction es with
  | nil => rfl
  | cons e es ih =>
    rw [erase]
    split
    · next he =>
      have hne : ¬(e.1 == k) = true := by
        rw [beq_iff_eq.mp he, beq_iff_eq]
        exact h
      rw [get?, if_neg hne]
    · rw [get?, get?, ih]

theorem erase_sublist (k : κ) (es : List (κ × β)) : (erase k es).Sublist es := by
  induction es with
  | nil => exact .slnil
  | cons e es ih =>
    rw [erase]
    split
    · exact List.sublist_cons_self e es
    · exact ih.cons_cons e

theorem nodup_erase {k : κ} {es : List (κ × β)} (h : (es.map Prod.fst).Nodup) :
    ((erase k es).map Prod.fst).Nodup :=
  ((erase_sublist k es).map Prod.fst).nodup h

/-- What is merged in comes before what was there. -/
theorem get?_merge {k : κ} (hk : Sole k) {fs : List (κ × β)} (hfs : ∀ f ∈ fs, Sole f.1)
    (h : (fs.map Prod.fst).Nodup) (es : List (κ × β)) :
    get? k (merge es fs) = (get? k fs).or (get? k es) := by
  induction fs generalizing es with
  | nil => rfl
  | cons f fs ih =>
    rw [List.forall_mem_cons] at hfs
    rw [List.map_cons, List.nodup_cons] at h
    have hstep : merge es (f :: fs) = merge (insert f.1 f.2 es) fs := rfl
    rw [hstep, ih hfs.2 h.2, get?_insert hk hfs.1, get?]
    split
    · next hf =>
      rw [(hk f.1).mp hf] at h
      rw [get?_of_notMem hk h.1]
      rfl
    · rfl

theorem get?_merge_of_nodup [LawfulBEq κ] {fs : List (κ × β)} (h : (fs.map Prod.fst).Nodup)
    (k : κ) (es : List (κ × β)) : get? k (merge es fs) = (get? k fs).or (get? k es) :=
  get?_merge (sole_of_lawful k) (fun f _ => sole_of_lawful f.1) h es

/-- A key that is not merged in keeps what it is bound to. -/
theorem get?_merge_of_notMem [LawfulBEq κ] {k : κ} {fs : List (κ × β)}
    (h : k ∉ fs.map Prod.fst) (es : List (κ × β)) : get? k (merge es fs) = get? k es := by
  induction fs generalizing es with
  | nil => rfl
  | cons f fs ih =>
    rw [List.map_cons, List.mem_cons, not_or] at h
    have hstep : merge es (f :: fs) = merge (insert f.1 f.2 es) fs := rfl
    rw [hstep, ih h.2, get?_insert_of_ne (Ne.symm h.1)]

/-! ## Keys left out -/

theorem erase_of_get?_eq_none {k : κ} {es : List (κ × β)} (h : get? k es = none) :
    erase k es = es := by
  induction es with
  | nil => rfl
  | cons e es ih =>
    rw [get?] at h
    split at h
    · cases h
    · next he => rw [erase, if_neg he, ih h]

/-- Erasing a key of a map leaves out its entry. -/
theorem erase_eq_filter [LawfulBEq κ] {k : κ} {es : List (κ × β)} (h : (es.map Prod.fst).Nodup) :
    erase k es = es.filter fun e => e.1 != k := by
  induction es with
  | nil => rfl
  | cons e es ih =>
    rw [List.map_cons, List.nodup_cons] at h
    rw [erase, List.filter_cons]
    by_cases he : (e.1 == k) = true
    · have hrest : ∀ e' ∈ es, (e'.1 != k) = true := by
        intro e' he'
        rw [bne_iff_ne]
        rintro rfl
        exact h.1 (beq_iff_eq.mp he ▸ List.mem_map_of_mem he')
      rw [if_pos he, bne, he, Bool.not_true, if_neg Bool.false_ne_true,
        List.filter_eq_self.mpr hrest]
    · have hne : (e.1 != k) = true := bne_iff_ne.mpr (mt beq_iff_eq.mpr he)
      rw [if_neg he, if_pos hne, ih h.2]

/-- What is left of a map without a key does not depend on what the key is given. -/
theorem filter_insert [LawfulBEq κ] {p : κ × β → Bool} {k : κ} (hp : ∀ v, p (k, v) = false)
    (v : β) (es : List (κ × β)) : (insert k v es).filter p = es.filter p := by
  induction es with
  | nil => rw [insert, List.filter_cons_of_neg (by rw [hp]; exact Bool.false_ne_true)]
  | cons e es ih =>
    rw [insert]
    split
    · next he =>
      obtain ⟨k', v'⟩ := e
      have hk : k' = k := beq_iff_eq.mp he
      subst hk
      rw [List.filter_cons_of_neg (by rw [hp]; exact Bool.false_ne_true),
        List.filter_cons_of_neg (by rw [hp]; exact Bool.false_ne_true)]
    · rw [List.filter_cons, List.filter_cons, ih]

theorem filter_merge [LawfulBEq κ] {p : κ × β → Bool} {fs : List (κ × β)}
    (hp : ∀ f ∈ fs, ∀ v, p (f.1, v) = false) (es : List (κ × β)) :
    (merge es fs).filter p = es.filter p := by
  induction fs generalizing es with
  | nil => rfl
  | cons f fs ih =>
    rw [List.forall_mem_cons] at hp
    rw [show merge es (f :: fs) = merge (insert f.1 f.2 es) fs from rfl, ih hp.2,
      filter_insert hp.1]

/-! ## Maps under other keys -/

section

variable {κ' : Type u'} {γ : Type v'} [BEq κ'] {f : κ → κ'}

theorem get?_map (hf : ∀ a b, (f a == f b) = (a == b)) (g : β → γ) (k : κ) (es : List (κ × β)) :
    get? (f k) (es.map (Prod.map f g)) = (get? k es).map g := by
  induction es with
  | nil => rfl
  | cons e es ih =>
    rw [List.map_cons, Prod.map, get?, get?, hf, ih]
    split <;> rfl

theorem insert_map (hf : ∀ a b, (f a == f b) = (a == b)) (g : β → γ) (k : κ) (v : β)
    (es : List (κ × β)) :
    insert (f k) (g v) (es.map (Prod.map f g)) = (insert k v es).map (Prod.map f g) := by
  induction es with
  | nil => rfl
  | cons e es ih =>
    rw [List.map_cons, Prod.map, insert, insert, hf, ih]
    split <;> rfl

theorem erase_map (hf : ∀ a b, (f a == f b) = (a == b)) (g : β → γ) (k : κ) (es : List (κ × β)) :
    erase (f k) (es.map (Prod.map f g)) = (erase k es).map (Prod.map f g) := by
  induction es with
  | nil => rfl
  | cons e es ih =>
    rw [List.map_cons, Prod.map, erase, erase, hf, ih]
    split <;> rfl

theorem merge_map (hf : ∀ a b, (f a == f b) = (a == b)) (g : β → γ) (es fs : List (κ × β)) :
    merge (es.map (Prod.map f g)) (fs.map (Prod.map f g)) = (merge es fs).map (Prod.map f g) := by
  induction fs generalizing es with
  | nil => rfl
  | cons e fs ih =>
    have hstep : merge es (e :: fs) = merge (insert e.1 e.2 es) fs := rfl
    rw [hstep, ← ih, ← insert_map hf]
    rfl

end

end Entries

/-- No other value is the same key as a text. -/
theorem Value.sole_text (s : String) : Entries.Sole (Value.text s) := by
  intro x
  cases x <;> simp [BEq.beq, same, number?]

end ItemStore
