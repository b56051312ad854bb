import ItemStore.Proofs.Keys.Split
import Mathlib.Data.List.Dedup

/-
  Taking the key out of an item, and what is lost by it: nothing. An item of any wire values is
  split just if it is read as a whole (`exists_split_iff`). Then the key values are what is read of
  the key attributes, in the order of the schema, and the other attributes are those of the whole
  item, in its order; with the key values put back they are the whole item (`split_rejoined`).

  A schema may name one attribute twice. It is taken out once, as it is not there any more when its
  name comes again (`takeKeys_twice`).
-/

namespace ItemStore

open Value

variable {decimalNumbers : Bool} {fields all : Params}

/-! ## Fields by name -/

theorem Value.IsRead.filter (h : IsRead decimalNumbers fields all) (p : String → Bool) :
    IsRead decimalNumbers (fields.filter fun e => p e.1) (all.filter fun e => p e.1) := by
  induction h with
  | nil => exact .nil
  | cons hhead _ ih =>
    rw [List.filter_cons, List.filter_cons, hhead.1]
    split
    · exact .cons hhead ih
    · exact ih

/-- The elements that are given something, each with what it is given. -/
theorem zip_filterMap {α β : Type} (f : α → Option β) (xs : List α) :
    (xs.filter fun x => (f x).isSome).zip (xs.filterMap f) =
      xs.filterMap fun x => (f x).map (x, ·) := by
  induction xs with
  | nil => rfl
  | cons x xs ih =>
    rw [List.filter_cons, List.filterMap_cons, List.filterMap_cons]
    cases f x with
    | none => exact ih
    | some y => exact congrArg ((x, y) :: ·) ih

namespace Entries

variable {κ β : Type} [BEq κ] {es : List (κ × β)} {ks : List κ}

/-- Those of some keys that a map has, each with its value. -/
def restrict (ks : List κ) (es : List (κ × β)) : List (κ × β) :=
  ks.filterMap fun k => (get? k es).map (k, ·)

theorem mem_restrict [LawfulBEq κ] (hnodup : (es.map Prod.fst).Nodup) {e : κ × β} :
    e ∈ restrict ks es ↔ e.1 ∈ ks ∧ e ∈ es := by
  rw [restrict, List.mem_filterMap]
  constructor
  · rintro ⟨k, hk, hbound⟩
    obtain ⟨v, hv, rfl⟩ := Option.map_eq_some_iff.mp hbound
    exact ⟨hk, mem_of_get? hv⟩
  · rintro ⟨hk, he⟩
    refine ⟨e.1, hk, ?_⟩
    rw [get?_of_mem (sole_of_lawful e.1) hnodup he]
    rfl

theorem nodup_restrict (hks : ks.Nodup) (es : List (κ × β)) :
    ((restrict ks es).map Prod.fst).Nodup := by
  rw [restrict, List.map_filterMap]
  refine hks.filterMap fun k k' key hkey hkey' => ?_
  obtain ⟨_, hbound, rfl⟩ := Option.map_eq_some_iff.mp hkey
  obtain ⟨_, hbound', hsame⟩ := Option.map_eq_some_iff.mp hkey'
  obtain ⟨_, -, rfl⟩ := Option.map_eq_some_iff.mp hbound
  obtain ⟨_, -, rfl⟩ := Option.map_eq_some_iff.mp hbound'
  exact hsame.symm

/-- A map is what it has under some keys and the rest of it, put together. -/
theorem perm_merge_restrict [LawfulBEq κ] (hnodup : (es.map Prod.fst).Nodup)
    (hks : ks.Nodup) :
    (merge (es.filter fun e => !ks.contains e.1) (restrict ks es)).Perm es := by
  have hdistinct :
      (((es.filter fun e => !ks.contains e.1) ++ restrict ks es).map Prod.fst).Nodup := by
    rw [List.map_append, List.nodup_append]
    refine ⟨hnodup.sublist (List.filter_sublist.map Prod.fst), nodup_restrict hks es, ?_⟩
    rintro _ hrest _ hbound rfl
    obtain ⟨e, he, hkey⟩ := List.mem_map.mp hrest
    obtain ⟨e', he', hkey'⟩ := List.mem_map.mp hbound
    have hkept := (List.mem_filter.mp he).2
    rw [hkey, ← hkey', List.contains_iff_mem.mpr ((mem_restrict hnodup).mp he').1] at hkept
    cases hkept
  rw [merge_of_nodup (fun f _ => sole_of_lawful f.1) hdistinct,
    List.perm_ext_iff_of_nodup (hdistinct.of_map _) (hnodup.of_map _)]
  intro e
  rw [List.mem_append, List.mem_filter, mem_restrict hnodup]
  constructor
  · rintro (⟨he, -⟩ | ⟨-, he⟩) <;> exact he
  · intro he
    by_cases hkey : e.1 ∈ ks
    · exact .inr ⟨hkey, he⟩
    · exact .inl ⟨he, by simpa using hkey⟩

end Entries

namespace Schema

/-! ## Taking out names -/

/-- A name that has been taken out is not found again. -/
theorem takeKeys_twice (hnodup : (fields.map Prod.fst).Nodup) (name : String)
    (names : List String) :
    takeKeys decimalNumbers (name :: name :: names) (fields.map (Prod.map .text id)) =
      takeKeys decimalNumbers (name :: names) (fields.map (Prod.map .text id)) := by
  rw [takeKeys, Entries.get?_map text_beq]
  cases hget : Entries.get? name fields with
  | none => rfl
  | some w =>
    have hgone : Entries.get? name (Entries.erase name fields) = none := by
      rw [Entries.erase_eq_filter hnodup]
      refine Entries.get?_of_notMem (Entries.sole_of_lawful name) fun hmem => ?_
      obtain ⟨e, he, rfl⟩ := List.mem_map.mp hmem
      exact bne_iff_ne.mp (List.mem_filter.mp he).2 rfl
    have hskip : takeKeys decimalNumbers (name :: names)
        ((Entries.erase name fields).map (Prod.map .text id)) =
          takeKeys decimalNumbers names ((Entries.erase name fields).map (Prod.map .text id)) := by
      rw [takeKeys, Entries.get?_map text_beq, hgone]
      rfl
    rw [takeKeys, Entries.get?_map text_beq, hget]
    dsimp only [Option.map_some]
    rw [Entries.erase_map text_beq, hskip]

theorem takeKeys_keyNames (hnodup : (fields.map Prod.fst).Nodup) (s : Schema) :
    takeKeys decimalNumbers s.keyNames (fields.map (Prod.map .text id)) =
      takeKeys decimalNumbers s.keyNames.dedup (fields.map (Prod.map .text id)) := by
  rw [keyNames]
  cases named? s.hashKey with
  | none => cases named? s.rangeKey <;> rfl
  | some hash =>
    cases named? s.rangeKey with
    | none => rfl
    | some range =>
      show takeKeys _ [hash, range] _ = takeKeys _ [hash, range].dedup _
      by_cases hsame : hash = range
      · subst hsame
        rw [takeKeys_twice hnodup, List.dedup_cons_of_mem List.mem_cons_self,
          (List.nodup_singleton hash).dedup]
      · rw [List.Nodup.dedup (by simpa using hsame)]

/-- What is left reads, and what is taken out has been read. -/
theorem forall_of_takeKeys (hnodup : (fields.map Prod.fst).Nodup) {names : List String}
    {key : List Value} {rest others : List (Value × Value)}
    (hkeys : takeKeys decimalNumbers names (fields.map (Prod.map .text id)) = .ok (key, rest))
    (hrest : fromWireFields decimalNumbers rest = .ok others) :
    ∀ e ∈ fields, ∃ v, fromWire decimalNumbers e.2 = .ok v := by
  induction names generalizing fields key with
  | nil =>
    cases hkeys
    exact exists_isRead_iff.mp (exists_isRead_of_fromWireFields hrest)
  | cons name names ih =>
    rw [takeKeys, Entries.get?_map text_beq] at hkeys
    cases hget : Entries.get? name fields with
    | none =>
      rw [hget] at hkeys
      exact ih hnodup hkeys
    | some w =>
      rw [hget] at hkeys
      dsimp only [Option.map_some, id] at hkeys
      rw [Entries.erase_map text_beq] at hkeys
      cases hv : fromWire decimalNumbers w with
      | error f =>
        rw [hv] at hkeys
        cases hkeys
      | ok v =>
        cases hlater : takeKeys decimalNumbers names
            ((Entries.erase name fields).map (Prod.map .text id)) with
        | error f =>
          rw [hv, hlater] at hkeys
          cases hkeys
        | ok p =>
          rw [hv, hlater] at hkeys
          cases hkeys
          have hothers := ih (Entries.nodup_erase hnodup) hlater
          intro e he
          by_cases hname : e.1 = name
          · have hbound := Entries.get?_of_mem (Entries.sole_of_lawful e.1) hnodup he
            rw [hname, hget] at hbound
            exact ⟨v, Option.some.inj hbound ▸ hv⟩
          · refine hothers e ?_
            rw [Entries.erase_eq_filter hnodup]
            exact List.mem_filter.mpr ⟨he, bne_iff_ne.mpr hname⟩

/-! ## Splitting an item -/

theorem split_record (hnodup : (fields.map Prod.fst).Nodup) (s : Schema) :
    s.split (record fields) decimalNumbers =
      (takeKeys decimalNumbers s.keyNames.dedup (fields.map (Prod.map .text id)) >>= fun p =>
        fromWireFields decimalNumbers p.2 >>= fun others => pure (p.1, others)) := by
  rw [← takeKeys_keyNames hnodup]
  rfl

theorem split_of_isRead (hnodup : (fields.map Prod.fst).Nodup)
    (hread : IsRead decimalNumbers fields all) (s : Schema) :
    s.split (record fields) decimalNumbers =
      .ok (s.keyNames.dedup.filterMap fun name => Entries.get? name all,
        (all.filter fun e => !s.keyNames.dedup.contains e.1).map (Prod.map .text id)) := by
  have hothers :=
    fromWireFields_of_isRead (hread.filter fun name => !s.keyNames.dedup.contains name)
  rw [split_record hnodup, takeKeys_of_isRead s.keyNames.nodup_dedup hnodup hread]
  show (fromWireFields decimalNumbers _ >>= fun others => pure (_, others)) = _
  rw [hothers]
  rfl

/-- An item is split just if each of its attributes is read. -/
theorem exists_split_iff (hnodup : (fields.map Prod.fst).Nodup) (s : Schema) :
    (∃ p, s.split (record fields) decimalNumbers = .ok p) ↔
      ∃ all, IsRead decimalNumbers fields all := by
  constructor
  · rintro ⟨p, hp⟩
    rw [split_record hnodup] at hp
    cases hkeys : takeKeys decimalNumbers s.keyNames.dedup (fields.map (Prod.map .text id)) with
    | error f =>
      rw [hkeys] at hp
      cases hp
    | ok taken =>
      cases hrest : fromWireFields decimalNumbers taken.2 with
      | error f =>
        rw [hkeys] at hp
        change (fromWireFields decimalNumbers taken.2 >>= fun others => pure (taken.1, others)) = _
          at hp
        rw [hrest] at hp
        cases hp
      | ok others => exact exists_isRead_iff.mpr (forall_of_takeKeys hnodup hkeys hrest)
  · rintro ⟨all, hread⟩
    exact ⟨_, split_of_isRead hnodup hread s⟩

theorem exists_fromItem_iff : (∃ v, fromItem decimalNumbers (record fields) = .ok v) ↔
    ∃ all, IsRead decimalNumbers fields all := by
  rw [record_eq, fromItem_map]
  constructor
  · rintro ⟨v, hv⟩
    cases hfields : fromWireFields decimalNumbers (fields.map (Prod.map .text id)) with
    | error f =>
      rw [hfields] at hv
      cases hv
    | ok es => exact exists_isRead_of_fromWireFields hfields
  · rintro ⟨all, hread⟩
    rw [fromWireFields_of_isRead hread]
    exact ⟨_, rfl⟩

/-- An item is split just if it is read as a whole. Then the key values are those of the key
attributes that it has, in the order of the schema and each once, the other attributes are those of
the whole item, in its order, and put together they are the whole item. -/
theorem split_rejoined (hnodup : (fields.map Prod.fst).Nodup) (s : Schema)
    (decimalNumbers : Bool) :
    ((∃ p, s.split (record fields) decimalNumbers = .ok p) ↔
      ∃ v, fromItem decimalNumbers (record fields) = .ok v) ∧
    ∀ key others, s.split (record fields) decimalNumbers = .ok (key, others) →
      ∃ all, IsRead decimalNumbers fields all ∧
        fromItem decimalNumbers (record fields) = .ok (record all) ∧
        key = s.keyNames.dedup.filterMap (fun name => Entries.get? name all) ∧
        others = (all.filter fun e => !s.keyNames.contains e.1).map (Prod.map .text id) ∧
        (Entries.merge others (((s.keyNames.dedup.filter fun name => Entries.has name fields).map
          Value.text).zip key)).Perm (all.map (Prod.map .text id)) := by
  refine ⟨(exists_split_iff hnodup s).trans exists_fromItem_iff.symm, fun key others hsplit => ?_⟩
  obtain ⟨all, hread⟩ := (exists_split_iff hnodup s).mp ⟨_, hsplit⟩
  rw [split_of_isRead hnodup hread] at hsplit
  obtain ⟨rfl, rfl⟩ := Prod.mk.inj (Except.ok.inj hsplit)
  have hnames : ∀ name, s.keyNames.dedup.contains name = s.keyNames.contains name := by
    intro name
    rw [Bool.eq_iff_iff, List.contains_iff_mem, List.contains_iff_mem, List.mem_dedup]
  have hitem : fromItem decimalNumbers (record fields) = .ok (record all) := by
    rw [record_eq, fromItem_map, fromWireFields_of_isRead hread]
    rfl
  refine ⟨all, hread, hitem, rfl, by simp only [hnames], ?_⟩
  have hzip : (s.keyNames.dedup.filter fun name => Entries.has name fields).zip
      (s.keyNames.dedup.filterMap fun name => Entries.get? name all) =
        Entries.restrict s.keyNames.dedup all := by
    rw [Entries.restrict, ← zip_filterMap]
    refine congrArg (List.zip · _) (List.filter_congr fun name _ => ?_)
    rcases hread.get?_cases name with ⟨hnone, hnone'⟩ | ⟨w, v, hw, hv, -⟩
    · rw [Entries.has, hnone, hnone']
    · rw [Entries.has, hw, hv]
      rfl
  have hall : (all.map Prod.fst).Nodup := hread.map_fst_eq ▸ hnodup
  have hrejoined := (Entries.perm_merge_restrict hall s.keyNames.nodup_dedup).map
    (Prod.map Value.text id)
  rwa [← Entries.merge_map text_beq, ← hzip, ← List.zip_map_left] at hrejoined

/-- An item whose schema names its key attribute twice, with a number set among the others. -/
def repeatedFields : Params :=
  [("n", Wire.tagged .ns (.list [.text "1", .text "2"])), ("id", Wire.tagged .s (.text "x"))]

theorem split_rejoined_repeated : (repeatedFields.map Prod.fst).Nodup ∧
    ∃ all, fromItem false (record repeatedFields) = .ok (record all) ∧
      ([(.text "n", .list [.int 1, .int 2]), (.text "id", .text "x")] : List (Value × Value)).Perm
        (all.map (Prod.map .text id)) := by
  have hnodup : (repeatedFields.map Prod.fst).Nodup := by decide
  have hsplit : split ⟨some "id", some .text, some "id", none⟩ (record repeatedFields) false =
      .ok ([.text "x"], [(.text "n", .list [.int 1, .int 2])]) := by rfl
  obtain ⟨all, -, hitem, -, -, hperm⟩ :=
    (split_rejoined hnodup ⟨some "id", some .text, some "id", none⟩ false).2 _ _ hsplit
  exact ⟨hnodup, all, hitem, hperm⟩

end Schema

end ItemStore
