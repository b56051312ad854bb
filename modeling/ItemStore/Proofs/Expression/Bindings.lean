import ItemStore.Proofs.Expression.Numbering
import ItemStore.Proofs.Value.Entries

/-
  The bindings of a compiled expression in the parameters of a request. There are two maps of
  them, and what holds of one holds of the other, so a `BindingKind` stands for either.

  `toParams` makes each map from the bindings alone (`get?_toParams_field`), `bindInto` puts the
  bindings into the map that is there (`bindInto_spec`). Both leave other parameters alone. When
  the placeholders are not among those of the map, as those numbered from a later start are not
  (`NumberedFrom`), nothing that was bound is bound anew (`extended_sentMap`).
-/

namespace ItemStore

/-- The maps of placeholders of a request: those of names and those of values. -/
inductive BindingKind where
  | names
  | values
  deriving DecidableEq, Inhabited

/-- The parameter that carries the placeholders of a kind. -/
def BindingKind.field : BindingKind → String
  | .names => "ExpressionAttributeNames"
  | .values => "ExpressionAttributeValues"

theorem BindingKind.field_inj {kind kind' : BindingKind} :
    kind.field = kind'.field ↔ kind = kind' := by
  cases kind <;> cases kind' <;> decide

/-! ## Maps of placeholders -/

/-- The entries of what parameters hold, none if it is not a map. -/
def heldEntries : Option Value → List (Value × Value)
  | some (.map es) => es
  | _ => []

/-- A map of placeholders as it is sent: left out when it is empty. -/
def sentMap (es : List (Value × Value)) : Option Value :=
  if es.isEmpty then none else some (.map es)

/-- What parameters hold after bindings are put into what they held. -/
def extended (held : Option Value) (bindings : List (Value × Value)) : Option Value :=
  if bindings.isEmpty then held
  else some (.map (Entries.merge (heldEntries held) bindings))

theorem heldEntries_sentMap (es : List (Value × Value)) : heldEntries (sentMap es) = es := by
  cases es <;> rfl

theorem heldEntries_extended (held : Option Value) (bs : List (Value × Value)) :
    heldEntries (extended held bs) = Entries.merge (heldEntries held) bs := by
  cases bs <;> rfl

theorem extended_append (held : Option Value) (bs cs : List (Value × Value)) :
    extended held (bs ++ cs) = extended (extended held bs) cs := by
  cases cs with
  | nil =>
    rw [List.append_nil]
    rfl
  | cons c cs =>
    have hne : (bs ++ c :: cs).isEmpty = false := by simp
    rw [extended, hne, Entries.merge_append, ← heldEntries_extended]
    rfl

/-- Bindings of placeholders that are not in a map of placeholders are put behind its own. -/
theorem extended_sentMap {es bs : List (Value × Value)}
    (hsole : ∀ b ∈ bs, Entries.Sole b.1) (h : ((es ++ bs).map Prod.fst).Nodup) :
    extended (sentMap es) bs = sentMap (es ++ bs) := by
  have hmerge := Entries.merge_of_nodup hsole h
  rw [extended, heldEntries_sentMap, hmerge]
  cases bs with
  | nil =>
    rw [List.append_nil]
    rfl
  | cons b bs =>
    have hsent : sentMap (es ++ b :: bs) = some (.map (es ++ b :: bs)) := by simp [sentMap]
    rw [hsent]
    rfl

/-- What is bound in a map after bindings are put into it comes from the bindings, or else was
there. -/
theorem get?_extended {k : Value} (hk : Entries.Sole k) {bs : List (Value × Value)}
    (hsole : ∀ b ∈ bs, Entries.Sole b.1) (hnodup : (bs.map Prod.fst).Nodup)
    (held : Option Value) :
    Entries.get? k (heldEntries (extended held bs)) =
      (Entries.get? k bs).or (Entries.get? k (heldEntries held)) := by
  rw [heldEntries_extended, Entries.get?_merge hk hsole hnodup]

/-- What parameters bind a placeholder of a kind to, if they do. -/
def bound? (kind : BindingKind) (placeholder : Value) (params : Params) : Option Value :=
  Entries.get? placeholder (heldEntries (Entries.get? kind.field params))

/-- What is held is a map, if anything is. -/
def HoldsMap (held : Option Value) : Prop :=
  ∀ v, held = some v → ∃ es, v = .map es

theorem holdsMap_none : HoldsMap none :=
  nofun

theorem holdsMap_some_map (es : List (Value × Value)) : HoldsMap (some (.map es)) :=
  fun _ hv => ⟨es, (Option.some.inj hv).symm⟩

theorem holdsMap_sentMap (es : List (Value × Value)) : HoldsMap (sentMap es) := by
  unfold sentMap
  split
  · exact holdsMap_none
  · exact holdsMap_some_map es

theorem HoldsMap.extended {held : Option Value} (h : HoldsMap held) (bs : List (Value × Value)) :
    HoldsMap (extended held bs) := by
  unfold ItemStore.extended
  split
  · exact h
  · exact holdsMap_some_map _

/-- Parameters that hold no placeholders, or hold them as maps. -/
def HasMaps (params : Params) : Prop :=
  ∀ kind : BindingKind, HoldsMap (Entries.get? kind.field params)

namespace Compiled

/-! ## Bindings -/

/-- The bindings of a kind, as they are sent. -/
def bindings (c : Compiled) : BindingKind → List (Value × Value)
  | .names => c.names.map fun e => (.text e.1, .text e.2)
  | .values => c.values.map fun e => (.text e.1, e.2)

/-- The placeholders of a kind. -/
def keys (c : Compiled) : BindingKind → List String
  | .names => c.names.map (·.1)
  | .values => c.values.map (·.1)

theorem map_fst_bindings (c : Compiled) (kind : BindingKind) :
    (c.bindings kind).map Prod.fst = (c.keys kind).map Value.text := by
  cases kind <;> simp [bindings, keys]

theorem keys_sublist (c : Compiled) (kind : BindingKind) :
    (c.keys kind).Sublist c.placeholders := by
  cases kind with
  | names => exact List.sublist_append_left _ _
  | values => exact List.sublist_append_right _ _

theorem flatMap_keys_sublist (cs : List Compiled) (kind : BindingKind) :
    (cs.flatMap (keys · kind)).Sublist (cs.flatMap placeholders) := by
  induction cs with
  | nil => exact .slnil
  | cons c cs ih => exact (c.keys_sublist kind).append ih

theorem nodup_map_text {ks : List String} (h : ks.Nodup) : (ks.map Value.text).Nodup :=
  List.Pairwise.map _ (fun _ _ => mt Value.text.inj) h

/-- A binding is one of a placeholder, which is text. -/
theorem exists_key_of_mem_bindings {c : Compiled} {kind : BindingKind} {b : Value × Value}
    (h : b ∈ c.bindings kind) : ∃ k ∈ c.keys kind, b.1 = .text k := by
  have hkey : b.1 ∈ (c.bindings kind).map Prod.fst := List.mem_map_of_mem h
  rw [map_fst_bindings] at hkey
  obtain ⟨k, hk, hb⟩ := List.mem_map.mp hkey
  exact ⟨k, hk, hb.symm⟩

theorem sole_of_mem_bindings {c : Compiled} {kind : BindingKind} {b : Value × Value}
    (h : b ∈ c.bindings kind) : Entries.Sole b.1 := by
  obtain ⟨k, -, hb⟩ := exists_key_of_mem_bindings h
  rw [hb]
  exact Value.sole_text k

/-! ## Bindings of several expressions -/

variable {cs : List Compiled} {kind : BindingKind}

theorem map_fst_flatMap_bindings (cs : List Compiled) (kind : BindingKind) :
    (cs.flatMap (bindings · kind)).map Prod.fst =
      (cs.flatMap (keys · kind)).map Value.text := by
  simp only [List.map_flatMap, map_fst_bindings]

/-- Where no placeholder occurs twice in some expressions, none does among their bindings of one
kind. -/
theorem nodup_bindings (h : (cs.flatMap placeholders).Nodup) (kind : BindingKind) :
    ((cs.flatMap (bindings · kind)).map Prod.fst).Nodup := by
  rw [map_fst_flatMap_bindings]
  exact nodup_map_text (h.sublist (flatMap_keys_sublist cs kind))

theorem sole_of_mem_flatMap_bindings :
    ∀ b ∈ cs.flatMap (bindings · kind), Entries.Sole b.1 := by
  intro b hb
  obtain ⟨c, -, hc⟩ := List.mem_flatMap.mp hb
  exact sole_of_mem_bindings hc

theorem get?_flatMap_bindings_of_notMem {k : String} (h : k ∉ cs.flatMap (keys · kind)) :
    Entries.get? (.text k) (cs.flatMap (bindings · kind)) = none := by
  refine Entries.get?_of_notMem (Value.sole_text k) ?_
  rw [map_fst_flatMap_bindings]
  intro hmem
  obtain ⟨k', hk', he⟩ := List.mem_map.mp hmem
  exact h (Value.text.inj he ▸ hk')

/-! ## Parameters of an expression -/

variable {c : Compiled} {name field : String}

theorem isEmpty_eq_false_iff : c.isEmpty = false ↔ c.expression ≠ "" :=
  beq_eq_false_iff_ne

/-- Parameters with a map of placeholders put in, if it is not empty. -/
theorem get?_withBindings (c : Compiled) (kind : BindingKind) (field : String) (params : Params) :
    Entries.get? field
        (if (c.bindings kind).isEmpty then params
        else Entries.insert kind.field (.map (c.bindings kind)) params) =
      if kind.field = field then (sentMap (c.bindings kind)).or (Entries.get? field params)
      else Entries.get? field params := by
  unfold sentMap
  split
  · simp
  · rw [Entries.get?_insert (Entries.sole_of_lawful _) (Entries.sole_of_lawful _)]
    simp only [beq_iff_eq, Option.some_or]

theorem toParams_eq (c : Compiled) (name : String) :
    c.toParams name =
      let expression := if c.isEmpty then [] else [(name, Value.text c.expression)]
      let names :=
        if (c.bindings .names).isEmpty then expression
        else Entries.insert (BindingKind.field .names) (.map (c.bindings .names)) expression
      if (c.bindings .values).isEmpty then names
      else Entries.insert (BindingKind.field .values) (.map (c.bindings .values)) names := by
  have hnames : c.namesValue = .map (c.bindings .names) := by
    unfold namesValue Value.record bindings
    rw [List.map_map]
    rfl
  rw [← hnames]
  simp only [bindings, List.isEmpty_map]
  rfl

/-- An expression makes its own maps of placeholders. -/
theorem get?_toParams_field (hname : ∀ kind, BindingKind.field kind ≠ name) (kind : BindingKind) :
    Entries.get? kind.field (c.toParams name) = sentMap (c.bindings kind) := by
  have hexpression : Entries.get? kind.field
      (if c.isEmpty then [] else [(name, Value.text c.expression)]) = none := by
    have hne : ¬name = kind.field := fun h => hname kind h.symm
    cases c.isEmpty <;> simp [Entries.get?, hne]
  rw [toParams_eq]
  dsimp only
  rw [get?_withBindings, get?_withBindings, hexpression]
  cases kind <;> simp [BindingKind.field_inj]

/-- An expression that is not empty is sent under its name. -/
theorem get?_toParams_name (hname : ∀ kind, BindingKind.field kind ≠ name) :
    Entries.get? name (c.toParams name) =
      if c.isEmpty then none else some (.text c.expression) := by
  rw [toParams_eq]
  dsimp only
  rw [get?_withBindings, get?_withBindings, if_neg (hname .values), if_neg (hname .names)]
  cases c.isEmpty <;> simp [Entries.get?]

theorem get?_toParams_other (hname : name ≠ field) (h : ∀ kind, BindingKind.field kind ≠ field) :
    Entries.get? field (c.toParams name) = none := by
  rw [toParams_eq]
  dsimp only
  rw [get?_withBindings, get?_withBindings, if_neg (h .values), if_neg (h .names)]
  cases c.isEmpty <;> simp [Entries.get?, hname]

theorem nodup_toParams (c : Compiled) (name : String) :
    ((c.toParams name).map Prod.fst).Nodup := by
  have hinsert : ∀ (empty : Bool) (field : String) (v : Value) (params : Params),
      (params.map Prod.fst).Nodup →
      ((if empty then params else Entries.insert field v params).map Prod.fst).Nodup := by
    intro empty field v params h
    cases empty with
    | true => exact h
    | false => exact Entries.nodup_insert h
  refine hinsert _ _ _ _ (hinsert _ _ _ _ ?_)
  cases c.isEmpty
  · exact List.pairwise_singleton _ name
  · exact List.nodup_nil

/-! ## Bindings put into parameters -/

/-- Bindings are put into what parameters hold under a name, unless it is not a map. -/
theorem bindUnder_spec {params : Params} (hmaps : HasMaps params) (kind : BindingKind)
    {bs : List (Value × Value)} (hsole : ∀ b ∈ bs, Entries.Sole b.1)
    (hnodup : (bs.map Prod.fst).Nodup) :
    ∃ params', bindUnder kind.field bs params = .ok params' ∧ ∀ field,
      Entries.get? field params' =
        if kind.field = field then extended (Entries.get? field params) bs
        else Entries.get? field params := by
  unfold bindUnder
  split
  · next hempty =>
    refine ⟨params, rfl, fun field => ?_⟩
    rw [List.isEmpty_iff.mp hempty]
    exact (ite_self _).symm
  · next hne =>
    have key : ∀ held : Option Value, Entries.get? kind.field params = held → ∀ field,
        Entries.get? field
            (Entries.insert kind.field (.map (Entries.merge (heldEntries held) bs)) params) =
          if kind.field = field then extended (Entries.get? field params) bs
          else Entries.get? field params := by
      intro held hheld field
      by_cases hfield : kind.field = field
      · rw [if_pos hfield, ← hfield, Entries.get?_insert_self, hheld, extended, if_neg hne]
      · rw [if_neg hfield, Entries.get?_insert_of_ne hfield]
    cases hheld : Entries.get? kind.field params with
    | none =>
      refine ⟨_, rfl, fun field => ?_⟩
      have hmerge : Entries.merge (heldEntries none) bs = bs :=
        Entries.merge_of_nodup hsole hnodup
      rw [← key none hheld, hmerge]
    | some v =>
      obtain ⟨es, rfl⟩ := hmaps kind v hheld
      exact ⟨_, rfl, key _ hheld⟩

/-- The bindings of an expression are put into what parameters hold, and nothing else changes. -/
theorem bindInto_spec (hnodup : c.placeholders.Nodup) {params : Params} (hmaps : HasMaps params) :
    ∃ params', c.bindInto params = (.ok (), params') ∧
      (∀ kind, Entries.get? (BindingKind.field kind) params' =
        extended (Entries.get? kind.field params) (c.bindings kind)) ∧
      ∀ field, (∀ kind, BindingKind.field kind ≠ field) →
        Entries.get? field params' = Entries.get? field params := by
  have hkeys : ∀ kind, ((c.bindings kind).map Prod.fst).Nodup := by
    intro kind
    have hone : ([c].flatMap placeholders).Nodup := by simpa using hnodup
    simpa using nodup_bindings hone kind
  obtain ⟨params₁, hbind₁, hget₁⟩ :=
    bindUnder_spec hmaps .names (fun _ => sole_of_mem_bindings) (hkeys .names)
  have hmaps₁ : HasMaps params₁ := by
    intro kind
    rw [hget₁]
    split
    · exact (hmaps kind).extended _
    · exact hmaps kind
  obtain ⟨params₂, hbind₂, hget₂⟩ :=
    bindUnder_spec hmaps₁ .values (fun _ => sole_of_mem_bindings) (hkeys .values)
  refine ⟨params₂, ?_, ?_, ?_⟩
  · have hnames : bindUnder "ExpressionAttributeNames"
        (c.names.map fun e => (Value.text e.1, Value.text e.2)) params = .ok params₁ := hbind₁
    have hvalues : bindUnder "ExpressionAttributeValues"
        (c.values.map fun e => (Value.text e.1, e.2)) params₁ = .ok params₂ := hbind₂
    simp only [bindInto, hnames, hvalues]
  · intro kind
    rw [hget₂, hget₁]
    cases kind <;> simp [BindingKind.field_inj]
  · intro field hfield
    rw [hget₂, hget₁, if_neg (hfield .values), if_neg (hfield .names)]

/-! ## Numbers of placeholders -/

/-- The number of bindings. -/
def size (c : Compiled) : Nat :=
  c.names.length + c.values.length

/-- An expression whose placeholders take the numbers from a start on, one each. -/
structure NumberedFrom (start : Nat) (c : Compiled) : Prop where
  nodup : c.placeholders.Nodup
  index_ge : ∀ p ∈ c.placeholders, start ≤ indexOf p
  index_lt : ∀ p ∈ c.placeholders, indexOf p < start + c.size
  next_eq : max start (c.lastIndex + 1) = start + c.size

end Compiled

namespace Expression

open Skeleton

/-- What is compiled from a value is a skeleton with its holes filled. -/
theorem exists_fill_of_compileValue {g : Grammar} {start : Int} {source : Value} {c : Compiled}
    (h : compileValue g start source = .ok c) : ∃ ps : Skeleton, c = ps.fill start := by
  unfold compileValue at h
  split at h
  · next s =>
    unfold compile at h
    cases hs : skeleton g s.toList with
    | error e =>
      rw [hs] at h
      cases h
    | ok ps =>
      rw [hs] at h
      cases h
      exact ⟨ps, rfl⟩
  · cases h
  · split at h
    · cases h
      exact ⟨[], rfl⟩
    · cases h
  · split at h
    · cases h
    · cases h
      exact ⟨[], rfl⟩

theorem nodup_of_compileValue {g : Grammar} {start : Int} {source : Value} {c : Compiled}
    (h : compileValue g start source = .ok c) : c.placeholders.Nodup := by
  obtain ⟨ps, rfl⟩ := exists_fill_of_compileValue h
  exact nodup_fill start ps

/-- What is compiled from a start on is numbered from it on. -/
theorem numberedFrom_of_compileValue {g : Grammar} {start : Nat} {source : Value} {c : Compiled}
    (hstart : 1 ≤ start) (h : compileValue g start source = .ok c) :
    Compiled.NumberedFrom start c := by
  have hnodup := nodup_of_compileValue h
  obtain ⟨ps, rfl⟩ := exists_fill_of_compileValue h
  have hsize : (ps.fill start).size = ps.holes.length := size_fill _ ps
  have hindex : ∀ p ∈ (ps.fill start).placeholders,
      start ≤ Compiled.indexOf p ∧ Compiled.indexOf p < start + ps.holes.length := by
    intro p hp
    obtain ⟨i, hole, hi, rfl⟩ := (mem_placeholders _ ps).mp hp
    obtain ⟨hle, hlt⟩ := exists_mem_numbered.mp ⟨hole, hi⟩
    have := indexOf_placeholder (show 0 ≤ i by omega) hole
    omega
  refine ⟨hnodup, fun p hp => (hindex p hp).1, fun p hp => ?_, ?_⟩
  · rw [hsize]
    exact (hindex p hp).2
  · have hlast := lastIndex_fill start ps (by omega)
    rw [hsize]
    split at hlast <;> omega

end Expression

end ItemStore
