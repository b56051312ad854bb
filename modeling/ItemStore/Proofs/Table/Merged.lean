import ItemStore.Proofs.Expression.Located
import ItemStore.Proofs.Table.Keyed

/-
  Updates with a condition. The update and its condition are compiled apart, and one request
  carries both: each under its own name, and the placeholders of both in the same two maps. The
  condition is compiled from the index on that follows the last one of the update, so none of its
  placeholders is one of the update (`Compiled.notMem_placeholders`), its bindings are put behind
  those of the update, and each placeholder stays bound as its own expression binds it (`Merges`).

  If one of the two does not compile, the update fails so before anything is sent; the update is
  compiled first (`update_merged`).
-/

namespace ItemStore

open Exchange

/-- An expression that goes on from the last index of another has no placeholder of it. -/
theorem Compiled.notMem_placeholders {c d : Compiled} (hd : d.NumberedFrom (c.lastIndex + 1)) :
    ∀ p ∈ c.placeholders, p ∉ d.placeholders := by
  intro p hp hmem
  have hle := Expression.Skeleton.lastIndex_le_iff.mp (Nat.le_refl c.lastIndex) p hp
  have hge := hd.index_ge p hmem
  omega

namespace Table

variable {t : Table} {hash range : Value} {key : Item} {c d : Compiled}

/-- The parameters of an update that are not those of its expressions. -/
def plainParams (t : Table) (key : Item) : Params :=
  [("TableName", .text t.name), ("Key", key.toValue), ("ReturnValues", .text "ALL_NEW")]

/-- Parameters that carry an update and its condition. They have no placeholder in common, and
each of them is bound as its own expression binds it. -/
structure Merges (t : Table) (key : Item) (c d : Compiled) (params : Params) : Prop where
  update_eq : Entries.get? "UpdateExpression" params = some (.text c.expression)
  condition_eq : Entries.get? "ConditionExpression" params = some (.text d.expression)
  apart : ∀ p ∈ c.placeholders, p ∉ d.placeholders
  maps_eq : ∀ kind : BindingKind, Entries.get? kind.field params =
    sentMap (c.bindings kind ++ d.bindings kind)
  bound : ∀ part ∈ [c, d], ∀ kind, ∀ b ∈ part.bindings kind, bound? kind b.1 params = some b.2
  plain : ∀ field ∉ expressionNames, Entries.get? field params =
    Entries.get? field (t.plainParams key)

/-! ## Parameters -/

/-- What is asked of an update and its condition, in the parameters of its request. -/
theorem merges_of_compile (key : Item) {condition : Value} (hgiven : condition.isTruthy = true)
    (hempty : c.isEmpty = false) (hnodup : c.placeholders.Nodup)
    (hd : t.compile condition (c.lastIndex + 1) = .ok d) :
    ∃ params, t.withCondition condition c.lastIndex (updateParams key c) = .ok params ∧
      Sendable params ∧ Merges t key c d (Entries.merge [("TableName", .text t.name)] params) := by
  obtain ⟨params, hparams, hdistinct, hcondition, hmaps, hother⟩ :=
    withCondition_of_compile hgiven hd (hasMaps_updateParams key c) (nodup_updateParams key c)
  have hplain : ∀ field ∉ expressionNames, Entries.get? field params =
      Entries.get? field [("Key", key.toValue), ("ReturnValues", .text "ALL_NEW")] := by
    intro field hfield
    rw [hother field, get?_updateParams_of_notMem key c hfield]
    · rintro rfl
      exact hfield (by decide)
    · rintro kind rfl
      exact hfield (by cases kind <;> decide)
  have hget : ∀ field, Entries.get? field (Entries.merge [("TableName", .text t.name)] params) =
      (Entries.get? field params).or (Entries.get? field [("TableName", .text t.name)]) :=
    fun field => Entries.get?_merge_of_nodup hdistinct field _
  have hnumbered : d.NumberedFrom (c.lastIndex + 1) :=
    Expression.numberedFrom_of_compileValue (Nat.le_add_left 1 c.lastIndex) hd
  have hapart := Compiled.notMem_placeholders hnumbered
  have hkeys : ∀ kind, ((c.bindings kind ++ d.bindings kind).map Prod.fst).Nodup := by
    intro kind
    have hall : ([c, d].flatMap Compiled.placeholders).Nodup := by
      rw [List.flatMap_cons, List.flatMap_singleton]
      refine List.nodup_append.mpr ⟨hnodup, hnumbered.nodup, ?_⟩
      rintro p hp q hq rfl
      exact hapart p hp hq
    simpa using Compiled.nodup_bindings hall kind
  have hmerged : ∀ kind : BindingKind,
      Entries.get? kind.field (Entries.merge [("TableName", .text t.name)] params) =
        sentMap (c.bindings kind ++ d.bindings kind) := by
    intro kind
    have hnone : Entries.get? kind.field [("TableName", Value.text t.name)] = none := by
      cases kind <;> rfl
    rw [hget, hnone, Option.or_none, hmaps, get?_updateParams_kind,
      extended_sentMap (fun _ => Compiled.sole_of_mem_bindings) (hkeys kind)]
  refine ⟨params, hparams, sendable_of_plain hdistinct hplain, ?_, ?_, hapart, hmerged, ?_, ?_⟩
  · have hname : ∀ kind : BindingKind, kind.field ≠ "UpdateExpression" := by
      intro kind
      cases kind <;> decide
    rw [hget, hother _ (by decide) hname, get?_updateParams, Compiled.get?_toParams_name hname,
      hempty]
    rfl
  · rw [hget, hcondition]
    rfl
  · intro part hpart kind b hb
    have hmem : b ∈ c.bindings kind ++ d.bindings kind := by
      rw [List.mem_append]
      rcases List.mem_cons.mp hpart with rfl | hpart
      · exact .inl hb
      · exact .inr (List.mem_singleton.mp hpart ▸ hb)
    rw [bound?, hmerged, heldEntries_sentMap]
    exact Entries.get?_of_mem (Compiled.sole_of_mem_bindings hb) (hkeys kind) hmem
  · intro field hfield
    rw [hget, hplain field hfield, plainParams]
    by_cases htable : "TableName" = field
    · subst htable
      rfl
    · have hnone : Entries.get? field [("TableName", Value.text t.name)] = none :=
        Entries.get?_of_notMem (Entries.sole_of_lawful field)
          fun hmem => htable (List.mem_singleton.mp hmem).symm
      rw [hnone, Option.or_none, Entries.get?.eq_def field (("TableName", _) :: _)]
      exact (if_neg (mt beq_iff_eq.mp htable)).symm

/-! ## Updates -/

/-- An update with a condition, for any key and any two sources that are not blank. A key that is
refused, or else an update that does not compile, or else a condition that does not, is the failure
of the update, and nothing is sent. Otherwise it sends one request, whatever is replied, with both
expressions, the condition compiled from the index behind the last one of the update, and with the
placeholders of both. -/
theorem update_merged (t : Table) (hash range : Value) {source condition : String}
    (hsource : source.toList.all Text.isBlank = false)
    (hcondition : condition.toList.all Text.isBlank = false) :
    (∀ e, t.requireKey hash range = .error e →
      t.update hash range (.text source) (.text condition) = done (.error e)) ∧
    ∀ key, t.requireKey hash range = .ok key →
      (∀ e, Expression.compile t.grammar 1 source = .error e →
        t.update hash range (.text source) (.text condition) = done (.error e.toFailure)) ∧
      ∀ c, Expression.compile t.grammar 1 source = .ok c →
        (∀ e, Expression.compile t.grammar (c.lastIndex + 1) condition = .error e →
          t.update hash range (.text source) (.text condition) = done (.error e.toFailure)) ∧
        ∀ d, Expression.compile t.grammar (c.lastIndex + 1) condition = .ok d →
          ∃ params, Sends (t.update hash range (.text source) (.text condition))
              ⟨.updateItem, params⟩ ∧
            Merges t key c d params := by
  have hgiven : (Value.text condition).isTruthy = true := by
    refine bne_iff_ne.mpr ?_
    rintro rfl
    cases hcondition
  refine ⟨fun e he => update_of_error he _ _, fun key hkey => ?_⟩
  rw [update_of_requireKey hkey]
  refine ⟨fun e he => ?_, fun c hc => ?_⟩
  · have hfails : t.compile (.text source) 1 = .error e.toFailure :=
      Expression.compileValue_of_error he
    rw [hfails]
    rfl
  have hcompiled : t.compile (.text source) 1 = .ok c := compileValue_text hc
  have hempty : c.isEmpty = false := (Expression.isEmpty_of_compile hc).trans hsource
  have hstep : ∀ f : Compiled → Exchange Value, andThen (done (.ok c)) f = f c := fun _ => rfl
  rw [hcompiled, hstep, hempty, if_neg Bool.false_ne_true]
  refine ⟨fun e he => ?_, fun d hd => ?_⟩
  · have hfails : t.compile (.text condition) (c.lastIndex + 1) = .error e.toFailure :=
      Expression.compileValue_of_error he
    have hparams : t.withCondition (.text condition) c.lastIndex (updateParams key c) =
        .error e.toFailure := by
      rw [withCondition, if_pos hgiven, hfails]
      rfl
    rw [hparams]
    rfl
  · have hcompiled' : t.compile (.text condition) (c.lastIndex + 1) = .ok d := compileValue_text hd
    obtain ⟨params, hparams, hsendable, hmerges⟩ := merges_of_compile key hgiven hempty
      (Expression.nodup_of_compileValue (compileValue_text hc)) hcompiled'
    refine ⟨_, ?_, hmerges⟩
    rw [hparams]
    exact (Gateway.sends_call (hsendable.request_eq _ _)).andThen fun reply =>
      (quiet_done _).andThen fun v => quiet_done _

/-- A counter that is raised while it is low. The condition is numbered on from the update, and the
attribute that both name has a placeholder in each. -/
theorem update_merged_counter :
    "SET n = n + 1".toList.all Text.isBlank = false ∧ "n < 5".toList.all Text.isBlank = false ∧
      ∃ c d params, Sends (eventsTable.update (.text "a") .null (.text "SET n = n + 1")
          (.text "n < 5")) ⟨.updateItem, params⟩ ∧
        Merges eventsTable [("id", .s "a")] c d params ∧
        c.expression = "SET #V1 = #V2 + :V3" ∧ d.expression = "#V4 < :V5" := by
  have hsource : "SET n = n + 1".toList.all Text.isBlank = false := by decide +kernel
  have hcondition : "n < 5".toList.all Text.isBlank = false := by decide +kernel
  obtain ⟨c, hc, hindex, hexpression⟩ : ∃ c, Expression.compile .inferred 1 "SET n = n + 1" =
      .ok c ∧ c.lastIndex = 3 ∧ c.expression = "SET #V1 = #V2 + :V3" :=
    Text.exists_ok_of_any (by decide +kernel)
  obtain ⟨d, hd, hexpression'⟩ : ∃ d, Expression.compile .inferred (3 + 1) "n < 5" = .ok d ∧
      d.expression = "#V4 < :V5" := Text.exists_ok_of_any (by decide +kernel)
  have hkey : eventsTable.requireKey (.text "a") .null = .ok [("id", .s "a")] := rfl
  have hcompiled :=
    ((update_merged eventsTable (.text "a") .null hsource hcondition).2 _ hkey).2 c hc
  rw [hindex] at hcompiled
  obtain ⟨params, hsends, hmerges⟩ := hcompiled.2 d hd
  exact ⟨hsource, hcondition, c, d, params, hsends, hmerges, hexpression, hexpression'⟩

end Table

end ItemStore
