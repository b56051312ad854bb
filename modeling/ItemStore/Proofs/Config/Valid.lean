import ItemStore.Config.Basic
import ItemStore.Proofs.Fields.Taken
import ItemStore.Proofs.Value.Entries

/-
  Settings that exist are valid: they name a region, a stage and a grammar (`IsValid`). Given fields
  and assigned values are checked on their way in (`set_taken`), so an assignment keeps settings
  valid, and one that is refused leaves them as they are; a run of assignments is valid at every
  point (`IsValid.states`).

  What is not given comes from the environment, and that is not checked. Settings are valid at the
  start exactly if the environment has a region, a stage and a grammar to offer wherever its word is
  taken (`isValid_iff`); with a stage that it should not name they are made all the same
  (`not_valid_of_make`).
-/

namespace ItemStore

namespace Config

/-- Settings with a region, a stage of deployment and a grammar. -/
structure IsValid (c : Config) : Prop where
  region_ne : c.region ≠ ""
  stage_mem : c.stage ∈ stages
  grammar_mem : c.grammar ∈ [Grammar.inferred.name, Grammar.tagged.name]

/-- The fields that are given; what is not given is left to the environment. -/
def Origin.given : Origin → Params
  | .fields given => given
  | .environment => []
  | .thisMachine => fieldsOnThisMachine

theorem Origin.make_eq (env : Environment) (o : Origin) : o.make env = ofFields env o.given := by
  cases o <;> rfl

/-- An environment whose variables can stand in for fields that are not given: its region is not
empty and its stage and its grammar are known, or they are not set. -/
structure SuitedBy (env : Environment) (given : Params) : Prop where
  region : Entries.get? "region_name" given = none →
    (lookup? env "AWS_REGION").getD "us-east-1" ≠ ""
  stage : Entries.get? "environment" given = none →
    (lookup? env "ENVIRONMENT").getD "dev" ∈ stages
  grammar : Entries.get? "literal_grammar" given = none →
    (lookup? env "DYNAMODB_DSL_GRAMMAR").getD Grammar.inferred.name ∈
      [Grammar.inferred.name, Grammar.tagged.name]

/-! ## The checks -/

theorem ne_of_checkRegion {v : Value} {s : String} (h : checkRegion v = .taken s) : s ≠ "" := by
  obtain ⟨t, -, ht⟩ := Checked.andThen_eq_taken.mp h
  split at ht
  · cases ht
  · next hne =>
    cases ht
    exact hne

theorem mem_of_checkStage {v : Value} {s : String} (h : checkStage v = .taken s) : s ∈ stages := by
  obtain ⟨t, -, ht⟩ := Checked.andThen_eq_taken.mp h
  split at ht
  · next hmem =>
    cases ht
    exact List.contains_iff_mem.mp hmem
  · cases ht

theorem mem_of_checkGrammar {v : Value} {s : String} (h : checkGrammar v = .taken s) :
    s ∈ [Grammar.inferred.name, Grammar.tagged.name] := by
  obtain ⟨g, -, rfl⟩ := Checked.map_eq_taken.mp h
  cases g <;> decide

/-! ## Settings as they are made -/

/-- The fields that a rule is for, as they are taken. -/
theorem taken_of_ofFields {env : Environment} {given : Params} {c : Config}
    (h : ofFields env given = .ok c) :
    fieldOr given "region_name" ((lookup? env "AWS_REGION").getD "us-east-1") checkRegion =
        .taken c.region ∧
      fieldOr given "environment" ((lookup? env "ENVIRONMENT").getD "dev") checkStage =
        .taken c.stage ∧
      fieldOr given "literal_grammar"
        ((lookup? env "DYNAMODB_DSL_GRAMMAR").getD Grammar.inferred.name) checkGrammar =
        .taken c.grammar := by
  have htaken := Checked.toOutcome_eq_ok.mp h
  simp only [Checked.seq_eq_taken, Checked.map_eq_taken] at htaken
  obtain ⟨_, _, ⟨_, _, ⟨_, _, ⟨_, _, ⟨_, _, ⟨_, _, ⟨_, _, ⟨_, _, ⟨_, _, ⟨_, hregion, rfl⟩, _, rfl⟩,
    _, rfl⟩, _, rfl⟩, _, rfl⟩, _, rfl⟩, hstage, rfl⟩, _, rfl⟩, hgrammar, rfl⟩, _, rfl⟩ := htaken
  exact ⟨hregion, hstage, hgrammar⟩

/-- Settings are valid from the start exactly if the environment suits what is not given. -/
theorem isValid_iff {env : Environment} {given : Params} {c : Config}
    (h : ofFields env given = .ok c) : c.IsValid ↔ SuitedBy env given := by
  obtain ⟨hregion, hstage, hgrammar⟩ := taken_of_ofFields h
  have hregion := iff_of_fieldOr (fun _ _ => ne_of_checkRegion) hregion
  have hstage := iff_of_fieldOr (fun _ _ => mem_of_checkStage) hstage
  have hgrammar := iff_of_fieldOr (fun _ _ => mem_of_checkGrammar) hgrammar
  constructor
  · intro hvalid
    exact ⟨hregion.mp hvalid.region_ne, hstage.mp hvalid.stage_mem, hgrammar.mp hvalid.grammar_mem⟩
  · intro hsuited
    exact ⟨hregion.mpr hsuited.region, hstage.mpr hsuited.stage, hgrammar.mpr hsuited.grammar⟩

/-! ## Assignments -/

/-- An assignment that is taken leaves each of the three fields as it is, or gives it a value that
its check takes. -/
theorem set_taken {c c' : Config} {name : String} {v : Value} (h : c.set name v = .ok c') :
    (c'.region = c.region ∨ checkRegion v = .taken c'.region) ∧
      (c'.stage = c.stage ∨ checkStage v = .taken c'.stage) ∧
      (c'.grammar = c.grammar ∨ checkGrammar v = .taken c'.grammar) := by
  have htaken := Checked.under_eq_taken.mp (Checked.toOutcome_eq_ok.mp h)
  split at htaken
  case h_11 =>
    split at htaken
    · cases htaken
      exact ⟨.inl rfl, .inl rfl, .inl rfl⟩
    · cases htaken
  all_goals
    obtain ⟨x, hx, rfl⟩ := Checked.map_eq_taken.mp htaken
  case h_1 => exact ⟨.inr hx, .inl rfl, .inl rfl⟩
  case h_7 => exact ⟨.inl rfl, .inr hx, .inl rfl⟩
  case h_9 => exact ⟨.inl rfl, .inl rfl, .inr hx⟩
  all_goals exact ⟨.inl rfl, .inl rfl, .inl rfl⟩

theorem IsValid.set {c c' : Config} (hc : c.IsValid) {name : String} {v : Value}
    (h : c.set name v = .ok c') : c'.IsValid := by
  obtain ⟨hregion, hstage, hgrammar⟩ := set_taken h
  refine ⟨?_, ?_, ?_⟩
  · rcases hregion with hsame | hchecked
    · rw [hsame]
      exact hc.region_ne
    · exact ne_of_checkRegion hchecked
  · rcases hstage with hsame | hchecked
    · rw [hsame]
      exact hc.stage_mem
    · exact mem_of_checkStage hchecked
  · rcases hgrammar with hsame | hchecked
    · rw [hsame]
      exact hc.grammar_mem
    · exact mem_of_checkGrammar hchecked

theorem IsValid.assign {c : Config} (hc : c.IsValid) (name : String) (v : Value) :
    (c.assign name v).2.IsValid := by
  unfold Config.assign
  split
  · next c' h => exact hc.set h
  · exact hc

/-- Valid settings stay valid, whatever is assigned. -/
theorem IsValid.states {c : Config} (hc : c.IsValid) (assigned : Params) :
    ∀ c' ∈ c.states assigned, c'.IsValid := by
  induction assigned generalizing c with
  | nil => exact List.forall_mem_singleton.mpr hc
  | cons a rest ih => exact List.forall_mem_cons.mpr ⟨hc, ih (hc.assign a.1 a.2)⟩

/-- An assignment that is taken puts a value in the place of the field that it names. -/
theorem fields_set {c c' : Config} {name : String} {v : Value} (h : c.set name v = .ok c') :
    c'.fields = c.fields ∨ ∃ x, c'.fields = Entries.insert name x c.fields := by
  have htaken := Checked.under_eq_taken.mp (Checked.toOutcome_eq_ok.mp h)
  split at htaken
  case h_11 =>
    split at htaken
    · cases htaken
      exact .inl rfl
    · cases htaken
  all_goals
    obtain ⟨x, -, rfl⟩ := Checked.map_eq_taken.mp htaken
    exact .inr ⟨_, rfl⟩

/-- An assignment changes no field but the one that it names. -/
theorem get?_fields_assign {c : Config} {name field : String} (v : Value) (hne : field ≠ name) :
    Entries.get? field (c.assign name v).2.fields = Entries.get? field c.fields := by
  unfold assign
  split
  · next c' h =>
    rcases fields_set h with hsame | ⟨x, hinsert⟩
    · exact congrArg _ hsame
    · exact (congrArg _ hinsert).trans (Entries.get?_insert_of_ne hne.symm x c.fields)
  · rfl

theorem assign_of_error {c : Config} {name : String} {v : Value} {f : Failure}
    (h : (c.assign name v).1 = .error f) : (c.assign name v).2 = c := by
  unfold assign at h ⊢
  split at h
  · cases h
  · rfl

/-- However settings are made, they are valid from the start exactly if the environment suits what
is not given, and then they are valid at every point of any assignments. An assignment that is
refused leaves all fields as they are, and none changes a field that it does not name. -/
theorem valid_of_make {env : Environment} {origin : Origin} {c : Config}
    (h : origin.make env = .ok c) (assigned : Params) :
    (c.IsValid ↔ SuitedBy env origin.given) ∧
      ∀ c' ∈ c.states assigned, (SuitedBy env origin.given → c'.IsValid) ∧
        ∀ name v,
          (∀ f, (c'.assign name v).1 = .error f → (c'.assign name v).2.fields = c'.fields) ∧
          ∀ field, field ≠ name →
            Entries.get? field (c'.assign name v).2.fields = Entries.get? field c'.fields := by
  rw [Origin.make_eq] at h
  refine ⟨isValid_iff h, fun c' hc' => ⟨fun hsuited => ?_, fun name v => ⟨fun f hf => ?_, ?_⟩⟩⟩
  · exact ((isValid_iff h).mpr hsuited).states assigned c' hc'
  · rw [assign_of_error hf]
  · exact fun field hne => get?_fields_assign v hne

/-- Settings with a given region, in an environment that has none to offer. -/
def stagingConfig : Config :=
  { region := "eu-west-1", endpoint := none, tablePrefix := "", poolSize := 50, retries := 3
    timeout := .ofInt 30, stage := "staging", debugLogging := false
    grammar := Grammar.inferred.name, decimalNumbers := false }

/-- The variables of that environment. -/
def stagingVariables : Environment :=
  [("AWS_REGION", ""), ("ENVIRONMENT", "staging")]

theorem valid_of_make_refused :
    (Origin.fields [("region_name", .text "eu-west-1")]).make stagingVariables =
      .ok stagingConfig ∧
    (stagingConfig.states [("environment", .text "qa"), ("environment", .text "prod")]).map stage =
      ["staging", "staging", "prod"] ∧
    ∀ c ∈ stagingConfig.states [("environment", .text "qa"), ("environment", .text "prod")],
      c.IsValid := by
  have hmake : (Origin.fields [("region_name", .text "eu-west-1")]).make stagingVariables =
      .ok stagingConfig := rfl
  have hsuited : SuitedBy stagingVariables
      (Origin.fields [("region_name", .text "eu-west-1")]).given := by
    refine ⟨nofun, fun _ => ?_, fun _ => ?_⟩ <;> decide
  exact ⟨hmake, rfl, fun c hc => ((valid_of_make hmake _).2 c hc).1 hsuited⟩

/-- A stage that is none is taken from the environment as it is. -/
theorem not_valid_of_make : ∃ c, Origin.environment.make [("ENVIRONMENT", "qa")] = .ok c ∧
    c.stage = "qa" ∧ "qa" ∉ stages :=
  ⟨{ stagingConfig with region := "us-east-1", stage := "qa" }, rfl, rfl, by decide⟩

end Config

end ItemStore
