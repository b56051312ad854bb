import ItemStore.Proofs.Pages.Filters

/-
  What a read sends. Its requests are made of the parameters that it has before its first entry, but
  for the key to go on from (`sent_pulls_of_goesOn`), so what they bind is what was bound when the
  read started and what was joined to it since.

  Three sources bind placeholders: the options, the expression that the read starts from, and its
  filters. The maps of the expression stand in for those of the options, and those of the filters
  are put into what is there (`bound?_sent`). So the bindings of the expression and of each filter
  are sent as they are, and a binding of the options is sent where the expression brings no map of
  its kind and no filter a placeholder of its name (`bindings_sent`). Where the expression brings
  one, bindings of the options are lost (`not_bindings_sent`), also those that only the projection
  or a verbatim placeholder uses.
-/

namespace ItemStore

namespace Pages

/-! ## Requests -/

/-- Parameters that a read may come to from others: the key to go on from may differ, and names
stay distinct. -/
structure GoesOn (params params' : Params) : Prop where
  nodup : (params.map Prod.fst).Nodup → (params'.map Prod.fst).Nodup
  get?_eq : ∀ field, field ≠ "ExclusiveStartKey" →
    Entries.get? field params' = Entries.get? field params

theorem GoesOn.refl (params : Params) : GoesOn params params :=
  ⟨id, fun _ _ => rfl⟩

theorem GoesOn.received {params : Params} {p : Pages} (h : GoesOn params p.params) (page : Page) :
    GoesOn params (p.received page).params := by
  cases hlast : isLast p.isLimited page.lastKey with
  | true =>
    rw [received_of_isLast hlast]
    exact h
  | false =>
    rw [received_of_not_isLast hlast]
    refine ⟨fun hp => Entries.nodup_insert (h.nodup hp), fun field hfield => ?_⟩
    rw [← h.get?_eq field hfield]
    exact Entries.get?_insert_of_ne hfield.symm _ _

/-- A fetch sends the request of the parameters, or nothing if they have none. -/
theorem sent_fetch (source : PageSource) (p : Pages) (l : Link) :
    ∃ rs, (fetch source p l).2.sent = l.sent ++ rs ∧ ∀ r ∈ rs, source.request p.params = .ok r := by
  unfold fetch
  cases hrequest : source.request p.params with
  | error e => exact ⟨[], (List.append_nil _).symm, List.forall_mem_nil _⟩
  | ok request =>
    refine ⟨[request], ?_, fun r hr => congrArg _ (List.mem_singleton.mp hr).symm⟩
    dsimp only
    unfold Link.send
    cases l.replies with
    | nil => rfl
    | cons reply replies => cases reply <;> rfl

/-- From one connection on, a read came to another and to parameters with a property, and asked by
parameters with it and no others. -/
structure Asks (source : PageSource) (good : Params → Prop) (l : Link) (p : Pages) (l' : Link) :
    Prop where
  params : good p.params
  sent : ∃ rs, l'.sent = l.sent ++ rs ∧
    ∀ r ∈ rs, ∃ params, good params ∧ source.request params = .ok r

section

variable {source : PageSource} {good : Params → Prop} {p p' : Pages} {l l' l'' : Link}

theorem Asks.refl (hp : good p.params) : Asks source good l p l :=
  ⟨hp, [], (List.append_nil _).symm, List.forall_mem_nil _⟩

theorem Asks.trans (h : Asks source good l p l') (h' : Asks source good l' p' l'') :
    Asks source good l p' l'' := by
  obtain ⟨rs, hsent, hrs⟩ := h.sent
  obtain ⟨rs', hsent', hrs'⟩ := h'.sent
  refine ⟨h'.params, rs ++ rs', ?_, fun r hr => (List.mem_append.mp hr).elim (hrs r) (hrs' r)⟩
  rw [hsent', hsent, List.append_assoc]

/-- What a fetch asks by are the parameters before it. -/
theorem Asks.fetch {outcome : Outcome Page} (h : fetch source p l = (outcome, l'))
    (hp : good p.params) (hp' : good p'.params) : Asks source good l p' l' := by
  obtain ⟨rs, hsent, hrs⟩ := sent_fetch source p l
  rw [h] at hsent
  exact ⟨hp', rs, hsent, fun r hr => ⟨p.params, hp, hrs r hr⟩⟩

variable (hgood : ∀ (p : Pages) page, good p.params → good (p.received page).params)

include hgood

theorem asks_fill (source : PageSource) (p : Pages) (l : Link) (hp : good p.params) :
    Asks source good l (fill source p l).1 (fill source p l).2 := by
  fun_induction fill source p l with
  | case1 p l => exact .refl hp
  | case2 p l hbuffer e l' hfetch => exact .fetch hfetch hp hp
  | case3 p l hbuffer page l' hfetch _ ih =>
    have hreceived := hgood p page hp
    exact (Asks.fetch hfetch hp hreceived).trans (ih hreceived)

theorem asks_fillAll (source : PageSource) (p : Pages) (l : Link) (hp : good p.params) :
    Asks source good l (fillAll source p l).1 (fillAll source p l).2 := by
  fun_induction fillAll source p l with
  | case1 p l => exact .refl hp
  | case2 p l hx e l' hfetch => exact .fetch hfetch hp hp
  | case3 p l hx page l' hfetch _ ih =>
    have hreceived := hgood p page hp
    exact (Asks.fetch hfetch hp hreceived).trans (ih hreceived)

theorem asks_pull (source : PageSource) (p : Pages) (l : Link) (hp : good p.params) :
    Asks source good l (pull source p l).2.1 (pull source p l).2.2 := by
  obtain ⟨hparams, hsent⟩ := asks_fill hgood source { p with isStarted := true } l hp
  exact ⟨hparams, hsent⟩

theorem asks_drain (source : PageSource) (p : Pages) (l : Link) (hp : good p.params) :
    Asks source good l (drain source p l).2.1 (drain source p l).2.2 := by
  obtain ⟨hparams, hsent⟩ := asks_fillAll hgood source { p with isStarted := true } l hp
  exact ⟨hparams, hsent⟩

theorem asks_pulls (source : PageSource) (n : Nat) (p : Pages) (l : Link) (hp : good p.params) :
    Asks source good l (pulls source n p l).2.1 (pulls source n p l).2.2 := by
  induction n generalizing p l with
  | zero => exact .refl hp
  | succ n ih =>
    have hpull := asks_pull hgood source p l hp
    exact hpull.trans (ih _ _ hpull.params)

end

/-- Whatever its source makes of parameters, the requests of a read are those of parameters that it
came to from its own. -/
theorem sent_pulls_of_goesOn (source : PageSource) {params : Params} (n : Nat) (p : Pages)
    (l : Link) (hp : GoesOn params p.params) :
    ∃ rs, (pulls source n p l).2.2.sent = l.sent ++ rs ∧
      ∀ r ∈ rs, ∃ params', GoesOn params params' ∧ source.request params' = .ok r :=
  (asks_pulls (fun _ page h => GoesOn.received h page) source n p l hp).sent

/-- The requests of a read are of its method and carry the parameters that it has, but for the key
to go on from. -/
theorem sent_pulls (method : ReadMethod) (table : String) (n : Nat) (p : Pages) (l : Link) :
    ∃ rs, (pulls (PageSource.direct method table) n p l).2.2.sent = l.sent ++ rs ∧
      ∀ r ∈ rs, r.operation = method.operation ∧
        ∀ field, field ≠ "ExclusiveStartKey" →
          Entries.get? field r.params = Entries.get? field p.params := by
  obtain ⟨rs, hsent, hrs⟩ := sent_pulls_of_goesOn (PageSource.direct method table) n p l
    (.refl p.params)
  refine ⟨rs, hsent, fun r hr => ?_⟩
  obtain ⟨params, hparams, hrequest⟩ := hrs r hr
  cases hrequest
  exact ⟨rfl, hparams.get?_eq⟩

/-! ## Bindings -/

/-- What is bound in the requests of a read that was changed before its first entry: what its
filters bind, or else what its expression binds, or, where that has no map of the kind, what the
options bind. -/
theorem bound?_sent {method : ReadMethod} {schema : Schema} {g : Grammar} {decimalNumbers : Bool}
    {c : Compiled} {limit : Value} {options : Params}
    (hreserved : Entries.hasAny reservedNames options = false) (hmaps : HasMaps options) :
    ∃ p, start method schema g decimalNumbers c limit options = .ok p ∧
      ∀ (cs : List Change) (table : String) (l : Link) (n : Nat),
        ∃ rs, (pulls (PageSource.direct method table) n (p.changed cs) l).2.2.sent =
            l.sent ++ rs ∧
          ∀ r ∈ rs, ∀ kind k, bound? kind (.text k) r.params =
            (Entries.get? (.text k)
              ((filters g (c.lastIndex + 1) cs).flatMap (·.bindings kind))).or
            (if c.bindings kind = [] then bound? kind (.text k) options
            else Entries.get? (.text k) (c.bindings kind)) := by
  obtain ⟨p, hp, heq, hget⟩ := start_spec method schema g decimalNumbers c limit hreserved
  have hheld : ∀ kind : BindingKind, Entries.get? kind.field p.params =
      if c.bindings kind = [] then Entries.get? kind.field options
      else some (.map (c.bindings kind)) := by
    intro kind
    rw [hget _ (by cases kind <;> decide),
      Compiled.get?_toParams_field (field_ne_expressionName method), sentMap]
    cases c.bindings kind <;> rfl
  have hmaps₀ : HasMaps p.params := by
    intro kind
    rw [hheld]
    split
    · exact hmaps kind
    · exact holdsMap_some_map _
  have hs : p.isStarted = false := by rw [heq]
  have hg : p.grammar = g := by rw [heq]
  have hnext : p.nextIndex = c.lastIndex + 1 := by rw [heq]
  refine ⟨p, hp, fun cs table l n => ?_⟩
  have hjoined := joined_changed hs (by omega) hmaps₀ cs
  rw [hg, hnext] at hjoined
  obtain ⟨rs, hsent, hrs⟩ := sent_pulls method table n (p.changed cs) l
  refine ⟨rs, hsent, fun r hr kind k => ?_⟩
  have hnodup := (filters_numbered g (Nat.le_add_left 1 c.lastIndex) cs).1
  rw [bound?, (hrs r hr).2 _ (by cases kind <;> decide), hjoined.maps_eq,
    get?_extended (Value.sole_text k) Compiled.sole_of_mem_flatMap_bindings
      (Compiled.nodup_bindings hnodup kind), hheld]
  split <;> rfl

/-- Every request of a read binds each placeholder of its expression and of each of its filters to
what that part binds it to, and each placeholder of its options to what these bind it to where the
expression brings no map of its kind and no filter has a placeholder of its name. -/
theorem bindings_sent (method : ReadMethod) (schema : Schema) (g : Grammar)
    (decimalNumbers : Bool) (c : Compiled) (limit : Value) (options : Params)
    (hkeys : ∀ kind, (c.keys kind).Nodup)
    (hreserved : Entries.hasAny reservedNames options = false) (hmaps : HasMaps options) :
    ∃ p, start method schema g decimalNumbers c limit options = .ok p ∧
      ∀ (cs : List Change) (table : String) (l : Link) (n : Nat),
        let fs := filters g (c.lastIndex + 1) cs
        ∃ rs, (pulls (PageSource.direct method table) n (p.changed cs) l).2.2.sent =
            l.sent ++ rs ∧
          ∀ r ∈ rs, ∀ kind,
            (∀ part ∈ c :: fs, ∀ b ∈ part.bindings kind,
              bound? kind b.1 r.params = some b.2) ∧
            ∀ k v, bound? kind (.text k) options = some v → c.bindings kind = [] →
              (∀ f ∈ fs, k ∉ f.keys kind) → bound? kind (.text k) r.params = some v := by
  obtain ⟨p, hp, hbound⟩ := bound?_sent hreserved hmaps
  refine ⟨p, hp, fun cs table l n => ?_⟩
  obtain ⟨rs, hsent, hrs⟩ := hbound cs table l n
  have hnodup := (filters_numbered g (Nat.le_add_left 1 c.lastIndex) cs).1
  refine ⟨rs, hsent, fun r hr kind => ⟨fun part hpart b hb => ?_, fun k v hv hc hk => ?_⟩⟩
  · obtain ⟨k, hk, hkb⟩ := Compiled.exists_key_of_mem_bindings hb
    rcases List.mem_cons.mp hpart with rfl | hpart
    · have hfilters : k ∉ (filters g (part.lastIndex + 1) cs).flatMap (·.keys kind) :=
        fun hmem => notMem_placeholders_filters part g cs k
          ((part.keys_sublist kind).subset hk)
          ((Compiled.flatMap_keys_sublist _ kind).subset hmem)
      rw [hkb, hrs r hr, Compiled.get?_flatMap_bindings_of_notMem hfilters, Option.none_or,
        if_neg (List.ne_nil_of_mem hb), ← hkb]
      refine Entries.get?_of_mem (Compiled.sole_of_mem_bindings hb) ?_ hb
      rw [Compiled.map_fst_bindings]
      exact Compiled.nodup_map_text (hkeys kind)
    · have hget := Entries.get?_of_mem (Compiled.sole_of_mem_bindings hb)
        (Compiled.nodup_bindings hnodup kind) (List.mem_flatMap.mpr ⟨part, hpart, hb⟩)
      rw [hkb, hrs r hr, ← hkb, hget]
      rfl
  · have hfilters : k ∉ (filters g (c.lastIndex + 1) cs).flatMap (·.keys kind) := by
      intro hmem
      obtain ⟨f, hf, hkf⟩ := List.mem_flatMap.mp hmem
      exact hk f hf hkf
    rw [hrs r hr, Compiled.get?_flatMap_bindings_of_notMem hfilters, Option.none_or, if_pos hc, hv]

/-- Options that bind a placeholder for a projection. -/
def aliasOptions : Params :=
  [("ExpressionAttributeNames", .record [("#p", .text "score")])]

theorem hasMaps_aliasOptions : HasMaps aliasOptions := by
  intro kind
  cases kind with
  | names => exact holdsMap_some_map _
  | values => exact holdsMap_none

/-- A projection of these options, and a filter. -/
def aliasChanges : List Change :=
  [.projection (.text "#p"), .filter (.text "b = 2")]

/-- A scan without an expression of its own sends what its options bind, and what its filter
binds. -/
theorem bindings_sent_alias :
    (∀ kind, (Compiled.keys {} kind).Nodup) ∧
      Entries.hasAny reservedNames aliasOptions = false ∧ HasMaps aliasOptions ∧
      ∃ p r, start .scan {} .inferred false {} .null aliasOptions = .ok p ∧
        (pulls (PageSource.direct .scan "t") 1 (p.changed aliasChanges) {}).2.2.sent = [r] ∧
        bound? .names (.text "#p") r.params = some (.text "score") ∧
        bound? .names (.text "#V1") r.params = some (.text "b") := by
  have hkeys : ∀ kind, (Compiled.keys {} kind).Nodup := by
    intro kind
    cases kind <;> exact List.nodup_nil
  have hreserved : Entries.hasAny reservedNames aliasOptions = false := by decide
  obtain ⟨p, hp, hsent⟩ := bindings_sent .scan {} .inferred false {} .null aliasOptions hkeys
    hreserved hasMaps_aliasOptions
  obtain ⟨rs, hrs, hbound⟩ := hsent aliasChanges "t" {} 1
  have hone : rs.length = 1 := by
    have hlength : (start .scan {} .inferred false {} .null aliasOptions).toOption.map
        (fun p => (pulls (PageSource.direct .scan "t") 1 (p.changed aliasChanges)
          {}).2.2.sent.length) = some 1 := by decide +kernel
    rw [hp] at hlength
    exact (congrArg List.length hrs).symm.trans (Option.some.inj hlength)
  obtain ⟨r, rfl⟩ := List.length_eq_one_iff.mp hone
  have hr := hbound r (List.mem_singleton.mpr rfl) .names
  have hnames : (filters .inferred 1 aliasChanges).map Compiled.names = [[("#V1", "b")]] := by
    decide +kernel
  obtain ⟨f, hf, hfnames⟩ := List.map_eq_singleton_iff.mp hnames
  refine ⟨hkeys, hreserved, hasMaps_aliasOptions, p, r, hp, hrs, ?_, ?_⟩
  · refine hr.2 "#p" (.text "score") rfl rfl fun f' hf' => ?_
    have hkeysf : f'.keys .names = ["#V1"] := by
      have hmem : f' ∈ [f] := hf ▸ hf'
      rw [List.mem_singleton.mp hmem, Compiled.keys, hfnames]
      rfl
    rw [hkeysf]
    decide
  · have hmem : f ∈ filters .inferred 1 aliasChanges := by
      rw [hf]
      exact List.mem_singleton.mpr rfl
    refine hr.1 f (List.mem_cons_of_mem _ hmem) (.text "#V1", .text "b") ?_
    rw [Compiled.bindings, hfnames]
    exact List.mem_singleton.mpr rfl

/-- A scan of `a = 1` with these options and the projection `#p` sends a request that does not
bind `#p`: the names of the expression stand in for those of the options. -/
theorem not_bindings_sent :
    ∃ c p r, Expression.compileValue .inferred 1 (.text "a = 1") = .ok c ∧
      start .scan {} .inferred false c .null aliasOptions = .ok p ∧
      (pulls (PageSource.direct .scan "t") 1 (p.changed [.projection (.text "#p")])
        {}).2.2.sent = [r] ∧
      (bound? .names (.text "#p") aliasOptions).isSome = true ∧
      (bound? .names (.text "#p") r.params).isSome = false := by
  have hrun : (Expression.compileValue .inferred 1 (.text "a = 1")).toOption.map (fun c =>
      (start .scan {} .inferred false c .null aliasOptions).toOption.map fun p =>
        (pulls (PageSource.direct .scan "t") 1 (p.changed [.projection (.text "#p")])
          {}).2.2.sent.map fun r => (bound? .names (.text "#p") r.params).isSome) =
      some (some [false]) := by decide +kernel
  obtain ⟨c, hc, hrun⟩ := Option.map_eq_some_iff.mp hrun
  obtain ⟨p, hp, hrun⟩ := Option.map_eq_some_iff.mp hrun
  obtain ⟨r, hr, hlost⟩ := List.map_eq_singleton_iff.mp hrun
  exact ⟨c, p, r, Text.eq_ok_of_toOption hc, Text.eq_ok_of_toOption hp, hr, rfl, hlost⟩

end Pages

end ItemStore
