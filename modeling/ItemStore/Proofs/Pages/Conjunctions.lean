import ItemStore.Proofs.Expression.Enclosed
import ItemStore.Proofs.Pages.Requests
import ItemStore.Table.Reads

/-
  Filters in one source or in two. A scan with a filter to which another is joined sends what one
  scan with both sends, each in parentheses and joined by AND: the same filter expression and the
  same placeholders with the same meaning (`scan_conjoined`). In the two-step scan the filters are
  compiled apart and their expressions and maps are joined; in the other the sources are joined and
  compiled together. That compiling takes one to the other is `compile_conjoined`; what is shown
  here is that a scan carries in every request what it was compiled from (`Carries`).
-/

namespace ItemStore

/-- Parameters that carry an expression as their filter, with its placeholders. -/
structure Carries (c : Compiled) (params : Params) : Prop where
  filter_eq : Entries.get? "FilterExpression" params = some (.text c.expression)
  maps_eq : ∀ kind : BindingKind, Entries.get? kind.field params = sentMap (c.bindings kind)

/-- Parameters carry what others do that agree with them on the filter and the placeholders. -/
theorem Carries.of_get?_eq {c : Compiled} {params params' : Params} (h : Carries c params)
    (hget : ∀ field ∈ Pages.expressionFields, Entries.get? field params' =
      Entries.get? field params) : Carries c params' := by
  refine ⟨?_, fun kind => ?_⟩
  · rw [hget _ (by decide), h.filter_eq]
  · rw [hget _ (by cases kind <;> decide), h.maps_eq]

namespace Gateway

/-- A request carries its options, but for the table's name and the resource. -/
theorem get?_of_request {g : Gateway} {operation : Operation} {options : Params} {r : Request}
    (h : g.request operation options = .ok r) (hnodup : (options.map Prod.fst).Nodup)
    {field : String} (htable : field ≠ "TableName") (hresource : field ≠ resourceOption) :
    Entries.get? field r.params = Entries.get? field options := by
  unfold request at h
  split at h
  · cases h
  · cases h
    have hname : Entries.get? field [("TableName", Value.text g.tableName)] = none := by
      rw [Entries.get?, if_neg (mt beq_iff_eq.mp htable.symm)]
      rfl
    show Entries.get? field (Entries.merge _ (Entries.erase resourceOption options)) = _
    rw [Entries.get?_merge_of_nodup (Entries.nodup_erase hnodup), hname, Option.or_none,
      Entries.get?_erase_of_ne hresource.symm]

end Gateway

namespace Pages

/-- Every request of a read of a table carries what the read carries. -/
theorem carries_of_sent {g : Gateway} {method : ReadMethod} {c : Compiled} {p : Pages}
    (hc : Carries c p.params) (hnodup : (p.params.map Prod.fst).Nodup) (n : Nat) (l : Link) :
    ∃ rs, (pulls (g.pageSource method) n p l).2.2.sent = l.sent ++ rs ∧
      ∀ r ∈ rs, Carries c r.params := by
  obtain ⟨rs, hsent, hrs⟩ := sent_pulls_of_goesOn (g.pageSource method) n p l (.refl p.params)
  refine ⟨rs, hsent, fun r hr => ?_⟩
  obtain ⟨params, hgoesOn, hrequest⟩ := hrs r hr
  refine hc.of_get?_eq fun field hfield => ?_
  have hnames : field ≠ "TableName" ∧ field ≠ Gateway.resourceOption ∧
      field ≠ "ExclusiveStartKey" := by
    revert field
    decide
  rw [Gateway.get?_of_request hrequest (hgoesOn.nodup hnodup) hnames.1 hnames.2.1,
    hgoesOn.get?_eq field hnames.2.2]

/-- A read of options with distinct names has parameters with distinct names. -/
theorem nodup_start {method : ReadMethod} {schema : Schema} {g : Grammar} {decimalNumbers : Bool}
    {c : Compiled} {limit : Value} {options : Params} {p : Pages}
    (h : start method schema g decimalNumbers c limit options = .ok p)
    (hnodup : (options.map Prod.fst).Nodup) : (p.params.map Prod.fst).Nodup := by
  unfold start at h
  split at h
  · cases h
  · cases h
    have hmerge : ((Entries.merge options (c.toParams method.expressionName)).map
        Prod.fst).Nodup := Entries.nodup_merge hnodup
    dsimp only
    split
    · exact hmerge
    · exact Entries.nodup_insert hmerge

/-- Binding placeholders keeps names distinct. -/
theorem nodup_bindUnder {name : String} {bindings : List (Value × Value)} {params params' : Params}
    (h : Compiled.bindUnder name bindings params = .ok params')
    (hnodup : (params.map Prod.fst).Nodup) : (params'.map Prod.fst).Nodup := by
  unfold Compiled.bindUnder at h
  split at h
  · cases h
    exact hnodup
  · split at h
    · cases h
      exact Entries.nodup_insert hnodup
    · cases h
      exact Entries.nodup_insert hnodup
    · cases h

theorem nodup_bindInto (c : Compiled) {params : Params} (hnodup : (params.map Prod.fst).Nodup) :
    ((c.bindInto params).2.map Prod.fst).Nodup := by
  unfold Compiled.bindInto
  dsimp only
  split
  · exact hnodup
  · next names hnames =>
    split
    · exact nodup_bindUnder hnames hnodup
    · next values hvalues => exact nodup_bindUnder hvalues (nodup_bindUnder hnames hnodup)

/-- Joining a filter keeps names distinct. -/
theorem nodup_addFilter {p : Pages} (hnodup : (p.params.map Prod.fst).Nodup) (source : Value) :
    ((p.addFilter source).2.params.map Prod.fst).Nodup := by
  unfold addFilter
  split
  · exact hnodup
  · split
    · exact hnodup
    · next c _ =>
      split
      · exact hnodup
      · exact nodup_bindInto c (Entries.nodup_insert hnodup)

/-- A read without expressions of its own that starts from one that is not empty carries it. -/
theorem carries_of_fields {c : Compiled} {p : Pages} (hempty : c.isEmpty = false)
    (hfilter : ∀ m : ReadMethod, Entries.get? m.expressionName p.params =
      (conjunction (ownExpression .scan m c)).map Value.text)
    (hmaps : ∀ kind : BindingKind, Entries.get? kind.field p.params = sentMap (c.bindings kind)) :
    Carries c p.params := by
  refine ⟨?_, hmaps⟩
  have hscan := hfilter .scan
  rw [ownExpression, if_pos ⟨rfl, hempty⟩] at hscan
  exact hscan

/-- A read that carries an expression carries its conjunction with a filter that is joined. -/
theorem Carries.joined {c d : Compiled} {p p' : Pages} (h : Carries c p.params)
    (hempty : c.isEmpty = false) (hjoined : Joined p [d] p')
    (hnodup : (c.conjoined d).placeholders.Nodup) : Carries (c.conjoined d) p'.params := by
  have hne : ∀ e ∈ [c.expression], e ≠ "" := by
    intro e he
    rw [List.mem_singleton.mp he]
    exact Compiled.isEmpty_eq_false_iff.mp hempty
  refine ⟨hjoined.filter_eq [c.expression] hne h.filter_eq, fun kind => ?_⟩
  have hbindings : (c.conjoined d).bindings kind = c.bindings kind ++ d.bindings kind := by
    cases kind <;> exact List.map_append
  have hsole : ∀ b ∈ d.bindings kind, Entries.Sole b.1 := fun _ => Compiled.sole_of_mem_bindings
  have hkeys : ((c.bindings kind ++ d.bindings kind).map Prod.fst).Nodup := by
    rw [← hbindings, Compiled.map_fst_bindings]
    exact Compiled.nodup_map_text (hnodup.sublist ((c.conjoined d).keys_sublist kind))
  rw [hjoined.maps_eq, h.maps_eq, List.flatMap_singleton, hbindings]
  exact extended_sentMap hsole hkeys

end Pages

namespace Table

/-- A scan without expressions among its options carries what it is compiled from. -/
theorem scan_spec (t : Table) {source : Value} {c : Compiled}
    (hc : t.compile source 1 = .ok c) (hempty : c.isEmpty = false) (projection limit : Value)
    {options : Params} (hnodup : (options.map Prod.fst).Nodup)
    (hreserved : Entries.hasAny Pages.reservedNames options = false)
    (hfree : Entries.hasAny Pages.expressionFields options = false) :
    ∃ p, t.scan source projection limit options = .ok p ∧ p.grammar = t.grammar ∧
      p.isStarted = false ∧ p.nextIndex = c.lastIndex + 1 ∧
      (p.params.map Prod.fst).Nodup ∧ Carries c p.params := by
  obtain ⟨p, hp, heq, hfilter, hmaps⟩ := Pages.start_spec_of_free .scan t.schema t.grammar
    t.decimalNumbers c limit hreserved hfree
  have hparams := Pages.nodup_start hp hnodup
  have hcarries := Pages.carries_of_fields hempty hfilter hmaps
  have hself : Entries.hasAny ["self", "method"] options = false :=
    Entries.hasAny_of_subset (by decide) hreserved
  have hread : t.scan source projection limit options =
      .ok (if projection.isTruthy then
        { p with params := Entries.insert "ProjectionExpression" projection p.params } else p) := by
    unfold scan read
    rw [hself, if_neg Bool.false_ne_true, hc]
    show (Pages.start .scan t.schema t.grammar t.decimalNumbers c limit options).bind _ = _
    rw [hp]
    cases projection.isTruthy <;> rfl
  refine ⟨_, hread, ?_⟩
  by_cases hprojection : projection.isTruthy = true
  · rw [if_pos hprojection]
    refine ⟨by rw [heq], by rw [heq], by rw [heq], Entries.nodup_insert hparams,
      hcarries.of_get?_eq fun field hfield => ?_⟩
    refine Entries.get?_insert_of_ne ?_ projection p.params
    rintro rfl
    exact absurd hfield (by decide)
  · rw [if_neg hprojection]
    exact ⟨by rw [heq], by rw [heq], by rw [heq], hparams, hcarries⟩

theorem compileValue_text {g : Grammar} {start : Int} {s : String} {c : Compiled}
    (h : Expression.compile g start s = .ok c) :
    Expression.compileValue g start (.text s) = .ok c := by
  rw [Expression.compileValue, h]

/-- A read that carries the first expression, to which the second source is joined as a filter,
carries the conjunction. -/
theorem carries_addFilter {p : Pages} {a b : String} {c d : Compiled}
    (hgrammar : p.grammar = .inferred) (hs : p.isStarted = false)
    (hnext : p.nextIndex = c.lastIndex + 1) (hp : Carries c p.params)
    (ha : Expression.compile .inferred 1 a = .ok c)
    (hb : Expression.compile .inferred (1 + c.size) b = .ok d)
    (hempty : c.isEmpty = false) (hempty' : d.isEmpty = false)
    (hnodup : (c.conjoined d).placeholders.Nodup) :
    (p.addFilter (.text b)).1 = .ok () ∧
      Carries (c.conjoined d) (p.addFilter (.text b)).2.params := by
  have hnumbered : c.NumberedFrom 1 :=
    Expression.numberedFrom_of_compileValue (Nat.le_refl 1) (compileValue_text ha)
  have hindex : p.nextIndex = 1 + c.size := by
    have := hnumbered.next_eq
    omega
  have hvalue : Expression.compileValue p.grammar p.nextIndex (.text b) = .ok d := by
    rw [hgrammar, hindex]
    exact compileValue_text hb
  have hjoin : p.addFilter (.text b) = p.joinFilter d := by
    rw [Pages.addFilter, if_neg (Bool.eq_false_iff.mp hs), hvalue]
    exact if_neg (Bool.eq_false_iff.mp hempty')
  have hmaps : HasMaps p.params := by
    intro kind
    rw [hp.maps_eq]
    exact holdsMap_sentMap _
  obtain ⟨hok, hjoined⟩ := Pages.Joined.filter hmaps hempty'
    (Expression.numberedFrom_of_compileValue (hindex ▸ Nat.le_add_right 1 c.size) hvalue)
  rw [hjoin]
  exact ⟨hok, Pages.Carries.joined hp hempty hjoined hnodup⟩

/-- A scan with one source and another joined to it sends what a scan with both in one source sends:
the same filter expression and the same placeholders. For this the two sources have to read the
same between parentheses, which is all that compiling them apart or together asks; a source that is
blank is no filter on its own, but it compiles to one in parentheses. -/
theorem scan_conjoined {a b : String} (ha : Expression.Enclosable a)
    (hb : Expression.Enclosable b) (ha' : (Expression.compile .inferred 1 a).isOk = true)
    (hb' : (Expression.compile .inferred 1 b).isOk = true) :
    (∀ start : Int, ∃ c d, Expression.compile .inferred start a = .ok c ∧
        Expression.compile .inferred (start + c.size) b = .ok d ∧
        Expression.compile .inferred start (conjoined a b) = .ok (c.conjoined d) ∧
        (c.conjoined d).placeholders.Nodup) ∧
      (a.toList.all Text.isBlank = false → b.toList.all Text.isBlank = false →
        ∀ (t : Table) (projection limit : Value) (options : Params),
          t.grammar = .inferred → (options.map Prod.fst).Nodup →
          Entries.hasAny Pages.reservedNames options = false →
          Entries.hasAny Pages.expressionFields options = false →
          ∃ p q e, t.scan (.text a) projection limit options = .ok p ∧
            t.scan (.text (conjoined a b)) projection limit options = .ok q ∧
            Expression.compile .inferred 1 (conjoined a b) = .ok e ∧
            (p.addFilter (.text b)).1 = .ok () ∧
            ∀ read ∈ [(p.addFilter (.text b)).2, q], Carries e read.params ∧
              ∀ (n : Nat) (l : Link), ∃ rs,
                (Pages.pulls (t.gateway.pageSource .scan) n read l).2.2.sent = l.sent ++ rs ∧
                  ∀ r ∈ rs, Carries e r.params) := by
  have hcompile := Expression.compile_conjoined ha hb ha' hb'
  refine ⟨hcompile, fun hblank hblank' t projection limit options hgrammar hnodup hreserved hfree =>
    ?_⟩
  obtain ⟨c, d, hc, hd, he, hplaceholders⟩ := hcompile 1
  have hempty := (Expression.isEmpty_of_compile hc).trans hblank
  have hempty' := (Expression.isEmpty_of_compile hd).trans hblank'
  have hempty'' : (c.conjoined d).isEmpty = false :=
    Compiled.isEmpty_eq_false_iff.mpr (conjoined_ne_empty _ _)
  have ht : ∀ {s : String} {e : Compiled}, Expression.compile .inferred 1 s = .ok e →
      t.compile (.text s) 1 = .ok e := by
    intro s e hs
    rw [Table.compile, hgrammar]
    exact compileValue_text hs
  obtain ⟨p, hp, hpg, hps, hpi, hpn, hpc⟩ := t.scan_spec (ht hc) hempty projection limit hnodup
    hreserved hfree
  obtain ⟨q, hq, -, -, -, hqn, hqc⟩ := t.scan_spec (ht he) hempty'' projection limit hnodup
    hreserved hfree
  obtain ⟨hok, hcarries⟩ := carries_addFilter (hpg.trans hgrammar) hps hpi hpc hc hd hempty hempty'
    hplaceholders
  refine ⟨p, q, c.conjoined d, hp, hq, he, hok, fun read hread => ?_⟩
  rcases List.mem_cons.mp hread with rfl | hread
  · exact ⟨hcarries, Pages.carries_of_sent hcarries (Pages.nodup_addFilter hpn _)⟩
  · rw [List.mem_singleton.mp hread]
    exact ⟨hqc, Pages.carries_of_sent hqc hqn⟩

def ordersTable : Table :=
  { gateway := ⟨default, "orders"⟩ }

/-- A filter with an angle bracket at its end. -/
def openFilter : String :=
  "a BETWEEN 1 AND 5 AND b <"

/-- A filter with a closing bracket in a text. -/
def choiceFilter : String :=
  "c = '>' OR d IN (2)"

/-- A scan that is limited and projected. The bracket of the first filter is not closed in the
second one. -/
theorem scan_conjoined_brackets :
    Expression.Enclosable openFilter ∧ Expression.Enclosable choiceFilter ∧
      ∃ p q e, ordersTable.scan (.text openFilter) (.text "a") (.int 2) [] = .ok p ∧
        ordersTable.scan (.text (conjoined openFilter choiceFilter)) (.text "a") (.int 2) [] =
          .ok q ∧
        e = "(#V1 BETWEEN :V2 AND :V3 AND #V4 <) AND (#V5 = :V6 OR #V7 IN (:V8))" ∧
        Entries.get? "FilterExpression" q.params = some (.text e) ∧
        Entries.get? "FilterExpression" (p.addFilter (.text choiceFilter)).2.params =
          some (.text e) := by
  have ha : Expression.Enclosable openFilter := by decide +kernel
  have hb : Expression.Enclosable choiceFilter := by decide +kernel
  obtain ⟨p, q, e, hp, hq, he, -, hreads⟩ := (scan_conjoined ha hb (by decide +kernel)
    (by decide +kernel)).2 (by decide +kernel) (by decide +kernel) ordersTable (.text "a") (.int 2)
    [] rfl List.nodup_nil rfl rfl
  have hexpression : (Expression.compile .inferred 1
      (conjoined openFilter choiceFilter)).toOption.map Compiled.expression =
      some "(#V1 BETWEEN :V2 AND :V3 AND #V4 <) AND (#V5 = :V6 OR #V7 IN (:V8))" := by
    decide +kernel
  rw [he] at hexpression
  rw [List.forall_mem_cons, List.forall_mem_cons] at hreads
  exact ⟨ha, hb, p, q, e.expression, hp, hq, Option.some.inj hexpression,
    hreads.2.1.1.filter_eq, hreads.1.1.filter_eq⟩

end Table

end ItemStore
