import ItemStore.Proofs.Expression.Bindings
import ItemStore.Proofs.Pages.Stream

/-
  What a read may still be changed to before its first entry. Each filter is compiled on its own,
  with placeholders that go on from those that are there, and joined to the others. `filters` is
  the reference: the filters that a row of changes adds, computed from the changes, the grammar
  and the first free number alone.

  `Joined p fs p'` says that `p'` is `p` with the filters `fs` joined to it: in its filter, in each
  map of placeholders, and in the next number. One change joins at most one filter
  (`joined_apply`), so a row of them joins `filters` (`joined_changed`). A read that starts without
  expressions of its caller then carries the conjunction of its filters and, for each kind, the
  placeholders of all its parts one behind the other, with none in two of them
  (`filters_conjoined`).
-/

namespace ItemStore

/-- The conjunction of expressions, from the left; one alone is left as it is. -/
def conjunction : List String → Option String
  | [] => none
  | e :: es => some (es.foldl (fun joined e => "(" ++ joined ++ ") AND (" ++ e ++ ")") e)

namespace Pages

/-- A change to a read. -/
inductive Change where
  | filter (source : Value)
  | projection (value : Value)

namespace Change

/-- A change as failures tell it. -/
def name : Change → String
  | .filter _ => "add_filter"
  | .projection _ => "set_projection"

/-- A change made to a read. -/
def apply (p : Pages) : Change → Outcome Unit × Pages
  | .filter source => p.addFilter source
  | .projection value => p.setProjection value

/-- The filter that a change adds, with placeholders from a number on. -/
def filter? (g : Grammar) (next : Nat) : Change → Option Compiled
  | .filter source =>
    match Expression.compileValue g next source with
    | .ok c => if c.isEmpty then none else some c
    | .error _ => none
  | .projection _ => none

end Change

/-- The read after a row of changes. -/
def changed (p : Pages) (cs : List Change) : Pages :=
  cs.foldl (fun p change => (change.apply p).2) p

/-- The filters that a row of changes adds, each with placeholders that go on from those before
it. -/
def filters (g : Grammar) : Nat → List Change → List Compiled
  | _, [] => []
  | next, change :: cs =>
    match change.filter? g next with
    | none => filters g next cs
    | some c => c :: filters g (next + c.size) cs

/-! ## Numbers of the filters -/

/-- A filter is not empty and is numbered from where it starts. -/
theorem Change.of_filter?_eq_some {g : Grammar} {next : Nat} {change : Change} {c : Compiled}
    (hnext : 1 ≤ next) (h : change.filter? g next = some c) :
    c.isEmpty = false ∧ c.NumberedFrom next ∧
      ∃ source, change = .filter source ∧ Expression.compileValue g next source = .ok c := by
  unfold filter? at h
  split at h
  · next source =>
    split at h
    · next c' hc =>
      split at h
      · cases h
      · next hne =>
        cases h
        exact ⟨Bool.eq_false_iff.mpr hne, Expression.numberedFrom_of_compileValue hnext hc,
          source, rfl, hc⟩
    · cases h
  · cases h

/-- No placeholder occurs in two filters, and their numbers are not below the first. -/
theorem filters_numbered (g : Grammar) {next : Nat} (hnext : 1 ≤ next) (cs : List Change) :
    ((filters g next cs).flatMap Compiled.placeholders).Nodup ∧
      ∀ p ∈ (filters g next cs).flatMap Compiled.placeholders, next ≤ Compiled.indexOf p := by
  induction cs generalizing next with
  | nil => exact ⟨List.nodup_nil, nofun⟩
  | cons change cs ih =>
    rw [filters]
    split
    · exact ih hnext
    · next c hc =>
      have hn := (Change.of_filter?_eq_some hnext hc).2.1
      have hnext' : 1 ≤ next + c.size := Nat.le_trans hnext (Nat.le_add_right _ _)
      obtain ⟨hnodup, hge⟩ := ih hnext'
      rw [List.flatMap_cons]
      refine ⟨List.nodup_append.mpr ⟨hn.nodup, hnodup, ?_⟩, ?_⟩
      · -- the numbers of this filter end where those of the next begin
        intro p hp q hq hpq
        have hlt := hn.index_lt p hp
        have hle := hge q hq
        rw [← hpq] at hle
        omega
      · intro p hp
        rcases List.mem_append.mp hp with hp | hp
        · exact hn.index_ge p hp
        · exact Nat.le_trans (Nat.le_add_right _ _) (hge p hp)

/-! ## Joined filters -/

theorem conjunction_append_singleton (es : List String) (e : String) :
    conjunction (es ++ [e]) =
      some (match conjunction es with
        | some joined => "(" ++ joined ++ ") AND (" ++ e ++ ")"
        | none => e) := by
  cases es with
  | nil => rfl
  | cons e' es =>
    rw [List.cons_append, conjunction, List.foldl_append]
    rfl

/-- A conjunction of expressions that are not empty is not empty. -/
theorem conjunction_ne_empty {es : List String} (hes : ∀ e ∈ es, e ≠ "") {joined : String}
    (h : conjunction es = some joined) : joined ≠ "" := by
  rcases List.eq_nil_or_concat es with rfl | ⟨init, e, rfl⟩
  · cases h
  · rw [List.concat_eq_append] at h hes
    rw [conjunction_append_singleton] at h
    cases hinit : conjunction init with
    | none =>
      rw [hinit] at h
      cases h
      exact hes e (List.mem_append_right _ (List.mem_singleton.mpr rfl))
    | some before =>
      rw [hinit] at h
      cases h
      intro hempty
      have := congrArg String.length hempty
      simp [String.length_append] at this

/-- A filter joined to a conjunction is one more part of it. -/
theorem joinedFilter_of_conjunction {params : Params} {es : List String} (e : String)
    (hes : ∀ e ∈ es, e ≠ "")
    (h : Entries.get? "FilterExpression" params = (conjunction es).map Value.text) :
    some (joinedFilter params e) = (conjunction (es ++ [e])).map Value.text := by
  rw [conjunction_append_singleton, joinedFilter, h]
  cases hjoined : conjunction es with
  | none => rfl
  | some joined =>
    have htruthy : (Value.text joined).isTruthy = true :=
      bne_iff_ne.mpr (conjunction_ne_empty hes hjoined)
    simp only [Option.map_some, htruthy, if_true]
    rfl

/-- The next number after expressions that are numbered one behind the other. -/
def nextAfter (next : Nat) (fs : List Compiled) : Nat :=
  fs.foldl (fun next f => next + f.size) next

theorem le_nextAfter (next : Nat) (fs : List Compiled) : next ≤ nextAfter next fs := by
  induction fs generalizing next with
  | nil => exact Nat.le_refl next
  | cons f fs ih => exact Nat.le_trans (Nat.le_add_right _ _) (ih (next + f.size))

/-- A read that differs from another in filters that were joined to it, and in its projection. -/
structure Joined (p : Pages) (fs : List Compiled) (p' : Pages) : Prop where
  rest_eq : p' = { p with params := p'.params, nextIndex := p'.nextIndex }
  nextIndex_eq : p'.nextIndex = nextAfter p.nextIndex fs
  expression_ne : ∀ f ∈ fs, f.expression ≠ ""
  /-- Whatever conjunction was there, the filters are further parts of it. -/
  filter_eq : ∀ es, (∀ e ∈ es, e ≠ "") →
    Entries.get? "FilterExpression" p.params = (conjunction es).map Value.text →
    Entries.get? "FilterExpression" p'.params =
      (conjunction (es ++ fs.map Compiled.expression)).map Value.text
  maps_eq : ∀ kind : BindingKind, Entries.get? kind.field p'.params =
    extended (Entries.get? kind.field p.params) (fs.flatMap (·.bindings kind))
  other_eq : ∀ field, field ≠ "FilterExpression" → field ≠ "ProjectionExpression" →
    (∀ kind : BindingKind, kind.field ≠ field) →
    Entries.get? field p'.params = Entries.get? field p.params

namespace Joined

variable {p p' p'' : Pages} {fs gs : List Compiled}

theorem refl (p : Pages) : Joined p [] p where
  rest_eq := rfl
  nextIndex_eq := rfl
  expression_ne := nofun
  filter_eq es _ h := by rw [List.map_nil, List.append_nil, h]
  maps_eq _ := rfl
  other_eq _ _ _ _ := rfl

theorem trans (h : Joined p fs p') (h' : Joined p' gs p'') : Joined p (fs ++ gs) p'' where
  rest_eq := by
    rw [h'.rest_eq, h.rest_eq]
  nextIndex_eq := by
    rw [h'.nextIndex_eq, h.nextIndex_eq, nextAfter, nextAfter, nextAfter, List.foldl_append]
  expression_ne f hf := (List.mem_append.mp hf).elim (h.expression_ne f) (h'.expression_ne f)
  filter_eq es hes hp := by
    have hes' : ∀ e ∈ es ++ fs.map Compiled.expression, e ≠ "" := by
      intro e he
      rcases List.mem_append.mp he with he | he
      · exact hes e he
      · obtain ⟨f, hf, rfl⟩ := List.mem_map.mp he
        exact h.expression_ne f hf
    rw [List.map_append, ← List.append_assoc]
    exact h'.filter_eq _ hes' (h.filter_eq es hes hp)
  maps_eq kind := by
    rw [h'.maps_eq, h.maps_eq, List.flatMap_append, extended_append]
  other_eq field hf hp hk := by
    rw [h'.other_eq field hf hp hk, h.other_eq field hf hp hk]

theorem hasMaps (h : Joined p fs p') (hp : HasMaps p.params) : HasMaps p'.params := by
  intro kind
  rw [h.maps_eq]
  exact (hp kind).extended _

/-- A projection changes no other parameter. -/
theorem projection (p : Pages) (projection : Value) :
    Joined p [] { p with params := Entries.insert "ProjectionExpression" projection p.params } := by
  refine ⟨rfl, rfl, nofun, fun es _ h => ?_, fun kind => ?_, fun field _ hfield _ => ?_⟩
  · rw [List.map_nil, List.append_nil, ← h]
    exact Entries.get?_insert_of_ne (by decide) projection _
  · exact Entries.get?_insert_of_ne (by cases kind <;> decide) projection _
  · exact Entries.get?_insert_of_ne hfield.symm projection _

/-- A filter that is numbered from the next number on is joined. -/
theorem filter {c : Compiled} (hp : HasMaps p.params) (hempty : c.isEmpty = false)
    (hc : c.NumberedFrom p.nextIndex) :
    (p.joinFilter c).1 = .ok () ∧ Joined p [c] (p.joinFilter c).2 := by
  have hkind : ∀ kind : BindingKind, kind.field ≠ "FilterExpression" := by
    intro kind
    cases kind <;> decide
  have hget : ∀ kind : BindingKind, Entries.get? kind.field
      (Entries.insert "FilterExpression" (joinedFilter p.params c.expression) p.params) =
        Entries.get? kind.field p.params :=
    fun kind => Entries.get?_insert_of_ne (hkind kind).symm _ _
  have hmaps : HasMaps
      (Entries.insert "FilterExpression" (joinedFilter p.params c.expression) p.params) := by
    intro kind
    rw [hget]
    exact hp kind
  obtain ⟨params, hbind, hget', hother⟩ := Compiled.bindInto_spec hc.nodup hmaps
  have hjoin : p.joinFilter c =
      (.ok (), { p with params, nextIndex := max p.nextIndex (c.lastIndex + 1) }) := by
    simp only [joinFilter, hbind]
  rw [hjoin]
  refine ⟨rfl, rfl, ?_, ?_, fun es hes h => ?_, fun kind => ?_, fun field hf _ hk => ?_⟩
  · exact hc.next_eq
  · simpa using Compiled.isEmpty_eq_false_iff.mp hempty
  · rw [List.map_singleton, ← joinedFilter_of_conjunction c.expression hes h,
      hother _ hkind, Entries.get?_insert_self]
  · rw [hget', hget, List.flatMap_singleton]
  · rw [hother field hk, Entries.get?_insert_of_ne hf.symm]

end Joined

/-! ## Changes -/

variable {p : Pages}

/-- A change to a read that has not started joins the filter that it adds, if it adds one. -/
theorem joined_apply (hs : p.isStarted = false) (hnext : 1 ≤ p.nextIndex) (hp : HasMaps p.params)
    (change : Change) :
    Joined p (change.filter? p.grammar p.nextIndex).toList (change.apply p).2 := by
  have hstarted : ¬p.isStarted = true := Bool.eq_false_iff.mp hs
  cases change with
  | projection value =>
    show Joined p [] (p.setProjection value).2
    rw [setProjection, if_neg hstarted]
    exact .projection p value
  | filter source =>
    show Joined p _ (p.addFilter source).2
    rw [addFilter, if_neg hstarted]
    cases hc : Expression.compileValue p.grammar p.nextIndex source with
    | error e =>
      simp only [Change.filter?, hc]
      exact .refl p
    | ok c =>
      simp only [Change.filter?, hc]
      by_cases hempty : c.isEmpty = true
      · rw [if_pos hempty, if_pos hempty]
        exact .refl p
      · rw [if_neg hempty, if_neg hempty]
        exact (Joined.filter hp (Bool.eq_false_iff.mpr hempty)
          (Expression.numberedFrom_of_compileValue hnext hc)).2

theorem filters_cons (g : Grammar) (next : Nat) (change : Change) (cs : List Change) :
    filters g next (change :: cs) = (change.filter? g next).toList ++
      filters g (nextAfter next (change.filter? g next).toList) cs := by
  rw [filters]
  cases change.filter? g next with
  | none => rfl
  | some c => rfl

/-- A row of changes to a read that has not started joins the filters that it adds. -/
theorem joined_changed (hs : p.isStarted = false) (hnext : 1 ≤ p.nextIndex)
    (hp : HasMaps p.params) (cs : List Change) :
    Joined p (filters p.grammar p.nextIndex cs) (p.changed cs) := by
  induction cs generalizing p with
  | nil => exact .refl p
  | cons change cs ih =>
    have hstep := joined_apply hs hnext hp change
    have hstarted : (change.apply p).2.isStarted = false := by rw [hstep.rest_eq, ← hs]
    have hgrammar : (change.apply p).2.grammar = p.grammar := by rw [hstep.rest_eq]
    have hnext' : 1 ≤ (change.apply p).2.nextIndex := by
      rw [hstep.nextIndex_eq]
      exact Nat.le_trans hnext (le_nextAfter _ _)
    have hrest := ih hstarted hnext' (hstep.hasMaps hp)
    rw [hgrammar, hstep.nextIndex_eq] at hrest
    rw [filters_cons]
    exact hstep.trans hrest

/-- A change that fails leaves the read as it was. -/
theorem apply_error (hs : p.isStarted = false) (hnext : 1 ≤ p.nextIndex) (hp : HasMaps p.params)
    {change : Change} {e : Failure} (h : (change.apply p).1 = .error e) :
    (change.apply p).2 = p := by
  have hstarted : ¬p.isStarted = true := Bool.eq_false_iff.mp hs
  cases change with
  | projection value =>
    change (p.setProjection value).1 = .error e at h
    rw [setProjection, if_neg hstarted] at h
    cases h
  | filter source =>
    change (p.addFilter source).1 = .error e at h
    show (p.addFilter source).2 = p
    rw [addFilter, if_neg hstarted] at h ⊢
    cases hc : Expression.compileValue p.grammar p.nextIndex source with
    | error e => rfl
    | ok c =>
      simp only [hc] at h ⊢
      split at h
      · cases h
      · next hempty =>
        have hjoin := Joined.filter hp (Bool.eq_false_iff.mpr hempty)
          (Expression.numberedFrom_of_compileValue hnext hc)
        rw [hjoin.1] at h
        cases h

/-- A blank filter changes nothing. -/
theorem addFilter_blank (hs : p.isStarted = false) {s : String}
    (h : s.toList.all Text.isBlank = true) : p.addFilter (.text s) = (.ok (), p) := by
  have hcompile : Expression.compile p.grammar p.nextIndex s =
      .ok (Expression.Skeleton.fill p.nextIndex []) := by
    unfold Expression.compile Expression.skeleton
    rw [if_pos h]
  have hvalue : Expression.compileValue p.grammar p.nextIndex (.text s) =
      .ok (Expression.Skeleton.fill p.nextIndex []) := by
    rw [Expression.compileValue, hcompile]
  rw [addFilter, if_neg (Bool.eq_false_iff.mp hs), hvalue]
  rfl

/-! ## After the first entry -/

theorem isStarted_received (p : Pages) (page : Page) :
    (p.received page).isStarted = p.isStarted := by
  cases h : isLast p.isLimited page.lastKey with
  | true => rw [received_of_isLast h]
  | false => rw [received_of_not_isLast h]

theorem isStarted_fill (source : PageSource) (p : Pages) (l : Link) :
    (fill source p l).1.isStarted = p.isStarted := by
  fun_induction fill source p l with
  | case1 => rfl
  | case2 => rfl
  | case3 p l hne page l' hfetch hlt ih => rw [ih, isStarted_received]

theorem isStarted_pull (source : PageSource) (p : Pages) (l : Link) :
    (pull source p l).2.1.isStarted = true :=
  isStarted_fill source { p with isStarted := true } l

/-- A read that was pulled has started. -/
theorem isStarted_pulls (source : PageSource) (n : Nat) (p : Pages) (l : Link) :
    (pulls source (n + 1) p l).2.1.isStarted = true := by
  induction n generalizing p l with
  | zero => exact isStarted_pull source p l
  | succ n ih => exact ih _ _

/-- A read that has started is not changed. -/
theorem apply_of_isStarted (hs : p.isStarted = true) (change : Change) :
    change.apply p = (.error (alreadyStarted change.name), p) := by
  cases change with
  | filter source => exact if_pos hs
  | projection value => exact if_pos hs

/-! ## Reads from their start -/

/-- The parameters of a read are those of its expression, and its options behind them. -/
theorem start_spec (method : ReadMethod) (schema : Schema) (g : Grammar) (decimalNumbers : Bool)
    (c : Compiled) (limit : Value) {options : Params}
    (h : Entries.hasAny reservedNames options = false) :
    ∃ p, start method schema g decimalNumbers c limit options = .ok p ∧
      p = { method, schema, grammar := g, decimalNumbers, params := p.params,
            nextIndex := c.lastIndex + 1 } ∧
      ∀ field, field ≠ "Limit" → Entries.get? field p.params =
        (Entries.get? field (c.toParams method.expressionName)).or
          (Entries.get? field options) := by
  unfold start
  rw [h]
  refine ⟨_, rfl, rfl, fun field hfield => ?_⟩
  have hlimit : ∀ (isNull : Bool) (params : Params), Entries.get? field
      (if isNull then params else Entries.insert "Limit" limit params) =
        Entries.get? field params := by
    intro isNull params
    cases isNull with
    | true => rfl
    | false => exact Entries.get?_insert_of_ne hfield.symm limit params
  rw [← Entries.get?_merge_of_nodup (c.nodup_toParams method.expressionName) field options]
  exact hlimit _ _

theorem field_ne_expressionName (method : ReadMethod) (kind : BindingKind) :
    kind.field ≠ method.expressionName := by
  cases kind <;> cases method <;> decide

theorem expressionName_inj {method m : ReadMethod} :
    method.expressionName = m.expressionName ↔ method = m := by
  cases method <;> cases m <;> decide

/-- The expressions that a read starts with under the name of a method: its own, if it is of that
method, or none. -/
def ownExpression (method m : ReadMethod) (c : Compiled) : List String :=
  if method = m ∧ c.isEmpty = false then [c.expression] else []

theorem ne_empty_of_mem_ownExpression {method m : ReadMethod} {c : Compiled} :
    ∀ e ∈ ownExpression method m c, e ≠ "" := by
  intro e he
  unfold ownExpression at he
  split at he
  · next h =>
    rw [List.mem_singleton.mp he]
    exact Compiled.isEmpty_eq_false_iff.mp h.2
  · cases he

/-- The parameters that carry expressions and their placeholders. -/
def expressionFields : List String :=
  ["KeyConditionExpression", "FilterExpression", "ExpressionAttributeNames",
    "ExpressionAttributeValues"]

/-- A read without expressions or placeholders among its options starts with those of what it was
compiled from. -/
theorem start_spec_of_free (method : ReadMethod) (schema : Schema) (g : Grammar)
    (decimalNumbers : Bool) (c : Compiled) (limit : Value) {options : Params}
    (h : Entries.hasAny reservedNames options = false)
    (hfree : Entries.hasAny expressionFields options = false) :
    ∃ p, start method schema g decimalNumbers c limit options = .ok p ∧
      p = { method, schema, grammar := g, decimalNumbers, params := p.params,
            nextIndex := c.lastIndex + 1 } ∧
      (∀ m : ReadMethod, Entries.get? m.expressionName p.params =
        (conjunction (ownExpression method m c)).map Value.text) ∧
      ∀ kind : BindingKind, Entries.get? kind.field p.params = sentMap (c.bindings kind) := by
  obtain ⟨p, hp, heq, hget⟩ := start_spec method schema g decimalNumbers c limit h
  have hoption : ∀ field ∈ expressionFields, Entries.get? field options = none :=
    fun field => Entries.get?_of_hasAny_eq_false hfree
  refine ⟨p, hp, heq, fun m => ?_, fun kind => ?_⟩
  · rw [hget _ (by cases m <;> decide), hoption _ (by cases m <;> decide), Option.or_none]
    by_cases hm : method = m
    · rw [← hm, Compiled.get?_toParams_name (field_ne_expressionName method), ownExpression]
      cases c.isEmpty <;> simp [conjunction]
    · rw [Compiled.get?_toParams_other (mt expressionName_inj.mp hm) (field_ne_expressionName m),
        ownExpression, if_neg fun h => hm h.1]
      rfl
  · rw [hget _ (by cases kind <;> decide), hoption _ (by cases kind <;> decide), Option.or_none,
      Compiled.get?_toParams_field (field_ne_expressionName method)]

/-- A placeholder of an expression is not one of filters that go on from it. -/
theorem notMem_placeholders_filters (c : Compiled) (g : Grammar) (cs : List Change) :
    ∀ p ∈ c.placeholders,
      p ∉ (filters g (c.lastIndex + 1) cs).flatMap Compiled.placeholders := by
  intro p hp hmem
  have hle := Expression.Skeleton.lastIndex_le_iff.mp (Nat.le_refl c.lastIndex) p hp
  have hge := (filters_numbered g (Nat.le_add_left 1 c.lastIndex) cs).2 p hmem
  omega

/-- The placeholders of an expression and of filters that go on from it are distinct. -/
theorem nodup_placeholders_filters {c : Compiled} (hc : c.placeholders.Nodup) (g : Grammar)
    (cs : List Change) :
    ((c :: filters g (c.lastIndex + 1) cs).flatMap Compiled.placeholders).Nodup := by
  rw [List.flatMap_cons]
  refine List.nodup_append.mpr ⟨hc, (filters_numbered g (Nat.le_add_left 1 _) cs).1, ?_⟩
  rintro p hp q hq rfl
  exact notMem_placeholders_filters c g cs p hp hq

/-- Filters joined to a read before its first entry. Its filter is the conjunction of its own and
of the others in the order in which they were added, its key condition is as it was, and for each
kind it carries the placeholders of all parts, none of which occurs in two, each bound as in its
part. Changes that fail, blank filters, and changes after the first entry leave the read exactly as
it was. -/
theorem filters_conjoined (method : ReadMethod) (schema : Schema) (g g₀ : Grammar)
    (decimalNumbers : Bool) (start₀ : Int) (source₀ limit : Value) (options : Params)
    {c : Compiled} (hc : Expression.compileValue g₀ start₀ source₀ = .ok c)
    (hreserved : Entries.hasAny reservedNames options = false)
    (hfree : Entries.hasAny expressionFields options = false) :
    ∃ p, start method schema g decimalNumbers c limit options = .ok p ∧ ∀ cs,
      let fs := filters g (c.lastIndex + 1) cs
      let p' := p.changed cs
      Entries.get? "FilterExpression" p'.params =
          (conjunction (ownExpression method .scan c ++ fs.map Compiled.expression)).map
            Value.text ∧
        Entries.get? "KeyConditionExpression" p'.params =
          (conjunction (ownExpression method .query c)).map Value.text ∧
        (∀ kind : BindingKind, Entries.get? kind.field p'.params =
          sentMap ((c :: fs).flatMap (·.bindings kind))) ∧
        ((c :: fs).flatMap Compiled.placeholders).Nodup ∧
        (∀ part ∈ c :: fs, ∀ kind, ∀ b ∈ part.bindings kind,
          bound? kind b.1 p'.params = some b.2) ∧
        (∀ (change : Change) (e : Failure), (change.apply p').1 = .error e →
          (change.apply p').2 = p') ∧
        (∀ s : String, s.toList.all Text.isBlank = true →
          p'.addFilter (.text s) = (.ok (), p')) ∧
        ∀ (source : PageSource) (l : Link) (n : Nat) (change : Change),
          let q := (pulls source (n + 1) p' l).2.1
          change.apply q = (.error (alreadyStarted change.name), q) := by
  obtain ⟨p, hp, heq, hexpression, hmaps⟩ :=
    start_spec_of_free method schema g decimalNumbers c limit hreserved hfree
  refine ⟨p, hp, fun cs => ?_⟩
  have hs : p.isStarted = false := by rw [heq]
  have hg : p.grammar = g := by rw [heq]
  have hnext : p.nextIndex = c.lastIndex + 1 := by rw [heq]
  have hhas : HasMaps p.params := by
    intro kind
    rw [hmaps]
    exact holdsMap_sentMap _
  have hjoined := joined_changed hs (by omega) hhas cs
  rw [hg, hnext] at hjoined
  have hs' : (p.changed cs).isStarted = false := by rw [hjoined.rest_eq, ← hs]
  have hnext' : 1 ≤ (p.changed cs).nextIndex := by
    rw [hjoined.nextIndex_eq, hnext]
    exact Nat.le_trans (Nat.le_add_left 1 _) (le_nextAfter _ _)
  have hnodup := nodup_placeholders_filters (Expression.nodup_of_compileValue hc) g cs
  have hmaps' : ∀ kind : BindingKind, Entries.get? kind.field (p.changed cs).params =
      sentMap ((c :: filters g (c.lastIndex + 1) cs).flatMap (·.bindings kind)) := by
    intro kind
    rw [hjoined.maps_eq, hmaps, List.flatMap_cons]
    exact extended_sentMap Compiled.sole_of_mem_flatMap_bindings
      (Compiled.nodup_bindings hnodup kind)
  refine ⟨?_, ?_, hmaps', hnodup, ?_, ?_, ?_, ?_⟩
  · exact hjoined.filter_eq _ ne_empty_of_mem_ownExpression (hexpression .scan)
  · have hother := hjoined.other_eq "KeyConditionExpression" (by decide) (by decide)
      (field_ne_expressionName .query)
    rw [hother]
    exact hexpression .query
  · intro part hpart kind b hb
    rw [bound?, hmaps', heldEntries_sentMap]
    exact Entries.get?_of_mem (Compiled.sole_of_mem_bindings hb)
      (Compiled.nodup_bindings hnodup kind) (List.mem_flatMap.mpr ⟨part, hpart, hb⟩)
  · exact fun change e => apply_error hs' hnext' (hjoined.hasMaps hhas)
  · exact fun s => addFilter_blank hs'
  · exact fun source l n change => apply_of_isStarted (isStarted_pulls source n _ l) change

/-- Changes of every kind: a filter that is joined, a blank one, one that does not compile, a
projection, and a further filter. -/
def mixedChanges : List Change :=
  [.filter (.text "$(b) = N(2)"), .filter (.text " "), .filter (.text "N("),
    .projection (.text "b"), .filter (.text "$(c) = BOOL(true)")]

/-- A scan with a filter of its own and these changes. -/
theorem filters_conjoined_scan :
    ∃ c, Expression.compileValue .inferred 1 (.text "a = 1") = .ok c ∧
      Entries.hasAny reservedNames [("IndexName", Value.text "i")] = false ∧
      Entries.hasAny expressionFields [("IndexName", Value.text "i")] = false ∧
      ∃ p, start .scan {} .tagged false c .null [("IndexName", .text "i")] = .ok p ∧
        Entries.get? "FilterExpression" (p.changed mixedChanges).params =
          some (.text "((#V1 = :V2) AND (#V3 = :V4)) AND (#V5 = :V6)") := by
  have hparts : (Expression.compileValue .inferred 1 (.text "a = 1")).toOption.map (fun c =>
      conjunction (ownExpression .scan .scan c ++
        (filters .tagged (c.lastIndex + 1) mixedChanges).map Compiled.expression)) =
      some (some "((#V1 = :V2) AND (#V3 = :V4)) AND (#V5 = :V6)") := by decide +kernel
  cases hc : Expression.compileValue .inferred 1 (.text "a = 1") with
  | error e =>
    rw [hc] at hparts
    cases hparts
  | ok c =>
    have hreserved : Entries.hasAny reservedNames [("IndexName", Value.text "i")] = false := by
      decide
    have hfree : Entries.hasAny expressionFields [("IndexName", Value.text "i")] = false := by
      decide
    obtain ⟨p, hp, hjoined⟩ := filters_conjoined .scan {} .tagged .inferred false 1
      (.text "a = 1") .null [("IndexName", .text "i")] hc hreserved hfree
    have hconjunction : conjunction (ownExpression .scan .scan c ++
        (filters .tagged (c.lastIndex + 1) mixedChanges).map Compiled.expression) =
        some "((#V1 = :V2) AND (#V3 = :V4)) AND (#V5 = :V6)" := by
      rw [hc] at hparts
      exact Option.some.inj hparts
    have hfilter := (hjoined mixedChanges).1
    rw [hconjunction] at hfilter
    exact ⟨c, rfl, hreserved, hfree, p, hp, hfilter⟩

end Pages

end ItemStore
