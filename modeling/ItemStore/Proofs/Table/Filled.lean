import ItemStore.Proofs.Pages.Requests
import ItemStore.Proofs.Table.Counted
import ItemStore.Proofs.Table.Keyed
import ItemStore.Proofs.Table.Recovered

/-
  Requests without empty expressions. The service refuses an expression that is there and empty, and
  an empty map of placeholders, so what says nothing has to be left out.

  Whether a source says anything can be told before it is compiled: it compiles to no text exactly
  if it is blank (`Expression.isEmpty_of_compile`). What is compiled then gets into parameters in
  three ways: as an expression of its own, as a filter joined to what is there, and as bindings
  behind those that are there. Each of them keeps parameters `Filled`, and so does the key that a
  read goes on from. By induction on what the caller does with a read, and on the pages of a count,
  all requests of an operation are filled (`requests_filled`).

  The condition of an update is the exception. Whether there is one is asked of its source and not
  of what that compiles to, so a condition of white space is sent, and it is empty
  (`not_requests_filled`).
-/

namespace ItemStore

/-! ## Parameters that say something -/

/-- The parameters that carry the text of an expression. -/
def expressionParams : List String :=
  ["KeyConditionExpression", "FilterExpression", "UpdateExpression", "ConditionExpression"]

/-- A parameter that is no empty expression and no empty map of placeholders. -/
structure FilledEntry (name : String) (v : Value) : Prop where
  expression : name ∈ expressionParams → ∃ s, v = .text s ∧ s ≠ ""
  bindings : ∀ kind : BindingKind, kind.field = name → ∃ es, v = .map es ∧ es ≠ []

/-- Parameters none of which is an empty expression or an empty map of placeholders. -/
def Filled (params : Params) : Prop :=
  ∀ e ∈ params, FilledEntry e.1 e.2

namespace FilledEntry

theorem text {name s : String} (hname : name ∈ expressionParams) (hs : s ≠ "") :
    FilledEntry name (.text s) := by
  refine ⟨fun _ => ⟨s, rfl, hs⟩, ?_⟩
  rintro kind rfl
  exact absurd hname (by cases kind <;> decide)

theorem map (kind : BindingKind) {es : List (Value × Value)} (hes : es ≠ []) :
    FilledEntry kind.field (.map es) :=
  ⟨fun hname => absurd hname (by cases kind <;> decide), fun _ _ => ⟨es, rfl, hes⟩⟩

/-- A parameter that carries neither. -/
theorem other {name : String} (v : Value)
    (hname : name ∉ expressionParams ++ [BindingKind.names, .values].map BindingKind.field) :
    FilledEntry name v := by
  refine ⟨fun h => absurd (List.mem_append_left _ h) hname, ?_⟩
  rintro kind rfl
  exact absurd (List.mem_append_right _ (List.mem_map_of_mem (by cases kind <;> decide))) hname

end FilledEntry

theorem filled_nil : Filled [] :=
  List.forall_mem_nil _

namespace Filled

variable {params options : Params} {name : String} {v : Value}

theorem insert (hv : FilledEntry name v) (h : Filled params) :
    Filled (Entries.insert name v params) := by
  induction params with
  | nil => exact List.forall_mem_singleton.mpr hv
  | cons e params ih =>
    rw [Filled, List.forall_mem_cons] at h
    rw [Entries.insert]
    split
    · next he => exact List.forall_mem_cons.mpr ⟨eq_of_beq he ▸ hv, h.2⟩
    · exact List.forall_mem_cons.mpr ⟨h.1, ih h.2⟩

theorem cons_other (h : Filled params) (v : Value)
    (hname : name ∉ expressionParams ++ [BindingKind.names, .values].map BindingKind.field) :
    Filled ((name, v) :: params) :=
  List.forall_mem_cons.mpr ⟨.other v hname, h⟩

theorem merge (h : Filled params) (hoptions : Filled options) :
    Filled (Entries.merge params options) := by
  induction options generalizing params with
  | nil => exact h
  | cons e options ih =>
    rw [Filled, List.forall_mem_cons] at hoptions
    exact ih (h.insert hoptions.1) hoptions.2

theorem erase (h : Filled params) (name : String) : Filled (Entries.erase name params) :=
  fun e he => h e ((Entries.erase_sublist name params).subset he)

theorem request {g : Gateway} {operation : Operation} {r : Request} (h : Filled options)
    (hr : g.request operation options = .ok r) : Filled r.params := by
  unfold Gateway.request at hr
  split at hr
  · cases hr
  · cases hr
    exact (filled_nil.cons_other _ (by decide)).merge (h.erase _)

end Filled

namespace Compiled

/-- An expression of its own leaves out what it has none of. -/
theorem filled_toParams (c : Compiled) {name : String} (hname : name ∈ expressionParams) :
    Filled (c.toParams name) := by
  have hmap : ∀ (kind : BindingKind) {params : Params}, Filled params →
      Filled (if (c.bindings kind).isEmpty then params
        else Entries.insert kind.field (.map (c.bindings kind)) params) := by
    intro kind params h
    split
    · exact h
    · next hne => exact h.insert (.map kind fun hnil => hne (List.isEmpty_iff.mpr hnil))
  rw [toParams_eq]
  refine hmap .values (hmap .names ?_)
  cases hempty : c.isEmpty with
  | true => exact filled_nil
  | false => exact List.forall_mem_singleton.mpr (.text hname (isEmpty_eq_false_iff.mp hempty))

theorem filled_bindUnder (kind : BindingKind) {bs : List (Value × Value)}
    {params params' : Params} (h : Filled params)
    (hbind : bindUnder kind.field bs params = .ok params') : Filled params' := by
  unfold bindUnder at hbind
  split at hbind
  · cases hbind
    exact h
  · next hne =>
    have hbs : bs ≠ [] := fun hnil => hne (List.isEmpty_iff.mpr hnil)
    split at hbind
    · cases hbind
      exact h.insert (.map kind hbs)
    · cases hbind
      exact h.insert (.map kind (Entries.merge_ne_nil hbs))
    · cases hbind

/-- Bindings behind those that are there, also when they cannot all be put there. -/
theorem filled_bindInto (c : Compiled) {params : Params} (h : Filled params) :
    Filled (c.bindInto params).2 := by
  unfold bindInto
  dsimp only
  split
  · exact h
  · next names hnames =>
    have hfilled := filled_bindUnder .names h hnames
    split
    · exact hfilled
    · next values hvalues => exact filled_bindUnder .values hfilled hvalues

end Compiled

/-! ## Reads -/

namespace Pages

variable {p : Pages}

theorem filled_received (p : Pages) (page : Page) (h : Filled p.params) :
    Filled (p.received page).params := by
  cases hlast : isLast p.isLimited page.lastKey with
  | true =>
    rw [received_of_isLast hlast]
    exact h
  | false =>
    rw [received_of_not_isLast hlast]
    exact h.insert (.other _ (by decide))

theorem filled_start {method : ReadMethod} {schema : Schema} {g : Grammar} {decimalNumbers : Bool}
    {c : Compiled} {limit : Value} {options : Params} (hoptions : Filled options)
    (h : start method schema g decimalNumbers c limit options = .ok p) : Filled p.params := by
  have hmerge : Filled (Entries.merge options (c.toParams method.expressionName)) :=
    hoptions.merge (c.filled_toParams (by cases method <;> decide))
  unfold start at h
  split at h
  · cases h
  · cases h
    dsimp only
    split
    · exact hmerge
    · exact hmerge.insert (.other _ (by decide))

/-- A filter that says something says something in a conjunction. -/
theorem filledEntry_joinedFilter (params : Params) {expression : String} (h : expression ≠ "") :
    FilledEntry "FilterExpression" (joinedFilter params expression) := by
  unfold joinedFilter
  split
  · split
    · exact .text (by decide) (conjoined_ne_empty _ _)
    · exact .text (by decide) h
  · exact .text (by decide) h

theorem filled_apply (h : Filled p.params) (change : Change) :
    Filled (change.apply p).2.params := by
  cases change with
  | projection value =>
    show Filled (p.setProjection value).2.params
    unfold setProjection
    split
    · exact h
    · exact h.insert (.other _ (by decide))
  | filter source =>
    show Filled (p.addFilter source).2.params
    unfold addFilter
    split
    · exact h
    · split
      · exact h
      · next c hc =>
        split
        · exact h
        · next hempty =>
          have hne := Compiled.isEmpty_eq_false_iff.mp (Bool.eq_false_iff.mpr hempty)
          exact c.filled_bindInto (h.insert (filledEntry_joinedFilter p.params hne))

/-- What a caller does with a read: changes it, takes its next entry, or takes all that are left. -/
inductive Step where
  | change (change : Change)
  | pull
  | drain

/-- The read and the connection after a step. -/
def Step.run (source : PageSource) (p : Pages) (l : Link) : Step → Pages × Link
  | .change c => ((c.apply p).2, l)
  | .pull => (Pages.pull source p l).2
  | .drain => (Pages.drain source p l).2

/-- The read and the connection after a row of steps. -/
def steps (source : PageSource) (ss : List Step) (p : Pages) (l : Link) : Pages × Link :=
  ss.foldl (fun state s => s.run source state.1 state.2) (p, l)

theorem asks_step (source : PageSource) (h : Filled p.params) (l : Link) (s : Step) :
    Asks source Filled l (s.run source p l).1 (s.run source p l).2 := by
  cases s with
  | change c => exact .refl (filled_apply h c)
  | pull => exact asks_pull filled_received source p l h
  | drain => exact asks_drain filled_received source p l h

/-- Whatever is done with a read, and in whatever order, it asks by filled parameters. -/
theorem asks_steps (source : PageSource) (ss : List Step) (h : Filled p.params) (l : Link) :
    Asks source Filled l (steps source ss p l).1 (steps source ss p l).2 := by
  induction ss generalizing p l with
  | nil => exact .refl h
  | cons s ss ih =>
    have hstep := asks_step source h l s
    exact hstep.trans (ih hstep.params _)

end Pages

open Exchange

/-! ## Sources -/

/-- A source as a caller gives it: none, or text. -/
def Value.ofSource : Option String → Value
  | none => .null
  | some s => .text s

/-- Whether a source is none or only white space. -/
def isBlankSource (source : Option String) : Bool :=
  source.all fun s => s.toList.all Text.isBlank

/-- A blank source compiles as none does. -/
theorem Expression.compileValue_blank {source : Option String} (h : isBlankSource source = true)
    (g : Grammar) (start : Int) : compileValue g start (.ofSource source) = .ok {} := by
  cases source with
  | none => rfl
  | some s =>
    have hskeleton : skeleton g s.toList = .ok [] := if_pos h
    rw [Value.ofSource, compileValue, compile, hskeleton]
    rfl

theorem Expression.isEmpty_of_compileValue {g : Grammar} {start : Int} {source : Option String}
    {c : Compiled} (h : compileValue g start (.ofSource source) = .ok c) :
    c.isEmpty = isBlankSource source := by
  cases source with
  | none =>
    cases h
    rfl
  | some s =>
    cases hs : compile g start s with
    | error e =>
      rw [Value.ofSource, compileValue, hs] at h
      cases h
    | ok c' =>
      rw [Value.ofSource, compileValue, hs] at h
      cases h
      exact isEmpty_of_compile hs

/-- A condition that is left out or empty, or is not only white space. -/
def isPlainCondition (condition : Option String) : Bool :=
  condition.all fun s => s == "" || !s.toList.all Text.isBlank

/-- Such a condition counts as given exactly if it says something. -/
theorem isTruthy_ofSource {condition : Option String} (h : isPlainCondition condition = true) :
    (Value.ofSource condition).isTruthy = !isBlankSource condition := by
  cases condition with
  | none => rfl
  | some s =>
    change (s == "" || !s.toList.all Text.isBlank) = true at h
    show (s != "") = !s.toList.all Text.isBlank
    cases hs : s == "" with
    | true =>
      rw [eq_of_beq hs]
      rfl
    | false =>
      rw [hs, Bool.false_or] at h
      rw [h, bne, hs]
      rfl

namespace Table

variable {t : Table}

/-! ## Operations with sources -/

/-- The operations that take expressions. A read is followed through what its caller does with
it. -/
inductive SourcedOperation where
  | query (source : Option String) (projection limit : Value) (steps : List Pages.Step)
  | scan (source : Option String) (projection limit : Value) (steps : List Pages.Step)
  | count (manual : Value) (source : Option String)
  | update (hash range : Value) (source condition : Option String)

/-- What is done with a read of the table. -/
def readSteps (t : Table) (method : ReadMethod) (steps : List Pages.Step) (p : Pages) :
    Exchange Value :=
  fun l => (.ok .null, (Pages.steps (t.gateway.pageSource method) steps p l).2)

/-- An operation on a table. -/
def SourcedOperation.run (t : Table) : SourcedOperation → Exchange Value
  | .query source projection limit steps =>
    andThen (done (t.query (.ofSource source) projection limit [])) (t.readSteps .query steps)
  | .scan source projection limit steps =>
    andThen (done (t.scan (.ofSource source) projection limit [])) (t.readSteps .scan steps)
  | .count manual source => t.count manual (.ofSource source)
  | .update hash range source condition =>
    t.update hash range (.ofSource source) (.ofSource condition)

/-- The condition of an operation. -/
def SourcedOperation.condition : SourcedOperation → Option String
  | .update _ _ _ condition => condition
  | _ => none

/-- A request that is filled. -/
def FilledRequest (r : Request) : Prop :=
  Filled r.params

theorem filled_read {method : ReadMethod} {source projection limit : Value} {p : Pages}
    (h : t.read method source projection limit [] = .ok p) : Filled p.params := by
  obtain ⟨c, p', -, hstart, hp⟩ := start_of_read h
  have hfilled := Pages.filled_start filled_nil hstart
  rcases hp with rfl | rfl
  · exact hfilled
  · exact hfilled.insert (.other _ (by decide))

theorem read_sendsAll (method : ReadMethod) (steps : List Pages.Step) {outcome : Outcome Pages}
    (h : ∀ p, outcome = .ok p → Filled p.params) :
    SendsAll FilledRequest 0 (andThen (done outcome) (t.readSteps method steps)) := by
  cases outcome with
  | error e => exact (quiet_done (.error e)).sendsAll
  | ok p =>
    intro l
    obtain ⟨rs, hsent, hrs⟩ :=
      (Pages.asks_steps (t.gateway.pageSource method) steps (h p rfl) l).sent
    refine ⟨rs, hsent, Nat.zero_le _, fun r hr => ?_⟩
    obtain ⟨params, hparams, hrequest⟩ := hrs r hr
    exact hparams.request hrequest

theorem sent_of_request {params : Params} {request : Request} {l l' : Link} {reply : Outcome Value}
    (h : Filled params) (hrequest : t.gateway.request .scan params = .ok request)
    (hsend : Link.send request l = (reply, l')) :
    ∃ rs, l'.sent = l.sent ++ rs ∧ 0 ≤ rs.length ∧ ∀ r ∈ rs, FilledRequest r := by
  rw [Link.send_eq] at hsend
  cases hsend
  exact ⟨[request], rfl, Nat.zero_le _, List.forall_mem_singleton.mpr (h.request hrequest)⟩

/-- All requests of a count are filled, by induction on its pages. -/
theorem countPages_sendsAll {params : Params} (h : Filled params) (total : Value) :
    SendsAll FilledRequest 0 (t.countPages params total) := by
  intro l
  fun_induction countPages t params total l with
  | case1 params total l e hrequest =>
    exact ⟨[], (List.append_nil _).symm, Nat.le_refl 0, List.forall_mem_nil _⟩
  | case2 params total l request hrequest e l' hsend => exact sent_of_request h hrequest hsend
  | case3 params total l request hrequest reply l' hsend => exact sent_of_request h hrequest hsend
  | case4 params total l request hrequest reply l' hsend => exact sent_of_request h hrequest hsend
  | case5 params total l request hrequest reply l' hsend => exact sent_of_request h hrequest hsend
  | case6 params total l request hrequest reply l' hsend _ count lastKey _ _ total' _ _ ih =>
    obtain ⟨rs, hsent, -, hrs⟩ := sent_of_request h hrequest hsend
    obtain ⟨rs', hsent', -, hrs'⟩ := ih (h.insert (.other _ (by decide)))
    refine ⟨rs ++ rs', ?_, Nat.zero_le _,
      fun r hr => (List.mem_append.mp hr).elim (hrs r) (hrs' r)⟩
    rw [hsent', hsent, List.append_assoc]
  | case7 params total l request hrequest reply l' hsend => exact sent_of_request h hrequest hsend

theorem call_sendsAll (g : Gateway) (operation : Operation) {params : Params} (h : Filled params) :
    SendsAll FilledRequest 0 (g.call operation params) := by
  rcases g.call_cases operation params with ⟨e, he⟩ | ⟨params', hrequest, hsends⟩
  · rw [he]
    exact (quiet_done _).sendsAll
  · exact (hsends.sendsAll (h.request hrequest : FilledRequest _)).mono (Nat.zero_le _)

/-- The parameters that a count starts with, from those of its filter. -/
theorem filled_countParams {params : Params} (h : Filled params) :
    Filled (countParams params) :=
  (filled_nil.cons_other _ (by decide)).merge h

theorem count_sendsAll (manual source : Value) :
    SendsAll FilledRequest 0 (t.count manual source) := by
  unfold count
  refine .afterDone fun c => ?_
  cases hnoted : !manual.isTruthy && c.isEmpty with
  | true =>
    refine SendsAll.andThen ?_ fun description => .afterDone fun count => .afterDone fun n =>
      (quiet_done _).sendsAll
    exact (call_sendsAll t.gateway .describeTable filled_nil).andThen fun reply =>
      (quiet_done _).sendsAll
  | false =>
    refine countPages_sendsAll (filled_countParams ?_) (.int 0)
    cases hempty : c.isEmpty with
    | true => exact filled_nil
    | false => exact c.filled_toParams (by decide)

theorem filled_updateParams (key : Item) (c : Compiled) : Filled (updateParams key c) :=
  ((filled_nil.cons_other _ (by decide)).cons_other _ (by decide)).merge
    (c.filled_toParams (by decide))

theorem filled_withCondition {condition : Option String} (h : isPlainCondition condition = true)
    {lastIndex : Nat} {params params' : Params} (hparams : Filled params)
    (hcondition : t.withCondition (.ofSource condition) lastIndex params = .ok params') :
    Filled params' := by
  unfold withCondition at hcondition
  split at hcondition
  · next htruthy =>
    rw [isTruthy_ofSource h, Bool.not_eq_true'] at htruthy
    cases hd : t.compile (.ofSource condition) (lastIndex + 1) with
    | error e =>
      rw [hd] at hcondition
      cases hcondition
    | ok d =>
      have hne := Compiled.isEmpty_eq_false_iff.mp
        ((Expression.isEmpty_of_compileValue hd).trans htruthy)
      have hentry : FilledEntry "ConditionExpression" (.text d.expression) := .text (by decide) hne
      have hfilled := d.filled_bindInto (hparams.insert hentry)
      have hstep : ∀ f : Compiled → Outcome Params, (Except.ok d >>= f) = f d := fun _ => rfl
      rw [hd, hstep] at hcondition
      dsimp only at hcondition
      split at hcondition
      · next params'' hbind =>
        cases hcondition
        rw [hbind] at hfilled
        exact hfilled
      · cases hcondition
  · cases hcondition
    exact hparams

theorem update_sendsAll (hash range : Value) (source : Value) {condition : Option String}
    (h : isPlainCondition condition = true) :
    SendsAll FilledRequest 0 (t.update hash range source (.ofSource condition)) := by
  cases hkey : t.requireKey hash range with
  | error e =>
    rw [update_of_error hkey]
    exact (quiet_done _).sendsAll
  | ok key =>
    rw [update_of_requireKey hkey]
    refine .afterDone fun c => ?_
    split
    · exact (quiet_done _).sendsAll
    · cases hparams : t.withCondition (.ofSource condition) c.lastIndex (updateParams key c) with
      | error e => exact (quiet_done (.error e)).sendsAll
      | ok params =>
        have hfilled := filled_withCondition h (filled_updateParams key c) hparams
        have hcall := call_sendsAll t.gateway .updateItem hfilled
        exact hcall.andThen fun reply => .afterDone fun v => (quiet_done _).sendsAll

/-! ## Blank sources -/

variable {source : Option String}

theorem compile_blank (h : isBlankSource source = true) (start : Nat) :
    t.compile (.ofSource source) start = .ok {} :=
  Expression.compileValue_blank h t.grammar start

theorem query_blank (h : isBlankSource source = true) (projection limit : Value)
    (options : Params) : t.query (.ofSource source) projection limit options =
      .error (noKeyCondition (.ofSource source)) := by
  unfold query
  rw [compile_blank h]
  rfl

theorem scan_blank (h : isBlankSource source = true) (projection limit : Value)
    (options : Params) : t.scan (.ofSource source) projection limit options =
      t.scan .null projection limit options := by
  unfold scan read
  rw [compile_blank h]
  rfl

theorem count_blank (h : isBlankSource source = true) (manual : Value) :
    t.count manual (.ofSource source) = t.count manual .null := by
  unfold count
  rw [compile_blank h]
  rfl

/-- A blank update fails before anything is sent: by its key, or else because it is blank. -/
theorem update_blank (h : isBlankSource source = true) (hash range condition : Value) :
    t.update hash range (.ofSource source) condition =
      done (t.requireKey hash range >>= fun _ => .error (emptyUpdate (.ofSource source))) := by
  cases hkey : t.requireKey hash range with
  | error e =>
    rw [update_of_error hkey]
    rfl
  | ok key =>
    rw [update_of_requireKey hkey, compile_blank h]
    rfl

theorem update_blankCondition {condition : Option String} (h : isPlainCondition condition = true)
    (hblank : isBlankSource condition = true) (hash range source : Value) :
    t.update hash range source (.ofSource condition) = t.update hash range source .null := by
  have hfalsy : (Value.ofSource condition).isTruthy = false := by
    rw [isTruthy_ofSource h, hblank]
    rfl
  unfold update withCondition
  rw [hfalsy]
  rfl

/-! ## Every operation -/

/-- No request of an operation has an empty expression or an empty map of placeholders, whatever its
sources are, except for an update with a condition of white space. A query and an update of a blank
source fail before anything is sent; a blank filter or condition is as good as none. -/
theorem requests_filled (t : Table) :
    (∀ op : SourcedOperation, isPlainCondition op.condition = true →
      SendsAll FilledRequest 0 (op.run t)) ∧
    ∀ source : Option String, isBlankSource source = true →
      (∀ projection limit options, t.query (.ofSource source) projection limit options =
        .error (noKeyCondition (.ofSource source))) ∧
      (∀ hash range condition, t.update hash range (.ofSource source) condition =
        done (t.requireKey hash range >>= fun _ => .error (emptyUpdate (.ofSource source)))) ∧
      (∀ projection limit options, t.scan (.ofSource source) projection limit options =
        t.scan .null projection limit options) ∧
      (∀ manual, t.count manual (.ofSource source) = t.count manual .null) ∧
      (∀ p : Pages, p.isStarted = false → p.addFilter (.ofSource source) = (.ok (), p)) ∧
      (isPlainCondition source = true → ∀ hash range update,
        t.update hash range update (.ofSource source) = t.update hash range update .null) := by
  refine ⟨fun op hcondition => ?_, fun source h => ⟨query_blank h, update_blank h, scan_blank h,
    count_blank h, fun p hp => ?_, fun hplain => update_blankCondition hplain h⟩⟩
  · cases op with
    | query source projection limit steps =>
      exact read_sendsAll .query steps fun p hp => filled_read (query_spec hp)
    | scan source projection limit steps =>
      exact read_sendsAll .scan steps fun p hp => filled_read hp
    | count manual source => exact count_sendsAll manual _
    | update hash range source condition => exact update_sendsAll hash range _ hcondition
  · unfold Pages.addFilter
    rw [hp, Expression.compileValue_blank h]
    rfl

/-- An update with a condition, and a blank filter. -/
theorem requests_filled_guarded :
    let op : SourcedOperation := .update (.text "k") .null (some "SET n = 1") (some "n = 2")
    let blank : Option String := some "\t "
    isPlainCondition op.condition = true ∧ isBlankSource blank = true ∧
      ∃ r, (op.run eventsTable {}).2.sent = [r] ∧ FilledRequest r ∧
        eventsTable.scan (.ofSource blank) .null .null [] =
          eventsTable.scan .null .null .null [] := by
  intro op blank
  have hplain : isPlainCondition op.condition = true := by decide +kernel
  have hblank : isBlankSource blank = true := by decide +kernel
  obtain ⟨hsends, hsources⟩ := eventsTable.requests_filled
  obtain ⟨rs, hsent, -, hrs⟩ := hsends op hplain {}
  have hone : (op.run eventsTable {}).2.sent.length = 1 := by decide +kernel
  rw [hsent] at hone
  obtain ⟨r, rfl⟩ := List.length_eq_one_iff.mp hone
  exact ⟨hplain, hblank, r, hsent, hrs r (List.mem_singleton.mpr rfl),
    (hsources blank hblank).2.2.1 .null .null []⟩

/-- An update whose condition is a blank sends a request with an empty condition, though an update
without a condition sends none. -/
theorem not_requests_filled :
    let op : SourcedOperation := .update (.text "k") .null (some "SET n = 1") (some " ")
    isBlankSource op.condition = true ∧ ∃ r, (op.run eventsTable {}).2.sent = [r] ∧
      Entries.get? "ConditionExpression" r.params = some (.text "") ∧ ¬FilledRequest r := by
  intro op
  have hrun : ((op.run eventsTable {}).2.sent.map fun r =>
      (Entries.get? "ConditionExpression" r.params).map (·.isText "")) = [some true] := by
    decide +kernel
  obtain ⟨r, hr, htext⟩ := List.map_eq_singleton_iff.mp hrun
  obtain ⟨v, hv, hempty⟩ := Option.map_eq_some_iff.mp htext
  have hcondition : Entries.get? "ConditionExpression" r.params = some (.text "") := by
    rw [hv, (Value.sole_text "" v).mp hempty]
  refine ⟨by decide +kernel, r, hr, hcondition, fun hfilled => ?_⟩
  obtain ⟨s, hs, hne⟩ :=
    (hfilled _ (Entries.mem_of_get? hcondition)).expression (by decide)
  exact hne (Value.text.inj hs).symm

end Table

end ItemStore
