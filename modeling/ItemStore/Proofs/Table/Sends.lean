import ItemStore.Proofs.Pages.Conjunctions
import ItemStore.Proofs.Pages.Drained
import ItemStore.Proofs.Table.Leftovers

/-
  What the operations on one item send. Each builds the item's key, makes a request of it and then
  only reads the reply, so it sends that one request whatever is replied (`Exchange.Sends`). A
  request carries its parameters but for the table's name and the resource (`exists_request`), and
  neither the expressions of an update nor the options of a put stand in for the key or the item.
-/

namespace ItemStore

/-! ## Exchanges -/

namespace Exchange

/-- Whatever is replied, an exchange sends one request and nothing else. -/
def Sends (x : Exchange α) (r : Request) : Prop :=
  ∀ l, (x l).2 = l.after r

/-- An exchange that sends nothing. -/
def Quiet (x : Exchange α) : Prop :=
  ∀ l, (x l).2 = l

theorem quiet_done (r : Outcome α) : Quiet (done r) :=
  fun _ => rfl

/-- What sends nothing changes nothing of a connection after another exchange. -/
theorem link_andThen (x : Exchange α) {f : α → Exchange β} (hf : ∀ a, Quiet (f a)) (l : Link) :
    (andThen x f l).2 = (x l).2 := by
  rw [Exchange.andThen]
  generalize x l = answer
  obtain ⟨outcome, l'⟩ := answer
  cases outcome with
  | error e => rfl
  | ok a => exact hf a l'

theorem Quiet.andThen {x : Exchange α} {f : α → Exchange β} (hx : Quiet x)
    (hf : ∀ a, Quiet (f a)) : Quiet (andThen x f) :=
  fun l => (link_andThen x hf l).trans (hx l)

theorem Sends.andThen {x : Exchange α} {f : α → Exchange β} {r : Request} (hx : Sends x r)
    (hf : ∀ a, Quiet (f a)) : Sends (andThen x f) r :=
  fun l => (link_andThen x hf l).trans (hx l)

/-- An exchange that succeeds has made its first part. -/
theorem ok_of_andThen {x : Exchange α} {f : α → Exchange β} {l : Link} {b : β}
    (h : (andThen x f l).1 = .ok b) :
    ∃ a, (x l).1 = .ok a ∧ andThen x f l = f a (x l).2 := by
  rw [Exchange.andThen] at h ⊢
  generalize x l = answer at h ⊢
  obtain ⟨outcome, l'⟩ := answer
  cases outcome with
  | error e => cases h
  | ok a => exact ⟨a, rfl, rfl⟩

end Exchange

open Exchange

namespace Gateway

theorem sends_invoke (g : Gateway) (r : Request) (resource : Value) :
    Sends (g.invoke r resource) r := by
  intro l
  rw [invoke, Link.send_eq]
  cases l.next <;> rfl

theorem call_of_request {g : Gateway} {operation : Operation} {options : Params} {r : Request}
    (h : g.request operation options = .ok r) :
    g.call operation options = g.invoke r (resourceOf options) := by
  unfold call
  rw [h]
  rfl

theorem sends_call {g : Gateway} {operation : Operation} {options : Params} {r : Request}
    (h : g.request operation options = .ok r) : Sends (g.call operation options) r := by
  rw [call_of_request h]
  exact g.sends_invoke r _

theorem call_eq {g : Gateway} {operation : Operation} {options : Params} {r : Request}
    (h : g.request operation options = .ok r) {l : Link} {reply : Value}
    (hreply : l.next = .ok reply) : g.call operation options l = (.ok reply, l.after r) := by
  rw [call_of_request h, invoke, Link.send_eq, hreply]

/-- Parameters that name nothing of the call itself make a request, which carries them but for the
table's name and the resource. -/
theorem exists_request (g : Gateway) (operation : Operation) {options : Params}
    (hnodup : (options.map Prod.fst).Nodup)
    (hfree : ∀ name ∈ reservedNames, Entries.get? name options = none) :
    ∃ params, g.request operation options = .ok ⟨operation, params⟩ ∧
      ∀ field, field ≠ "TableName" → field ≠ resourceOption →
        Entries.get? field params = Entries.get? field options := by
  have hrequest : g.request operation options = .ok ⟨operation,
      Entries.merge [("TableName", .text g.tableName)] (Entries.erase resourceOption options)⟩ := by
    rw [request, Entries.hasAny_eq_false_of_get? hnodup hfree]
    rfl
  exact ⟨_, hrequest, fun _ => get?_of_request hrequest hnodup⟩

end Gateway

namespace Table

variable {t : Table} {hash range : Value} {key item : Item}

/-! ## Reads and deletes -/

/-- The request of a read of one item. -/
def getCall (t : Table) (key : Item) (projection : Value) : Request :=
  ⟨.getItem, ("TableName", .text t.name) :: ("Key", key.toValue) :: projectionParams projection⟩

theorem request_getItem (t : Table) (key : Item) (projection : Value) :
    t.gateway.request .getItem (("Key", key.toValue) :: projectionParams projection) =
      .ok (t.getCall key projection) := by
  unfold getCall projectionParams
  cases projection.isTruthy <;> rfl

theorem get_of_requireKey (h : t.requireKey hash range = .ok key) (projection : Value) :
    t.get hash range projection =
      andThen (t.gateway.call .getItem (("Key", key.toValue) :: projectionParams projection))
        fun reply => andThen (done (Outcome.ofFault (reply.fieldD "Item" .null))) fun item =>
          if item.isTruthy then done (t.plain item)
          else done (.error (.itemNotFound t.name key.toValue none)) := by
  unfold get
  rw [h]
  rfl

theorem get_sends (h : t.requireKey hash range = .ok key) (projection : Value) :
    Sends (t.get hash range projection) (t.getCall key projection) := by
  rw [get_of_requireKey h]
  refine (Gateway.sends_call (t.request_getItem key projection)).andThen fun reply =>
    (quiet_done _).andThen fun item => ?_
  split <;> exact quiet_done _

/-- A reply with an item is answered by what the item is read as. -/
theorem get_eq (h : t.requireKey hash range = .ok key) (projection : Value) {l : Link}
    {reply v : Value} (hreply : l.next = .ok reply)
    (hitem : reply.fieldD "Item" .null = .ok item.toValue) (hne : item ≠ [])
    (hplain : t.plain item.toValue = .ok v) : (t.get hash range projection l).1 = .ok v := by
  have htruthy : item.toValue.isTruthy = true := by
    cases item with
    | nil => exact absurd rfl hne
    | cons e item => rfl
  rw [get_of_requireKey h, Exchange.andThen,
    Gateway.call_eq (t.request_getItem key projection) hreply]
  dsimp only
  rw [hitem]
  show ((if item.toValue.isTruthy then done (t.plain item.toValue) else _) _).1 = _
  rw [if_pos htruthy, hplain]
  rfl

theorem delete_sends (h : t.requireKey hash range = .ok key) :
    Sends (t.delete hash range)
      ⟨.deleteItem, [("TableName", .text t.name), ("Key", key.toValue)]⟩ := by
  have hopen : t.delete hash range =
      andThen (t.gateway.call .deleteItem [("Key", key.toValue)]) fun _ => done (.ok ()) := by
    unfold delete
    rw [h]
    rfl
  rw [hopen]
  exact (Gateway.sends_call rfl).andThen fun _ => quiet_done _

/-! ## Puts -/

/-- A put whose options are none of its arguments. -/
theorem put_of_hasAny {options : Params} (h : Entries.hasAny putNames options = false)
    (hash range value : Value) :
    t.put hash range value options =
      andThen (done (t.keyedItem hash range value)) fun item =>
        andThen (t.gateway.call .putItem (Entries.merge [("Item", item.toValue)] options))
          fun _ => done (.ok ()) := by
  unfold put
  rw [h]
  rfl

/-- What is put is sent as the item, whatever further parameters there are. -/
theorem put_sends {value : Value} (h : t.keyedItem hash range value = .ok item)
    {options : Params} (hnames : Entries.hasAny putNames options = false)
    (hfree : ∀ name ∈ "Item" :: Gateway.reservedNames, Entries.get? name options = none)
    (hnodup : (options.map Prod.fst).Nodup) :
    ∃ params, Sends (t.put hash range value options) ⟨.putItem, params⟩ ∧
      Entries.get? "Item" params = some item.toValue := by
  have hget : ∀ field, Entries.get? field (Entries.merge [("Item", item.toValue)] options) =
      (Entries.get? field options).or (Entries.get? field [("Item", item.toValue)]) :=
    fun field => Entries.get?_merge_of_nodup hnodup field _
  have hreserved : ∀ name ∈ Gateway.reservedNames,
      Entries.get? name (Entries.merge [("Item", item.toValue)] options) = none := by
    intro name hname
    have hne : "Item" ≠ name := by
      rintro rfl
      exact absurd hname (by decide)
    rw [hget, hfree name (List.mem_cons_of_mem _ hname), Option.none_or, Entries.get?,
      if_neg (mt beq_iff_eq.mp hne)]
    rfl
  have hmerged : ((Entries.merge [("Item", item.toValue)] options).map Prod.fst).Nodup :=
    Entries.nodup_merge (List.pairwise_singleton _ "Item")
  obtain ⟨params, hrequest, hparams⟩ := t.gateway.exists_request .putItem hmerged hreserved
  refine ⟨params, ?_, ?_⟩
  · rw [put_of_hasAny hnames, h]
    exact (Gateway.sends_call hrequest).andThen fun _ => quiet_done _
  · rw [hparams "Item" (by decide) (by decide), hget, hfree "Item" List.mem_cons_self]
    rfl

/-! ## Updates -/

/-- The parameters of an update before its condition. -/
def updateParams (key : Item) (c : Compiled) : Params :=
  Entries.merge [("Key", key.toValue), ("ReturnValues", .text "ALL_NEW")]
    (c.toParams "UpdateExpression")

theorem get?_updateParams (key : Item) (c : Compiled) (field : String) :
    Entries.get? field (updateParams key c) =
      (Entries.get? field (c.toParams "UpdateExpression")).or
        (Entries.get? field [("Key", key.toValue), ("ReturnValues", .text "ALL_NEW")]) :=
  Entries.get?_merge_of_nodup (c.nodup_toParams _) field _

theorem nodup_updateParams (key : Item) (c : Compiled) :
    ((updateParams key c).map Prod.fst).Nodup := by
  have hnames : ["Key", "ReturnValues"].Nodup := by decide
  exact Entries.nodup_merge hnames

/-- The parameters of expressions. -/
def expressionNames : List String :=
  ["UpdateExpression", "ConditionExpression", "ExpressionAttributeNames",
    "ExpressionAttributeValues"]

/-- Further parameters of an update are those of its expressions. -/
theorem get?_updateParams_of_notMem (key : Item) (c : Compiled) {field : String}
    (h : field ∉ expressionNames) : Entries.get? field (updateParams key c) =
      Entries.get? field [("Key", key.toValue), ("ReturnValues", .text "ALL_NEW")] := by
  have hname : "UpdateExpression" ≠ field := by
    rintro rfl
    exact h (by decide)
  have hkinds : ∀ kind : BindingKind, kind.field ≠ field := by
    rintro kind rfl
    exact h (by cases kind <;> decide)
  rw [get?_updateParams, Compiled.get?_toParams_other hname hkinds, Option.none_or]

/-- Before its condition an update carries its own placeholders. -/
theorem get?_updateParams_kind (key : Item) (c : Compiled) (kind : BindingKind) :
    Entries.get? kind.field (updateParams key c) = sentMap (c.bindings kind) := by
  have hname : ∀ kind : BindingKind, kind.field ≠ "UpdateExpression" := by
    intro kind
    cases kind <;> decide
  have hnone : Entries.get? kind.field
      [("Key", key.toValue), ("ReturnValues", .text "ALL_NEW")] = none := by
    cases kind <;> rfl
  rw [get?_updateParams, Compiled.get?_toParams_field hname, hnone, Option.or_none]

theorem hasMaps_updateParams (key : Item) (c : Compiled) : HasMaps (updateParams key c) := by
  intro kind
  rw [get?_updateParams_kind]
  exact holdsMap_sentMap _

/-- A condition that compiles is put into parameters under its name and its placeholders into the
maps that are there; nothing else changes. -/
theorem withCondition_of_compile {condition : Value} (hgiven : condition.isTruthy = true)
    {lastIndex : Nat} {d : Compiled} (hd : t.compile condition (lastIndex + 1) = .ok d)
    {params : Params} (hmaps : HasMaps params) (hnodup : (params.map Prod.fst).Nodup) :
    ∃ params', t.withCondition condition lastIndex params = .ok params' ∧
      (params'.map Prod.fst).Nodup ∧
      Entries.get? "ConditionExpression" params' = some (.text d.expression) ∧
      (∀ kind : BindingKind, Entries.get? kind.field params' =
        extended (Entries.get? kind.field params) (d.bindings kind)) ∧
      ∀ field, field ≠ "ConditionExpression" → (∀ kind : BindingKind, kind.field ≠ field) →
        Entries.get? field params' = Entries.get? field params := by
  have hkinds : ∀ kind : BindingKind, kind.field ≠ "ConditionExpression" := by
    intro kind
    cases kind <;> decide
  have hmaps' : HasMaps (Entries.insert "ConditionExpression" (.text d.expression) params) := by
    intro kind
    rw [Entries.get?_insert_of_ne (hkinds kind).symm]
    exact hmaps kind
  have hnumbered : d.NumberedFrom (lastIndex + 1) :=
    Expression.numberedFrom_of_compileValue (Nat.le_add_left 1 lastIndex) hd
  obtain ⟨params', hbind, hbound, hother⟩ := Compiled.bindInto_spec hnumbered.nodup hmaps'
  have hparams' := Pages.nodup_bindInto d
    (Entries.nodup_insert (k := "ConditionExpression") (v := .text d.expression) hnodup)
  rw [hbind] at hparams'
  refine ⟨params', ?_, hparams', ?_, fun kind => ?_, fun field hfield hne => ?_⟩
  · have hstep : ∀ f : Compiled → Outcome Params, (Except.ok d >>= f) = f d := fun _ => rfl
    unfold withCondition
    rw [if_pos hgiven, hd, hstep]
    dsimp only
    rw [hbind]
    rfl
  · rw [hother _ hkinds, Entries.get?_insert_self]
  · rw [hbound, Entries.get?_insert_of_ne (hkinds kind).symm]
  · rw [hother _ hne, Entries.get?_insert_of_ne hfield.symm]

/-- A condition that is not given changes nothing, and one that compiles changes no parameters but
those of expressions. -/
theorem withCondition_spec (t : Table) (condition : Value) {lastIndex : Nat} {params : Params}
    (hmaps : HasMaps params) (hnodup : (params.map Prod.fst).Nodup)
    (hc : condition.isTruthy = true → ∃ d, t.compile condition (lastIndex + 1) = .ok d) :
    ∃ params', t.withCondition condition lastIndex params = .ok params' ∧
      (params'.map Prod.fst).Nodup ∧
      ∀ field ∉ expressionNames, Entries.get? field params' = Entries.get? field params := by
  by_cases hgiven : condition.isTruthy = true
  · obtain ⟨d, hd⟩ := hc hgiven
    obtain ⟨params', hparams', hnodup', -, -, hother⟩ :=
      withCondition_of_compile hgiven hd hmaps hnodup
    refine ⟨params', hparams', hnodup', fun field hfield => hother field ?_ fun kind => ?_⟩
    · rintro rfl
      exact hfield (by decide)
    · rintro rfl
      exact hfield (by cases kind <;> decide)
  · unfold withCondition
    rw [if_neg hgiven]
    exact ⟨params, rfl, hnodup, fun _ _ => rfl⟩

theorem update_of_requireKey (h : t.requireKey hash range = .ok key) (source condition : Value) :
    t.update hash range source condition =
      andThen (done (t.compile source 1)) fun c =>
        if c.isEmpty then done (.error (emptyUpdate source))
        else
          andThen (done (t.withCondition condition c.lastIndex (updateParams key c))) fun params =>
            andThen (t.gateway.call .updateItem params) fun reply =>
              andThen (done (Outcome.ofFault (reply.fieldD "Attributes" .null))) fun v =>
                done (t.plain v) := by
  unfold update
  rw [h]
  cases t.compile source 1 with
  | error e => rfl
  | ok c =>
    show (if c.isEmpty then _ else _) = if c.isEmpty then _ else _
    split <;> rfl

/-- No expression brings a name that a call cannot have. -/
theorem sendable_of_plain {params : Params} (hnodup : (params.map Prod.fst).Nodup)
    (hplain : ∀ field ∉ expressionNames, Entries.get? field params =
      Entries.get? field [("Key", key.toValue), ("ReturnValues", .text "ALL_NEW")]) :
    Sendable params := by
  refine ⟨hnodup, fun name hname => ?_⟩
  have hnames : name ∉ expressionNames ∧ name ∉ ["Key", "ReturnValues"] := by
    revert name
    decide
  rw [hplain name hnames.1]
  exact Entries.get?_of_notMem (Entries.sole_of_lawful name) hnames.2

/-- Whether an update has something to send: a source that compiles to an expression, and a
condition, where one is given, that compiles. -/
def Updates (t : Table) (source condition : Value) : Prop :=
  ∃ c, t.compile source 1 = .ok c ∧ c.isEmpty = false ∧
    (condition.isTruthy = true → ∃ d, t.compile condition (c.lastIndex + 1) = .ok d)

/-- An update of the item under a key sends the key, whatever its expressions are. -/
theorem update_sends (h : t.requireKey hash range = .ok key) {source condition : Value}
    (hupdates : t.Updates source condition) :
    ∃ params, Sends (t.update hash range source condition) ⟨.updateItem, params⟩ ∧
      Entries.get? "Key" params = some key.toValue := by
  obtain ⟨c, hc, hempty, hcondition⟩ := hupdates
  obtain ⟨params, hparams, hnodup, hget⟩ := t.withCondition_spec condition
    (hasMaps_updateParams key c) (nodup_updateParams key c) hcondition
  have hheld : ∀ field ∉ expressionNames, Entries.get? field params =
      Entries.get? field [("Key", key.toValue), ("ReturnValues", .text "ALL_NEW")] :=
    fun field hfield => (hget field hfield).trans (get?_updateParams_of_notMem key c hfield)
  have hsendable : Sendable params := sendable_of_plain hnodup hheld
  refine ⟨Entries.merge [("TableName", .text t.name)] params, ?_, ?_⟩
  · rw [update_of_requireKey h, hc]
    show Sends (if c.isEmpty then _ else andThen (done (t.withCondition _ _ _)) _) _
    rw [hempty, hparams]
    exact (Gateway.sends_call (hsendable.request_eq _ _)).andThen fun reply =>
      (quiet_done _).andThen fun v => quiet_done _
  · rw [Entries.get?_merge_of_nodup hnodup, hheld "Key" (by decide)]
    rfl

/-- Otherwise it fails before anything is sent. -/
theorem update_fails (h : t.requireKey hash range = .ok key) {source condition : Value}
    (hnot : ¬t.Updates source condition) :
    ∃ e, t.update hash range source condition = done (.error e) := by
  rw [update_of_requireKey h]
  cases hc : t.compile source 1 with
  | error e => exact ⟨e, rfl⟩
  | ok c =>
    show ∃ e, (if c.isEmpty then _ else andThen (done (t.withCondition _ _ _)) _) = _
    cases hempty : c.isEmpty with
    | true => exact ⟨_, rfl⟩
    | false =>
      have htruthy : condition.isTruthy = true := by
        by_contra hfalsy
        exact hnot ⟨c, hc, hempty, fun h => absurd h hfalsy⟩
      cases hd : t.compile condition (c.lastIndex + 1) with
      | ok d => exact absurd ⟨c, hc, hempty, fun _ => ⟨d, hd⟩⟩ hnot
      | error e =>
        have hfails : t.withCondition condition c.lastIndex (updateParams key c) = .error e := by
          rw [withCondition, if_pos htruthy, hd]
          rfl
        rw [hfails]
        exact ⟨e, rfl⟩

theorem update_quiet (h : t.requireKey hash range = .ok key) {source condition : Value}
    (hnot : ¬t.Updates source condition) : Quiet (t.update hash range source condition) := by
  obtain ⟨e, he⟩ := update_fails h hnot
  rw [he]
  exact quiet_done _

end Table

end ItemStore
