import ItemStore.Proofs.Expression.Condition
import ItemStore.Proofs.Table.Keyed

/-
  Guarded puts. A guarded put makes its condition from the name of the hash attribute: the name is
  put between backticks into the text of a condition, and the text is compiled. Between backticks a
  name may have any character but a backtick, so without one in it the text is that of a condition
  of the language, and it compiles to the absence of the attribute (`isNew_of_fresh`). The guarded
  put then fails as the put does, or it sends what the put sends and the guard, and nothing else is
  different (`putNew_guarded`).

  How the service reads the guard is not modelled. It is a parameter, of which only this is asked:
  the absence of one bound name holds for the items without the attribute (`ReadsAbsence`).

  A backtick in the name ends it early. What stands behind it is read as more of the condition,
  which may not compile, or may ask for something else (`not_putNew_guarded`).
-/

namespace ItemStore

open Exchange

namespace Expression

open Text

/-! ## The condition that an attribute is absent -/

theorem Condition.text_call (f : FunctionName) (p : Path) :
    (Condition.call f p).text = f.name.text ++ '(' :: (p.text ++ [')']) := by
  simp [Condition.text, Condition.write, Condition.chars]

theorem Condition.skeleton_call (f : FunctionName) (p : Path) :
    (Condition.call f p).skeleton =
      Skeleton.verbatim (f.name.text ++ ['(']) ++ (p.skeleton ++ [.char ')']) := by
  simp [Condition.skeleton, Condition.write, Condition.chars, Skeleton.verbatim]

/-- Text in front of a skeleton stays in front. -/
theorem Skeleton.fill_verbatim_append (start : Int) (cs : List Char) (ps : Skeleton) :
    (Skeleton.verbatim cs ++ ps).fill start =
      { ps.fill start with expression := String.ofList (cs ++ ps.text start) } := by
  have h : (Skeleton.verbatim cs ++ ps).text start = cs ++ ps.text start ∧
      (Skeleton.verbatim cs ++ ps).names start = ps.names start ∧
      (Skeleton.verbatim cs ++ ps).values start = ps.values start := by
    induction cs with
    | nil => exact ⟨rfl, rfl, rfl⟩
    | cons c cs ih => exact ⟨congrArg (c :: ·) ih.1, ih.2⟩
  rw [Skeleton.fill, h.1, h.2.1, h.2.2]
  rfl

/-- The function that asks whether an item lacks an attribute. -/
def attributeNotExists : FunctionName where
  name := ⟨⟨"attribute_not_exists".toList, by decide, forall_mem_of_all (by decide +kernel)⟩, []⟩
  notNumber := by decide +kernel
  notReserved := by decide +kernel

theorem text_attributeNotExists :
    attributeNotExists.name.text = "attribute_not_exists".toList :=
  List.append_nil _

/-- A name between backticks as a path. -/
def backticked (name : List Char) (fresh : '\x60' ∉ name) : Path where
  head := ⟨.quoted '\x60' name rfl fresh, []⟩
  tail := []
  notNumber := rfl
  notReserved := fun _ => rfl

variable {name : List Char} (fresh : '\x60' ∉ name)

theorem text_backticked : (backticked name fresh).text = '\x60' :: (name ++ ['\x60']) := by
  simp [backticked, Path.text, Step.text, Step.pointed, Name.text, Digits.indexes]

theorem skeleton_backticked : (backticked name fresh).skeleton = [.name name] := by
  simp [backticked, Path.skeleton, Step.pieces, Name.key, Digits.indexes]

theorem text_lacks :
    (Condition.call attributeNotExists (backticked name fresh)).text =
      "attribute_not_exists(\x60".toList ++ name ++ "\x60)".toList := by
  have hopen : "attribute_not_exists(\x60".toList =
      "attribute_not_exists".toList ++ ['(', '\x60'] := by decide
  have hclose : "\x60)".toList = ['\x60', ')'] := by decide
  rw [Condition.text_call, text_attributeNotExists, text_backticked, hopen, hclose]
  simp only [List.append_assoc, List.cons_append, List.nil_append]

/-- Its name is the only hole. -/
theorem fill_lacks :
    (Condition.call attributeNotExists (backticked name fresh)).skeleton.fill 1 =
      { expression := "attribute_not_exists(#V1)", names := [("#V1", String.ofList name)] } := by
  have htext : "attribute_not_exists".toList ++ ['('] ++ Skeleton.text 1 [.name name, .char ')'] =
      "attribute_not_exists(#V1)".toList := by
    show _ ++ (Skeleton.namePlaceholder 1 ++ [')']) = _
    decide +kernel
  have hplaceholder : String.ofList (Skeleton.namePlaceholder 1) = "#V1" := by decide +kernel
  have hnames : Skeleton.names 1 [.name name, .char ')'] = [("#V1", String.ofList name)] := by
    rw [← hplaceholder]
    rfl
  rw [Condition.skeleton_call, text_attributeNotExists, skeleton_backticked,
    Skeleton.fill_verbatim_append, List.singleton_append, htext, Skeleton.fill, hnames,
    String.ofList_toList]
  rfl

end Expression

namespace Table

variable {t : Table} {hash range value : Value} {item : Item} {name : String}

/-! ## Guards -/

/-- The guard of a put that no item has an attribute. -/
def absence (name : String) : Compiled :=
  { expression := "attribute_not_exists(#V1)", names := [("#V1", name)] }

/-- A schema whose hash attribute has no backtick in its name asks for the absence of it. -/
theorem isNew_of_fresh {s : Schema} (hname : s.hashKey = some name)
    (hfresh : '\x60' ∉ name.toList) : isNew s = .ok (absence name) := by
  have hcompile : Expression.compile .inferred 1
      ("attribute_not_exists(\x60" ++ name ++ "\x60)") = .ok (absence name) := by
    rw [Expression.compile, String.toList_append, String.toList_append,
      ← Expression.text_lacks hfresh, Expression.Condition.skeleton_text]
    dsimp only
    rw [Expression.fill_lacks, String.ofList_toList, absence]
  unfold isNew
  rw [hname]
  show Expression.compileValue .inferred 1 (.text _) = _
  rw [Expression.compileValue, Option.getD_some, hcompile]

/-- The request of a put with further parameters. -/
def putCall (t : Table) (item : Item) (more : Params) : Request :=
  ⟨.putItem, ("TableName", .text t.name) :: ("Item", item.toValue) :: more⟩

/-- The parameters of the guard that no item has an attribute. -/
def absenceParams (name : String) : Params :=
  [("ConditionExpression", .text "attribute_not_exists(#V1)"),
    ("ExpressionAttributeNames", .record [("#V1", .text name)])]

theorem putNew_of_keyedItem (h : t.keyedItem hash range value = .ok item)
    (hnew : isNew t.schema = .ok (absence name)) :
    t.putNew hash range value =
      andThen (t.gateway.invoke (t.putCall item (absenceParams name)) .null)
        fun _ => done (.ok ()) := by
  unfold putNew
  rw [h, hnew]
  rfl

theorem put_of_keyedItem (h : t.keyedItem hash range value = .ok item) :
    t.put hash range value [] =
      andThen (t.gateway.invoke (t.putCall item []) .null) fun _ => done (.ok ()) := by
  rw [put_of_hasAny rfl, h]
  rfl

/-- An evaluation of conditions, on the item that is there, that takes the absence of one bound name
for what it says. -/
def ReadsAbsence (holds : Params → Item → Prop) : Prop :=
  ∀ (params : Params) (n : Nat) (name : String) (item : Item),
    Entries.get? "ConditionExpression" params =
        some (.text ("attribute_not_exists(#V" ++ natText n ++ ")")) →
      Entries.get? "ExpressionAttributeNames" params =
        some (.record [("#V" ++ natText n, .text name)]) →
      (holds params item ↔ Entries.has name item = false)

/-- The guard of a name does not hold for an item that has an attribute of the name. -/
theorem not_holds_of_has {holds : Params → Item → Prop} (hreads : ReadsAbsence holds)
    (t : Table) (item : Item) {stored : Item} (hstored : Entries.has name stored = true) :
    ¬holds (t.putCall item (absenceParams name)).params stored := by
  intro hholds
  have hone : natText 1 = "1" := by decide +kernel
  have hlacks := (hreads (t.putCall item (absenceParams name)).params 1 name stored
    (by rw [hone]; rfl) (by rw [hone]; rfl)).mp hholds
  rw [hstored] at hlacks
  cases hlacks

/-- A guarded put fails as the put does before anything is sent, or both send a request, which is
that of the put with the guard added to it, and take the reply alike. The guard names the hash
attribute, whatever characters but a backtick its name has, and it does not hold for an item that
has the attribute. -/
theorem putNew_guarded {hashName : String} {hashType : KeyType}
    (hhash : t.schema.hash? = some (hashName, hashType)) (hfresh : '\x60' ∉ hashName.toList)
    (hash range value : Value) :
    (∃ e, t.put hash range value [] = done (.error e) ∧
      t.putNew hash range value = done (.error e)) ∨
      ∃ item, t.keyedItem hash range value = .ok item ∧
        Sends (t.put hash range value []) (t.putCall item []) ∧
        Sends (t.putNew hash range value) (t.putCall item (absenceParams hashName)) ∧
        (∀ l, (t.putNew hash range value l).1 = (t.put hash range value [] l).1) ∧
        ∀ holds, ReadsAbsence holds → ∀ stored, Entries.has hashName stored = true →
          ¬holds (t.putCall item (absenceParams hashName)).params stored := by
  cases h : t.keyedItem hash range value with
  | error e => exact .inl ⟨e, put_of_error h rfl, putNew_of_error h⟩
  | ok item =>
    have hname : t.schema.hashKey = some hashName :=
      (Option.filter_eq_some_iff.mp (Schema.named?_of_attribute? hhash)).1
    rw [put_of_keyedItem h, putNew_of_keyedItem h (isNew_of_fresh hname hfresh)]
    refine .inr ⟨item, rfl, ?_, ?_, fun l => ?_, fun holds hreads stored hstored => ?_⟩
    · exact (t.gateway.sends_invoke _ _).andThen fun _ => quiet_done _
    · exact (t.gateway.sends_invoke _ _).andThen fun _ => quiet_done _
    · rw [Exchange.andThen, Exchange.andThen, Gateway.invoke, Gateway.invoke, Link.send_eq,
        Link.send_eq]
      cases l.next <;> rfl
    · exact not_holds_of_has hreads t item hstored

/-- An evaluation that knows the absence of one bound name and nothing else. -/
def LacksBound (params : Params) (item : Item) : Prop :=
  ∃ n name, Entries.get? "ConditionExpression" params =
      some (.text ("attribute_not_exists(#V" ++ natText n ++ ")")) ∧
    Entries.get? "ExpressionAttributeNames" params =
      some (.record [("#V" ++ natText n, .text name)]) ∧
    Entries.has name item = false

theorem readsAbsence_lacksBound : ReadsAbsence LacksBound := by
  intro params n name item hcondition hnames
  refine ⟨fun ⟨n', name', _, hnames', hlacks⟩ => ?_, fun hlacks =>
    ⟨n, name, hcondition, hnames, hlacks⟩⟩
  rw [hnames] at hnames'
  have hentries := Value.map.inj (Option.some.inj hnames')
  have hname : name = name' := Value.text.inj (Prod.mk.inj (List.cons.inj hentries).1).2
  rw [hname]
  exact hlacks

/-- A name that looks like more of a condition. -/
def oddName : String :=
  "id\x22) OR size(#V1"

def oddTable : Table :=
  { gateway := ⟨default, "events"⟩
    schema := { hashKey := some oddName, hashType := some .text } }

def oddItem : Item :=
  [("note", .s "new"), (oddName, .s "a")]

theorem putNew_guarded_oddName :
    oddTable.schema.hash? = some (oddName, .text) ∧ '\x60' ∉ oddName.toList ∧
      Sends (oddTable.putNew (.text "a") .null (.record [("note", .text "new")]))
        (oddTable.putCall oddItem (absenceParams oddName)) ∧
      ReadsAbsence LacksBound ∧
      ¬LacksBound (oddTable.putCall oddItem (absenceParams oddName)).params oddItem := by
  have hhash : oddTable.schema.hash? = some (oddName, .text) := rfl
  have hfresh : '\x60' ∉ oddName.toList := by decide
  have hitem : oddTable.keyedItem (.text "a") .null (.record [("note", .text "new")]) =
      .ok oddItem := rfl
  rcases putNew_guarded hhash hfresh (.text "a") .null (.record [("note", .text "new")]) with
    ⟨e, he, -⟩ | ⟨item, hitem', -, hsends, -, hguard⟩
  · rw [put_of_keyedItem hitem] at he
    cases congrFun he {}
  · rw [hitem] at hitem'
    cases hitem'
    exact ⟨hhash, hfresh, hsends, readsAbsence_lacksBound,
      hguard _ readsAbsence_lacksBound oddItem (by decide)⟩

/-- A table whose hash attribute has the given name. -/
def namedTable (name : String) : Table :=
  { gateway := ⟨default, "events"⟩, schema := { hashKey := some name, hashType := some .text } }

/-- A backtick in the name of the hash attribute: the guard does not compile, or what stands behind
the backtick is read as more of it. -/
theorem not_putNew_guarded :
    (∃ message source offset, (namedTable "a\x60b").putNew (.text "x") .null (.record []) =
        done (.error (.compile message source offset))) ∧
      ∃ c, isNew (namedTable "a\x60) OR attribute_not_exists(\x60b").schema = .ok c ∧
        c.expression = "attribute_not_exists(#V1) OR attribute_not_exists(#V2)" ∧
        c.names = [("#V1", "a"), ("#V2", "b")] := by
  have hfails : (Expression.compile .inferred 1 "attribute_not_exists(\x60a\x60b\x60)").isOk =
      false := by decide +kernel
  have hboth : ∃ c, Expression.compile .inferred 1
      "attribute_not_exists(\x60a\x60) OR attribute_not_exists(\x60b\x60)" = .ok c ∧
        c.expression = "attribute_not_exists(#V1) OR attribute_not_exists(#V2)" ∧
        c.names = [("#V1", "a"), ("#V2", "b")] :=
    Text.exists_ok_of_any (by decide +kernel)
  constructor
  · have hnew : isNew (namedTable "a\x60b").schema = Expression.compileValue .inferred 1
        (.text "attribute_not_exists(\x60a\x60b\x60)") := rfl
    cases hc : Expression.compile .inferred 1 "attribute_not_exists(\x60a\x60b\x60)" with
    | ok c =>
      rw [hc] at hfails
      cases hfails
    | error e =>
      rw [Expression.compileValue, hc] at hnew
      have hitem : (namedTable "a\x60b").keyedItem (.text "x") .null (.record []) =
          .ok [("a\x60b", .s "x")] := rfl
      refine ⟨e.fault.message, String.ofList e.source, some e.offset, ?_⟩
      unfold putNew
      rw [hitem, hnew]
      rfl
  · obtain ⟨c, hc, hexpression, hnames⟩ := hboth
    refine ⟨c, ?_, hexpression, hnames⟩
    show Expression.compileValue .inferred 1
      (.text "attribute_not_exists(\x60a\x60) OR attribute_not_exists(\x60b\x60)") = _
    rw [Expression.compileValue, hc]

end Table

end ItemStore
