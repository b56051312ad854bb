import ItemStore.Keys.Description
import ItemStore.Proofs.Wire.Records

/-
  The schema that a table description gives. A description lists the key attributes by their roles
  and the definitions of attributes by their names (`Lists`). Both lists are looked up by distinct
  keys, so their order does not matter (`Entries.get?_perm`), and definitions of further attributes,
  as those of secondary indexes, are never asked for: a description that lists the roles of a full
  schema, and its definitions with others, gives that schema, and one without a hash attribute
  gives none (`ofDescription_described`).

  Elements and definitions may have other fields than those that are read, and so may the
  description. Definitions that name an attribute twice are left out.
-/

namespace ItemStore

/-- The order of a map does not matter to its look-ups. -/
theorem Entries.get?_perm {κ : Type u} {β : Type v} [BEq κ] [LawfulBEq κ] {es fs : List (κ × β)}
    (h : es.Perm fs) (hnodup : (es.map Prod.fst).Nodup) (k : κ) : get? k es = get? k fs := by
  have hnodup' : (fs.map Prod.fst).Nodup := (h.map Prod.fst).nodup_iff.mp hnodup
  cases hget : get? k fs with
  | none =>
    have hout := notMem_of_get? hnodup' hget
    exact get?_of_notMem (sole_of_lawful k) fun hmem => hout ((h.map Prod.fst).mem_iff.mp hmem)
  | some v =>
    have hmem : (k, v) ∈ es := h.mem_iff.mpr (mem_of_get? hget)
    exact get?_of_mem (sole_of_lawful (k, v).1) hnodup hmem

namespace Schema

/-! ## Descriptions -/

/-- An element of a key schema: a role and the name of the attribute in it. -/
structure IsElement (v : Value) (e : String × String) : Prop where
  role : v.field "KeyType" = .ok (.text e.1)
  name : v.field "AttributeName" = .ok (.text e.2)

/-- A definition: the name of an attribute and its type. -/
structure IsDefinition (v : Value) (d : String × Value) : Prop where
  name : v.field "AttributeName" = .ok (.text d.1)
  type : v.field "AttributeType" = .ok d.2

/-- What a description lists under a field, each by a value that tells it. A field that is absent,
null or empty lists nothing. -/
inductive Lists {α : Type} (Tells : Value → α → Prop) (description : List (Value × Value))
    (field : String) : List α → Prop
  | nothing
      (h : ((Entries.get? (.text field) description).getD .null).isTruthy = false) :
      Lists Tells description field []
  | seq {kind : SeqKind} {vs : List Value} {xs : List α}
      (h : Entries.get? (.text field) description = some (.seq kind vs))
      (told : List.Forall₂ Tells vs xs) : Lists Tells description field xs

/-- A schema with a hash attribute and, or not, a range attribute of another name: each with a name
that is not empty, and a type. -/
inductive IsFull : Schema → Prop
  | hashOnly {hash : String} {hashType : KeyType} (hne : hash ≠ "") :
      IsFull ⟨some hash, some hashType, none, none⟩
  | ranged {hash range : String} {hashType rangeType : KeyType} (hne : hash ≠ "")
      (rne : range ≠ "") (names_ne : range ≠ hash) :
      IsFull ⟨some hash, some hashType, some range, some rangeType⟩

/-- The key attributes of a schema by their roles. -/
def roles (s : Schema) : List (String × String) :=
  s.hashKey.toList.map ("HASH", ·) ++ s.rangeKey.toList.map ("RANGE", ·)

/-- The definitions of the key attributes of a schema. -/
def definitions (s : Schema) : Params :=
  (s.hashKey.toList.zip s.hashType.toList ++ s.rangeKey.toList.zip s.rangeType.toList).map
    (Prod.map id fun t => .text t.name)

variable {description : List (Value × Value)} {s : Schema}

/-! ## What is read off a description -/

theorem Lists.described {α : Type} {Tells : Value → α → Prop} {field : String} {xs : List α}
    (h : Lists Tells description field xs) :
    ∃ v vs, described (.map description) field = .ok v ∧ v.elements = .ok vs ∧
      List.Forall₂ Tells vs xs := by
  have hopen : Schema.described (.map description) field =
      .ok (if ((Entries.get? (.text field) description).getD .null).isTruthy then
        (Entries.get? (.text field) description).getD .null else .list []) := rfl
  cases h with
  | nothing h =>
    rw [h] at hopen
    exact ⟨.list [], [], hopen, rfl, .nil⟩
  | @seq kind vs _ h told =>
    rw [hopen, h, Option.getD_some]
    by_cases htruthy : (Value.seq kind vs).isTruthy = true
    · exact ⟨_, vs, by rw [if_pos htruthy], rfl, told⟩
    · have hnone : vs = [] := by
        cases vs with
        | nil => rfl
        | cons v vs => exact absurd rfl htruthy
      subst hnone
      exact ⟨.list [], [], rfl, rfl, told⟩

theorem attributeOf_eq {role : String} {vs : List Value} {listed : List (String × String)}
    (h : List.Forall₂ IsElement vs listed) :
    attributeOf role vs = .ok (((Entries.get? role listed).map Value.text).getD .null) := by
  induction h with
  | nil => rfl
  | @cons v e vs listed hv _ ih =>
    rw [attributeOf, hv.role, Entries.get?]
    show (if (Value.text e.1).isText role then v.field "AttributeName" else attributeOf role vs) = _
    have hsame : (Value.text e.1).isText role = (e.1 == role) := Value.text_beq e.1 role
    rw [hsame, hv.name, ih]
    split <;> rfl

theorem mapM_definition {vs : List Value} {defined : Params}
    (h : List.Forall₂ IsDefinition vs defined) :
    vs.mapM definition = .ok (defined.map (Prod.map .text id)) := by
  induction h with
  | nil => rfl
  | @cons v d vs defined hv _ ih =>
    have hdefinition : definition v = .ok (.text d.1, d.2) := by
      rw [definition, hv.name]
      show (v.field "AttributeType" >>= _) = _
      rw [hv.type]
      rfl
    rw [List.mapM_cons, hdefinition, ih]
    rfl

/-- The type of an attribute in any order of definitions, null for one that is not defined. -/
theorem typeOf_eq {defined : Params} (hnodup : (defined.map Prod.fst).Nodup) (name : String) :
    typeOf (Entries.ofPairs (defined.map (Prod.map .text id))) (.text name) =
      .ok ((Entries.get? name defined).getD .null) := by
  have hkeys : ((defined.map (Prod.map Value.text id)).map Prod.fst).Nodup := by
    have hnames : (defined.map (Prod.map Value.text id)).map Prod.fst =
        (defined.map Prod.fst).map Value.text := by
      rw [List.map_map, List.map_map]
      rfl
    rw [hnames]
    exact List.Pairwise.map _ (fun _ _ => mt Value.text.inj) hnodup
  have hpairs : Entries.ofPairs (defined.map (Prod.map Value.text id)) =
      defined.map (Prod.map Value.text id) := by
    refine Entries.merge_of_nodup (fun f hf => ?_) hkeys
    obtain ⟨d, -, rfl⟩ := List.mem_map.mp hf
    exact Value.sole_text d.1
  rw [hpairs]
  show Except.ok ((Entries.get? (.text name) (defined.map (Prod.map Value.text id))).getD .null) = _
  rw [Entries.get?_map Value.text_beq, Option.map_id]
  rfl

/-! ## The schema of the fields -/

/-- A name as the value of a field. -/
def nameValue (name : Option String) : Value :=
  (name.map .text).getD .null

/-- A type as the value of a field. -/
def typeValue (type : Option KeyType) : Value :=
  (type.map fun t => .text t.name).getD .null

theorem optional_text (name : Option String) :
    Field.optional Field.text (nameValue name) = .taken name := by
  cases name <;> rfl

theorem optional_choice (type : Option KeyType) :
    Field.optional (Field.choice KeyType.ofName?) (typeValue type) = .taken type := by
  rcases type with _ | t
  · rfl
  · cases t <;> rfl

/-- The fields of a schema make the schema. -/
theorem ofFields_eq (s : Schema) :
    ofFields [("hash_key", nameValue s.hashKey), ("hash_type", typeValue s.hashType),
      ("range_key", nameValue s.rangeKey), ("range_type", typeValue s.rangeType)] = .ok s := by
  show Checked.toOutcome
    (Schema.mk <$> (Field.optional Field.text (nameValue s.hashKey)).under _ <*>
    (Field.optional (Field.choice KeyType.ofName?) (typeValue s.hashType)).under _ <*>
    (Field.optional Field.text (nameValue s.rangeKey)).under _ <*>
    (Field.optional (Field.choice KeyType.ofName?) (typeValue s.rangeType)).under _) = _
  simp only [optional_text, optional_choice]
  rfl

/-! ## The schema of a description -/

/-- What a description comes to once its lists are read. -/
theorem ofDescription_of_lists {listed : List (String × String)} {defined : Params}
    (hlisted : Lists IsElement description "KeySchema" listed)
    (hdefined : Lists IsDefinition description "AttributeDefinitions" defined) :
    ∃ elements, described (.map description) "KeySchema" = .ok elements ∧
      ofDescription (.map description) =
        match Entries.get? "HASH" listed with
        | none => .error (noHashKey
            ((Entries.get? (.text "TableName") description).getD .null) elements)
        | some hash =>
          let definitions := Entries.ofPairs (defined.map (Prod.map .text id))
          let range := nameValue (Entries.get? "RANGE" listed)
          Outcome.ofFault (typeOf definitions (.text hash)) >>= fun hashType =>
            Outcome.ofFault (if range.isTruthy then typeOf definitions range else .ok .null) >>=
              fun rangeType => ofFields [("hash_key", .text hash), ("hash_type", hashType),
                ("range_key", range), ("range_type", rangeType)] := by
  obtain ⟨elements, vs, helements, hvs, htold⟩ := hlisted.described
  obtain ⟨v, ws, hv, hws, hdefs⟩ := hdefined.described
  refine ⟨elements, helements, ?_⟩
  have hparts : ∀ role, attributeOf role vs = .ok (nameValue (Entries.get? role listed)) :=
    fun role => attributeOf_eq htold
  have hpairs : (described (.map description) "AttributeDefinitions" >>= fun v =>
      v.elements >>= List.mapM definition) = .ok (defined.map (Prod.map .text id)) := by
    rw [hv]
    show (v.elements >>= _) = _
    rw [hws]
    exact mapM_definition hdefs
  unfold ofDescription
  rw [helements]
  show (Outcome.ofFault (described (.map description) "AttributeDefinitions" >>= fun v =>
    v.elements >>= List.mapM definition) >>= _) = _
  rw [hpairs]
  show (Outcome.ofFault elements.elements >>= _) = _
  rw [hvs]
  show (Outcome.ofFault (attributeOf "HASH" vs) >>= _) = _
  rw [hparts]
  show (Outcome.ofFault (attributeOf "RANGE" vs) >>= _) = _
  rw [hparts]
  cases Entries.get? "HASH" listed with
  | none => rfl
  | some hash => rfl

/-- A defined attribute has its type, in any order of definitions and with any others. -/
theorem typeOf_of_mem {defined all : Params} (h : defined.Perm all)
    (hnodup : (all.map Prod.fst).Nodup) {d : String × Value} (hd : d ∈ all) :
    typeOf (Entries.ofPairs (defined.map (Prod.map .text id))) (.text d.1) = .ok d.2 := by
  have hnames : (defined.map Prod.fst).Nodup := (h.map Prod.fst).nodup_iff.mpr hnodup
  rw [typeOf_eq hnames, Entries.get?_perm h hnames,
    Entries.get?_of_mem (Entries.sole_of_lawful d.1) hnodup hd]
  rfl

/-- The roles of a full schema are distinct. -/
theorem IsFull.get?_listed (h : s.IsFull) {listed : List (String × String)}
    (hperm : listed.Perm s.roles) :
    Entries.get? "HASH" listed = s.hashKey ∧ Entries.get? "RANGE" listed = s.rangeKey := by
  have hnodup : (s.roles.map Prod.fst).Nodup := by
    cases h with
    | hashOnly => exact List.pairwise_singleton _ _
    | ranged =>
      show ["HASH", "RANGE"].Nodup
      decide
  have hlisted : (listed.map Prod.fst).Nodup := (hperm.map Prod.fst).nodup_iff.mpr hnodup
  rw [Entries.get?_perm hperm hlisted, Entries.get?_perm hperm hlisted]
  cases h with
  | hashOnly => exact ⟨rfl, rfl⟩
  | ranged => exact ⟨rfl, rfl⟩

/-- The lists of a description in any order, with any further definitions, give the schema. And a
description that lists no hash attribute, or nothing, is refused. -/
theorem ofDescription_described {listed : List (String × String)} {defined : Params}
    (hlisted : Lists IsElement description "KeySchema" listed)
    (hdefined : Lists IsDefinition description "AttributeDefinitions" defined) :
    (∀ (s : Schema) (others : Params), s.IsFull → listed.Perm s.roles →
      defined.Perm (s.definitions ++ others) → ((s.definitions ++ others).map Prod.fst).Nodup →
      ofDescription (.map description) = .ok s) ∧
    ((∀ e ∈ listed, e.1 ≠ "HASH") → ∃ elements, ofDescription (.map description) =
      .error (noHashKey ((Entries.get? (.text "TableName") description).getD .null) elements)) := by
  obtain ⟨elements, -, hread⟩ := ofDescription_of_lists hlisted hdefined
  rw [hread]
  constructor
  · intro s others hfull hroles hdefs hnodup
    obtain ⟨hhash, hrange⟩ := hfull.get?_listed hroles
    rw [hhash, hrange]
    cases hfull with
    | @hashOnly hash hashType hne =>
      have htype := typeOf_of_mem hdefs hnodup (d := (hash, .text hashType.name))
        List.mem_cons_self
      dsimp only
      rw [htype]
      exact ofFields_eq ⟨some hash, some hashType, none, none⟩
    | @ranged hash range hashType rangeType hne rne names_ne =>
      have htype := typeOf_of_mem hdefs hnodup (d := (hash, .text hashType.name))
        List.mem_cons_self
      have htype' := typeOf_of_mem hdefs hnodup (d := (range, .text rangeType.name))
        (List.mem_cons_of_mem _ List.mem_cons_self)
      have hvalue : nameValue (some range) = .text range := rfl
      have htruthy : (Value.text range).isTruthy = true := bne_iff_ne.mpr rne
      dsimp only
      rw [htype, hvalue, if_pos htruthy, htype']
      exact ofFields_eq ⟨some hash, some hashType, some range, some rangeType⟩
  · intro hnone
    have hmiss : Entries.get? "HASH" listed = none := by
      refine Entries.get?_of_notMem (Entries.sole_of_lawful _) fun hmem => ?_
      obtain ⟨e, he, hrole⟩ := List.mem_map.mp hmem
      exact hnone e he hrole
    rw [hmiss]
    exact ⟨elements, rfl⟩

/-- A table with a secondary index. The range attribute comes first in its description. -/
def indexedDescription : List (Value × Value) :=
  [(.text "TableName", .text "tracks"),
    (.text "KeySchema", .list [
      .record [("AttributeName", .text "at"), ("KeyType", .text "RANGE")],
      .record [("AttributeName", .text "id"), ("KeyType", .text "HASH")]]),
    (.text "AttributeDefinitions", .list [
      .record [("AttributeName", .text "at"), ("AttributeType", .text "N")],
      .record [("AttributeName", .text "owner"), ("AttributeType", .text "B")],
      .record [("AttributeName", .text "id"), ("AttributeType", .text "S")]])]

theorem ofDescription_described_indexed :
    ofDescription (.map indexedDescription) =
      .ok ⟨some "id", some .text, some "at", some .number⟩ ∧
    ∃ elements, ofDescription (.map [(.text "TableName", .text "tracks")]) =
      .error (noHashKey (.text "tracks") elements) := by
  have hlisted : Lists IsElement indexedDescription "KeySchema"
      [("RANGE", "at"), ("HASH", "id")] :=
    .seq rfl (.cons ⟨rfl, rfl⟩ (.cons ⟨rfl, rfl⟩ .nil))
  have hdefined : Lists IsDefinition indexedDescription "AttributeDefinitions"
      [("at", .text "N"), ("owner", .text "B"), ("id", .text "S")] :=
    .seq rfl (.cons ⟨rfl, rfl⟩ (.cons ⟨rfl, rfl⟩ (.cons ⟨rfl, rfl⟩ .nil)))
  constructor
  · refine (ofDescription_described hlisted hdefined).1 _ [("owner", .text "B")]
      (.ranged (by decide) (by decide) (by decide)) (.swap _ _ _) ?_ ?_
    · show ([("at", .text "N"), ("owner", .text "B")] ++ [("id", .text "S")] : Params).Perm
        ([("id", .text "S")] ++ [("at", .text "N"), ("owner", .text "B")])
      exact List.perm_append_comm
    · show ["id", "at", "owner"].Nodup
      decide
  · exact (ofDescription_described (.nothing rfl) (.nothing rfl)).2 nofun

end Schema

end ItemStore
