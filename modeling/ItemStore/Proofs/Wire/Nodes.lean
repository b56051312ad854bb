import ItemStore.Proofs.Value.Entries
import ItemStore.Wire.Decode

/-
  Which values are read, and what is told of those that are not. Reading goes through a value depth
  first: from a wire value to the parts of its map, its list or its number set, in their order
  (`nodes`). A wire value is sound if it has one tag, a known one, and, as a number, a text that is
  read as one (`IsSound`). Reading returns just if all that it comes to is sound, and otherwise it
  tells of the first wire value that is not (`IsTree.goes`); what it tells is `objection`.

  The payloads of numbers, sets, lists and maps are asked to be texts, lists and maps (`IsTree`), as
  those of the service are. How many tags a map has, and whether they are known, is left open at
  every depth. Payloads of other kinds are gone through as well, or are faults; of them it is only
  said that nothing else is raised than marshalling failures and faults (`onlyReads_fromWire`).
-/

namespace ItemStore

namespace Tag

/-- The payloads that are asked for under a tag. -/
def Takes : Tag → Value → Prop
  | .n, payload => ∃ s, payload = .text s
  | .ns, payload => ∃ texts : List String, payload = .list (texts.map .text)
  | .ss, payload | .bs, payload | .l, payload => ∃ xs, payload = .list xs
  | .m, payload => ∃ es, payload = .map es
  | _, _ => True

/-- Only the text of a tag names it. -/
theorem eq_of_ofValue? {v : Value} {t : Tag} (h : ofValue? v = some t) : v = .text t.text := by
  have hsame : v.isText t.text = true := List.find?_some (p := fun t : Tag => v.isText t.text) h
  exact (Value.sole_text t.text v).mp hsame

theorem ofValue?_text (t : Tag) : ofValue? (.text t.text) = some t := by
  cases t <;> decide +kernel

end Tag

/-- A wire value has one tag and one payload. -/
theorem Wire.eq_of_tagged {t u : Tag} {x y : Value} (h : tagged t x = tagged u y) :
    t = u ∧ x = y := by
  obtain ⟨hentry, -⟩ := List.cons.inj (Value.map.inj h)
  obtain ⟨htext, hpayload⟩ := Prod.mk.inj hentry
  have htag := congrArg Tag.ofValue? htext
  rw [Tag.ofValue?_text, Tag.ofValue?_text] at htag
  exact ⟨Option.some.inj htag, hpayload⟩

/-- The failures of reading: of what is no wire value, and faults of payloads. -/
def Failure.IsOfReading : Failure → Prop
  | .marshal .. | .fault .. => True
  | _ => False

namespace Value

/-- A tree of wire values: maps from tags to payloads, any number of them, in which maps and lists
have trees as their parts, and other values in the place of such maps. -/
inductive IsTree : Value → Prop
  | other {v : Value} (h : ∀ es, v ≠ .map es) : IsTree v
  | node {es : List (Value × Value)}
      (takes : ∀ e ∈ es, ∀ t, Tag.ofValue? e.1 = some t → t.Takes e.2)
      (attributes : ∀ tag fields, (tag, .map fields) ∈ es → Tag.ofValue? tag = some .m →
        ∀ f ∈ fields, IsTree f.2)
      (elements : ∀ tag xs, (tag, .list xs) ∈ es → Tag.ofValue? tag = some .l →
        ∀ x ∈ xs, IsTree x) : IsTree (.map es)

mutual

/-- The wire values that reading comes to, each in front of its parts. Those of a number set are its
numbers. -/
def nodes : Value → List Value
  | .map [(tag, payload)] =>
    .map [(tag, payload)] ::
      match Tag.ofValue? tag with
      | some .m =>
        match payload with
        | .map es => nodesFields es
        | _ => []
      | some .l =>
        match payload with
        | .seq _ xs => nodesAll xs
        | _ => []
      | some .ns =>
        match payload with
        | .seq _ xs => xs.map (Wire.tagged .n)
        | _ => []
      | _ => []
  | v => [v]

/-- The wire values of a list and of what is in them. -/
def nodesAll : List Value → List Value
  | [] => []
  | x :: xs => nodes x ++ nodesAll xs

/-- The wire values of attributes and of what is in them. -/
def nodesFields : List (Value × Value) → List Value
  | [] => []
  | (_, x) :: es => nodes x ++ nodesFields es

end

/-- A wire value with one tag, a known one, and, as a number, with a text that is read as one. -/
def IsSound (decimalNumbers : Bool) (w : Value) : Prop :=
  ∃ t payload, w = Wire.tagged t payload ∧
    (t = .n → ∃ s x, payload = .text s ∧ readNumber decimalNumbers (.text s) = .ok x)

/-- What is told of a value that is no sound wire value. -/
def objection (decimalNumbers : Bool) : Value → Failure
  | .map [(tag, payload)] =>
    match Tag.ofValue? tag with
    | none => unknownTag tag (.map [(tag, payload)])
    | some _ =>
      .marshal ("Invalid number payload: " ++ payload.quoted) (.map [(tag, payload)])
        (some (.fault (if decimalNumbers then .badDecimal else .badValue)))
  | v => v.notTagged

variable {decimalNumbers : Bool}

/-- It is a marshalling failure that carries the value. -/
theorem exists_objection (decimalNumbers : Bool) (w : Value) :
    ∃ message cause, w.objection decimalNumbers = .marshal message w cause := by
  unfold objection
  split
  · split <;> exact ⟨_, _, rfl⟩
  · exact ⟨_, _, rfl⟩

/-! ## Single wire values -/

theorem isSound_tagged {t : Tag} {payload : Value} (h : t ≠ .n) :
    IsSound decimalNumbers (Wire.tagged t payload) :=
  ⟨t, payload, rfl, fun ht => absurd ht h⟩

theorem isSound_number {s : String} : IsSound decimalNumbers (Wire.tagged .n (.text s)) ↔
    ∃ x, readNumber decimalNumbers (.text s) = .ok x := by
  constructor
  · rintro ⟨t, payload, hw, hnumber⟩
    obtain ⟨rfl, rfl⟩ := Wire.eq_of_tagged hw
    obtain ⟨s', x, hs, hx⟩ := hnumber rfl
    rw [← text.inj hs] at hx
    exact ⟨x, hx⟩
  · rintro ⟨x, hx⟩
    exact ⟨.n, _, rfl, fun _ => ⟨s, x, rfl, hx⟩⟩

theorem not_isSound_of_ofValue? {tag payload : Value} (h : Tag.ofValue? tag = none) :
    ¬IsSound decimalNumbers (.map [(tag, payload)]) := by
  rintro ⟨t, payload', hw, -⟩
  obtain ⟨hentry, -⟩ := List.cons.inj (map.inj hw)
  rw [(Prod.mk.inj hentry).1, Tag.ofValue?_text] at h
  cases h

theorem not_isSound_of_ne {w : Value} (h : ∀ tag payload, w ≠ .map [(tag, payload)]) :
    ¬IsSound decimalNumbers w :=
  fun ⟨_, payload, hw, _⟩ => h _ payload hw

/-- The number that a text writes for each of the two modes, if it writes one. -/
def writtenNumber? (decimalNumbers : Bool) (s : String) : Option Value :=
  if decimalNumbers then (Number.readDecimal? s.toList).map .decimal
  else if isFractional s then (Number.readBinary64? s.toList).map .float
  else (Number.readInt? s.toList).map .int

/-- A text that is no number is told with the mode's own fault. -/
theorem readNumber_eq_elim (decimalNumbers : Bool) (s : String) :
    readNumber decimalNumbers (.text s) = (writtenNumber? decimalNumbers s).elim
      (.error ((Wire.tagged .n (.text s)).objection decimalNumbers)) .ok := by
  cases decimalNumbers with
  | true =>
    rw [readNumber, if_pos rfl, toDecimal, writtenNumber?, if_pos rfl]
    cases Number.readDecimal? s.toList <;> rfl
  | false =>
    rw [readNumber, if_neg Bool.false_ne_true, toPlainNumber, writtenNumber?,
      if_neg Bool.false_ne_true]
    cases isFractional s with
    | true =>
      rw [if_pos rfl, if_pos rfl]
      cases Number.readBinary64? s.toList <;> rfl
    | false =>
      rw [if_neg Bool.false_ne_true, if_neg Bool.false_ne_true]
      cases Number.readInt? s.toList <;> rfl

theorem readNumber_text_cases (decimalNumbers : Bool) (s : String) :
    (∃ x, readNumber decimalNumbers (.text s) = .ok x) ∨
      readNumber decimalNumbers (.text s) =
        .error ((Wire.tagged .n (.text s)).objection decimalNumbers) := by
  rw [readNumber_eq_elim]
  cases writtenNumber? decimalNumbers s with
  | none => exact .inr rfl
  | some x => exact .inl ⟨x, rfl⟩

/-! ## Outcomes of a traversal -/

/-- An outcome that goes by wire values: an answer if all are sound, else what is told of the first
that is not. -/
inductive GoesBy (decimalNumbers : Bool) {α : Type} : List Value → Outcome α → Prop
  | nil (a : α) : GoesBy decimalNumbers [] (.ok a)
  | cons {w : Value} {ws : List Value} {x : Outcome α} (hw : IsSound decimalNumbers w)
      (h : GoesBy decimalNumbers ws x) : GoesBy decimalNumbers (w :: ws) x
  | refused {w : Value} (hw : ¬IsSound decimalNumbers w) (ws : List Value) :
    GoesBy decimalNumbers (w :: ws) (.error (w.objection decimalNumbers))

namespace GoesBy

variable {α β : Type} {ws ws' : List Value} {x : Outcome α}

/-- What is done with the answer afterwards goes by further wire values. -/
theorem bind (h : GoesBy decimalNumbers ws x) {f : α → Outcome β}
    (hf : ∀ a, GoesBy decimalNumbers ws' (f a)) : GoesBy decimalNumbers (ws ++ ws') (x >>= f) := by
  induction h with
  | nil a => exact hf a
  | cons hw _ ih => exact .cons hw ih
  | refused hw ws => exact .refused hw (ws ++ ws')

theorem map (h : GoesBy decimalNumbers ws x) (g : α → β) : GoesBy decimalNumbers ws (g <$> x) := by
  induction h with
  | nil a => exact .nil (g a)
  | cons hw _ ih => exact .cons hw ih
  | refused hw ws => exact .refused hw ws

/-- There is an answer just if all wire values are sound. -/
theorem exists_ok_iff (h : GoesBy decimalNumbers ws x) :
    (∃ a, x = .ok a) ↔ ∀ w ∈ ws, IsSound decimalNumbers w := by
  induction h with
  | nil a => exact ⟨fun _ => List.forall_mem_nil _, fun _ => ⟨a, rfl⟩⟩
  | cons hw _ ih =>
    rw [ih, List.forall_mem_cons]
    exact ⟨fun hws => ⟨hw, hws⟩, And.right⟩
  | refused hw ws => exact ⟨nofun, fun hws => absurd (hws _ List.mem_cons_self) hw⟩

/-- If there is none, there is a marshalling failure. -/
theorem ok_or_marshal (h : GoesBy decimalNumbers ws x) :
    (∃ a, x = .ok a) ∨ ∃ message w cause, x = .error (.marshal message w cause) := by
  induction h with
  | nil a => exact .inl ⟨a, rfl⟩
  | cons _ _ ih => exact ih
  | @refused w _ _ =>
    obtain ⟨message, cause, hobjection⟩ := exists_objection decimalNumbers w
    exact .inr ⟨message, w, cause, congrArg _ hobjection⟩

end GoesBy

/-! ## Reading -/

theorem fromWireAll_goes {xs : List Value}
    (h : ∀ x ∈ xs, GoesBy decimalNumbers x.nodes (fromWire decimalNumbers x)) :
    GoesBy decimalNumbers (nodesAll xs) (fromWireAll decimalNumbers xs) := by
  induction xs with
  | nil => exact .nil []
  | cons x xs ih =>
    rw [List.forall_mem_cons] at h
    rw [nodesAll, fromWireAll]
    exact h.1.bind fun v => (ih h.2).map (v :: ·)

theorem fromWireFields_goes {es : List (Value × Value)}
    (h : ∀ e ∈ es, GoesBy decimalNumbers e.2.nodes (fromWire decimalNumbers e.2)) :
    GoesBy decimalNumbers (nodesFields es) (fromWireFields decimalNumbers es) := by
  induction es with
  | nil => exact .nil []
  | cons e es ih =>
    rw [List.forall_mem_cons] at h
    rw [nodesFields, fromWireFields]
    exact h.1.bind fun v => (ih h.2).map ((e.1, v) :: ·)

theorem readNumber_goes (decimalNumbers : Bool) (s : String) :
    GoesBy decimalNumbers [Wire.tagged .n (.text s)] (readNumber decimalNumbers (.text s)) := by
  rcases readNumber_text_cases decimalNumbers s with ⟨x, hx⟩ | hx
  · rw [hx]
    exact .cons (isSound_number.mpr ⟨x, hx⟩) (.nil x)
  · rw [hx]
    refine .refused (fun hsound => ?_) []
    obtain ⟨x, hok⟩ := isSound_number.mp hsound
    rw [hx] at hok
    cases hok

theorem readNumbers_goes (decimalNumbers : Bool) (texts : List String) :
    GoesBy decimalNumbers ((texts.map Value.text).map (Wire.tagged .n))
      ((texts.map Value.text).mapM (readNumber decimalNumbers)) := by
  induction texts with
  | nil => exact .nil []
  | cons s texts ih =>
    rw [List.map_cons, List.map_cons, List.mapM_cons]
    exact (readNumber_goes decimalNumbers s).bind fun x => ih.map (x :: ·)

/-- A wire value under a known tag is sound if it is no number, and it is read part by part. -/
theorem fromWire_goes_of_tag {t : Tag} {payload : Value} (takes : t.Takes payload)
    (attributes : ∀ fields, payload = .map fields → t = .m →
      ∀ f ∈ fields, GoesBy decimalNumbers f.2.nodes (fromWire decimalNumbers f.2))
    (elements : ∀ xs, payload = .list xs → t = .l →
      ∀ x ∈ xs, GoesBy decimalNumbers x.nodes (fromWire decimalNumbers x)) :
    GoesBy decimalNumbers (nodes (Wire.tagged t payload))
      (fromWire decimalNumbers (Wire.tagged t payload)) := by
  cases t with
  | n =>
    obtain ⟨s, rfl⟩ := takes
    exact readNumber_goes decimalNumbers s
  | ns =>
    obtain ⟨texts, rfl⟩ := takes
    exact .cons (isSound_tagged nofun) ((readNumbers_goes decimalNumbers texts).map Value.list)
  | ss =>
    obtain ⟨xs, rfl⟩ := takes
    exact .cons (isSound_tagged nofun) (.nil _)
  | bs =>
    obtain ⟨xs, rfl⟩ := takes
    exact .cons (isSound_tagged nofun) (.nil _)
  | l =>
    obtain ⟨xs, rfl⟩ := takes
    have hall := fromWireAll_goes (elements xs rfl rfl)
    exact .cons (isSound_tagged nofun) (hall.map Value.list)
  | m =>
    obtain ⟨fields, rfl⟩ := takes
    have hfields := fromWireFields_goes (attributes fields rfl rfl)
    exact .cons (isSound_tagged nofun) (hfields.map Value.map)
  | _ => exact .cons (isSound_tagged nofun) (.nil _)

theorem isTree_tagged {t : Tag} {payload : Value} (takes : t.Takes payload)
    (attributes : ∀ fields, payload = .map fields → t = .m → ∀ f ∈ fields, IsTree f.2)
    (elements : ∀ xs, payload = .list xs → t = .l → ∀ x ∈ xs, IsTree x) :
    IsTree (Wire.tagged t payload) := by
  refine .node (fun e he t' ht => ?_) (fun tag fields hmem htag => ?_) fun tag xs hmem htag => ?_
  · obtain rfl := List.mem_singleton.mp he
    rw [Tag.ofValue?_text] at ht
    cases ht
    exact takes
  · obtain ⟨rfl, rfl⟩ := Prod.mk.inj (List.mem_singleton.mp hmem)
    rw [Tag.ofValue?_text] at htag
    exact attributes fields rfl (Option.some.inj htag)
  · obtain ⟨rfl, rfl⟩ := Prod.mk.inj (List.mem_singleton.mp hmem)
    rw [Tag.ofValue?_text] at htag
    exact elements xs rfl (Option.some.inj htag)

/-- Under the other tags there are no parts. -/
theorem isTree_leaf {t : Tag} {payload : Value} (takes : t.Takes payload) (hm : t ≠ .m)
    (hl : t ≠ .l) : IsTree (Wire.tagged t payload) :=
  isTree_tagged takes (fun _ _ h => absurd h hm) fun _ _ h => absurd h hl

/-- Reading a tree goes by the wire values that it comes to. -/
theorem IsTree.goes {v : Value} (h : IsTree v) (decimalNumbers : Bool) :
    GoesBy decimalNumbers v.nodes (fromWire decimalNumbers v) := by
  induction h with
  | @other v hother =>
    have hnode :
        v.nodes = [v] ∧ fromWire decimalNumbers v = .error (v.objection decimalNumbers) := by
      cases v with
      | map es => exact absurd rfl (hother es)
      | _ => exact ⟨rfl, rfl⟩
    rw [hnode.1, hnode.2]
    exact .refused (not_isSound_of_ne fun tag payload hw => hother _ hw) []
  | @node es takes _ _ attributes elements =>
    match es with
    | [] => exact .refused (not_isSound_of_ne (by simp)) []
    | _ :: _ :: _ => exact .refused (not_isSound_of_ne (by simp)) []
    | [(tag, payload)] =>
      cases htag : Tag.ofValue? tag with
      | none =>
        unfold nodes fromWire
        rw [htag]
        have hobjection : (Value.map [(tag, payload)]).objection decimalNumbers =
            unknownTag tag (.map [(tag, payload)]) := by
          rw [objection, htag]
        rw [← hobjection]
        exact .refused (not_isSound_of_ofValue? htag) []
      | some t =>
        obtain rfl := Tag.eq_of_ofValue? htag
        refine fromWire_goes_of_tag (takes _ List.mem_cons_self t htag) ?_ ?_
        · rintro fields rfl rfl
          exact attributes _ fields List.mem_cons_self htag
        · rintro xs rfl rfl
          exact elements _ xs List.mem_cons_self htag

/-- An item is read attribute by attribute, the empty one too. -/
theorem fromItem_map (decimalNumbers : Bool) (es : List (Value × Value)) :
    fromItem decimalNumbers (.map es) = Value.map <$> fromWireFields decimalNumbers es := by
  cases es <;> rfl

/-- Reading an item goes by its attributes. -/
theorem fromItem_goes {es : List (Value × Value)} (h : ∀ e ∈ es, IsTree e.2)
    (decimalNumbers : Bool) :
    GoesBy decimalNumbers (nodesFields es) (fromItem decimalNumbers (.map es)) := by
  rw [fromItem_map]
  exact (fromWireFields_goes fun e he => (h e he).goes decimalNumbers).map Value.map

/-- An outcome that fails, if at all, with a failure of reading. -/
def OnlyReads {α : Type} (x : Outcome α) : Prop :=
  ∀ f, x = .error f → f.IsOfReading

namespace OnlyReads

variable {α β : Type}

theorem ok (a : α) : OnlyReads (.ok a) :=
  nofun

theorem error {f : Failure} (h : f.IsOfReading) : OnlyReads (.error f : Outcome α) := by
  rintro _ ⟨⟩
  exact h

theorem ofFault (x : Except Fault α) : OnlyReads (Outcome.ofFault x) := by
  cases x with
  | error f => exact error trivial
  | ok a => exact ok a

theorem bind {x : Outcome α} {f : α → Outcome β} (hx : OnlyReads x)
    (hf : ∀ a, OnlyReads (f a)) : OnlyReads (x >>= f) := by
  cases x with
  | error e => exact error (hx e rfl)
  | ok a => exact hf a

theorem map {x : Outcome α} (hx : OnlyReads x) (g : α → β) : OnlyReads (g <$> x) := by
  cases x with
  | error e => exact error (hx e rfl)
  | ok a => exact ok (g a)

theorem mapM {f : α → Outcome β} (hf : ∀ a, OnlyReads (f a)) (xs : List α) :
    OnlyReads (xs.mapM f) := by
  induction xs with
  | nil => exact ok []
  | cons x xs ih =>
    rw [List.mapM_cons]
    exact (hf x).bind fun y => ih.bind fun ys => ok (y :: ys)

end OnlyReads

theorem onlyReads_readNumber (decimalNumbers : Bool) (payload : Value) :
    OnlyReads (readNumber decimalNumbers payload) := by
  unfold readNumber
  dsimp only
  split
  · exact .ok _
  · exact .error trivial
  · exact .error trivial

theorem onlyReads_fromOtherList (payload : Value) : OnlyReads (fromOtherList payload) := by
  unfold fromOtherList
  split
  · exact .error trivial
  · exact .ok _
  · exact .error trivial

/-- A value with one tag, of whose parts it is known what they raise. -/
theorem onlyReads_entry (decimalNumbers : Bool) (tag payload : Value)
    (attributes : ∀ es, payload = .map es → OnlyReads (fromWireFields decimalNumbers es))
    (elements : ∀ kind xs, payload = .seq kind xs → OnlyReads (fromWireAll decimalNumbers xs)) :
    OnlyReads (fromWire decimalNumbers (.map [(tag, payload)])) := by
  unfold fromWire
  cases Tag.ofValue? tag with
  | none => exact .error trivial
  | some t =>
    cases t with
    | s | bool | null | b => exact .ok _
    | n => exact onlyReads_readNumber decimalNumbers payload
    | ss | bs => exact (OnlyReads.ofFault _).map Value.list
    | ns =>
      exact (OnlyReads.ofFault _).bind fun texts =>
        (OnlyReads.mapM (onlyReads_readNumber decimalNumbers) texts).map Value.list
    | m =>
      dsimp only
      split
      · next es => exact (attributes es rfl).map Value.map
      · split
        · exact .error trivial
        · exact .ok _
    | l =>
      dsimp only
      split
      · next kind xs => exact (elements kind xs rfl).map Value.list
      · exact onlyReads_fromOtherList _

mutual

/-- Whatever is read, nothing is raised but failures of reading. -/
theorem onlyReads_fromWire (decimalNumbers : Bool) :
    ∀ v : Value, OnlyReads (fromWire decimalNumbers v)
  | .map [(tag, payload)] =>
    onlyReads_entry decimalNumbers tag payload
      (fun es _ => onlyReads_fromWireFields decimalNumbers es)
      fun _ xs _ => onlyReads_fromWireAll decimalNumbers xs
  | .map [] | .map (_ :: _ :: _) | .null | .bool _ | .int _ | .float _ | .decimal _ | .text _
  | .bytes _ _ | .seq _ _ | .date _ | .timestamp _ | .foreign => .error trivial

theorem onlyReads_fromWireAll (decimalNumbers : Bool) :
    ∀ xs : List Value, OnlyReads (fromWireAll decimalNumbers xs)
  | [] => .ok []
  | x :: xs =>
    (onlyReads_fromWire decimalNumbers x).bind fun v =>
      (onlyReads_fromWireAll decimalNumbers xs).map (v :: ·)

theorem onlyReads_fromWireFields (decimalNumbers : Bool) :
    ∀ es : List (Value × Value), OnlyReads (fromWireFields decimalNumbers es)
  | [] => .ok []
  | (k, x) :: es =>
    (onlyReads_fromWire decimalNumbers x).bind fun v =>
      (onlyReads_fromWireFields decimalNumbers es).map ((k, v) :: ·)

end

theorem onlyReads_fromItem (decimalNumbers : Bool) (item : Value) :
    OnlyReads (fromItem decimalNumbers item) := by
  unfold fromItem
  split
  · exact (OnlyReads.ofFault _).bind fun es =>
      (onlyReads_fromWireFields decimalNumbers es).map Value.map
  · exact .ok _

end Value

end ItemStore
