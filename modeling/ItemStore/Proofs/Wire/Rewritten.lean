import ItemStore.Proofs.Number.Decimals
import ItemStore.Proofs.Wire.Exact

/-
  Wire values that are read, numbers as decimals, and written back unchanged.

  Reading forgets which sequence was a set and which a list, and writing groups every sequence
  anew. So what is written back is the wire value with its sequences grouped: a sequence that is
  not empty and has elements of one of the tags S, N and B alone becomes the set of that tag, and
  any other a list (`Wire.regrouped`). `exists_fromWire` proves this of every wire value with
  numbers in the form of decimals, by induction on it.

  A wire value that was written from a plain one is grouped already, with one exception. Dates and
  timestamps are stored as texts but are no texts, so a sequence of texts with a date among them
  is stored as a list, and comes back as a list of texts, which is a text set
  (`hasDatedTexts`, `toWire_fromWire_toWire`).

  Not covered: binary64 numbers, which the decimal of their text does not write in the same way.
-/

namespace ItemStore

open Number (Decimal)

/-! ## Grouped sequences -/

namespace Wire

def isText : Wire → Bool
  | .s _ => true
  | _ => false

def isNumber : Wire → Bool
  | .n _ => true
  | _ => false

def isBinary : Wire → Bool
  | .b _ => true
  | _ => false

/-- The text under a text or a number tag. -/
def content : Wire → String
  | .s t => t
  | .n t => t
  | _ => ""

/-- The bytes under a binary tag. -/
def data : Wire → List UInt8
  | .b d => d
  | _ => []

/-- Whether a list is not empty and all its elements are of a class. -/
def allOf (p : Wire → Bool) (ws : List Wire) : Bool :=
  !ws.isEmpty && ws.all p

/-- The elements of a sequence as a set where they can be one, else as a list. -/
def grouped (ws : List Wire) : Wire :=
  if allOf isText ws then .ss (ws.map content)
  else if allOf isNumber ws then .ns (ws.map content)
  else if allOf isBinary ws then .bs (ws.map data)
  else .l ws

mutual

/-- The wire value with all its sequences grouped. -/
def regrouped : Wire → Wire
  | .m fields => .m (regroupedFields fields)
  | .l ws => grouped (regroupedAll ws)
  | .ss texts => grouped (texts.map .s)
  | .ns texts => grouped (texts.map .n)
  | .bs parts => grouped (parts.map .b)
  | .s t => .s t
  | .n t => .n t
  | .bool flag => .bool flag
  | .null => .null
  | .b d => .b d

/-- Wire values with all their sequences grouped. -/
def regroupedAll : List Wire → List Wire
  | [] => []
  | w :: ws => regrouped w :: regroupedAll ws

/-- Attributes with all their sequences grouped. -/
def regroupedFields : List (String × Wire) → List (String × Wire)
  | [] => []
  | (name, w) :: fields => (name, regrouped w) :: regroupedFields fields

end

theorem regroupedFields_eq_map (fields : List (String × Wire)) :
    regroupedFields fields = fields.map fun e => (e.1, regrouped e.2) := by
  induction fields with
  | nil => rfl
  | cons e fields ih => rw [regroupedFields, ih, List.map_cons]

theorem s_content {w : Wire} (h : w.isText = true) : .s w.content = w := by
  cases w <;> first | rfl | cases h

theorem n_content {w : Wire} (h : w.isNumber = true) : .n w.content = w := by
  cases w <;> first | rfl | cases h

theorem b_data {w : Wire} (h : w.isBinary = true) : .b w.data = w := by
  cases w <;> first | rfl | cases h

/-- A sequence of one class is its contents under the tag of the class. -/
theorem eq_map_of_allOf {p : Wire → Bool} {ws : List Wire} (h : allOf p ws = true)
    {tag : α → Wire} {content : Wire → α} (hp : ∀ {w}, p w = true → tag (content w) = w) :
    ws = (ws.map content).map tag := by
  rw [allOf, Bool.and_eq_true, List.all_eq_true] at h
  rw [List.map_map]
  exact (List.map_id ws).symm.trans (List.map_congr_left fun w hw => (hp (h.2 w hw)).symm)

/-- A sequence is grouped as a list, or as the set that its elements are those of. -/
theorem grouped_cases (ws : List Wire) :
    grouped ws = .l ws ∨ (∃ texts, ws = texts.map .s ∧ grouped ws = .ss texts) ∨
      (∃ texts, ws = texts.map .n ∧ grouped ws = .ns texts) ∨
      ∃ parts, ws = parts.map .b ∧ grouped ws = .bs parts := by
  unfold grouped
  split
  · next h => exact .inr (.inl ⟨_, eq_map_of_allOf h s_content, rfl⟩)
  · split
    · next h => exact .inr (.inr (.inl ⟨_, eq_map_of_allOf h n_content, rfl⟩))
    · split
      · next h => exact .inr (.inr (.inr ⟨_, eq_map_of_allOf h b_data, rfl⟩))
      · exact .inl rfl

/-- Grouping what is grouped changes nothing. -/
theorem regrouped_grouped {ws : List Wire} (h : regroupedAll ws = ws) :
    regrouped (grouped ws) = grouped ws := by
  rcases grouped_cases ws with hg | ⟨texts, hws, hg⟩ | ⟨texts, hws, hg⟩ | ⟨parts, hws, hg⟩
  · rw [hg, regrouped, h, hg]
  · rw [hg, regrouped, ← hws, hg]
  · rw [hg, regrouped, ← hws, hg]
  · rw [hg, regrouped, ← hws, hg]

/-! ## Numbers in the form of decimals -/

/-- The text of a decimal. -/
def IsDecimalText (t : String) : Prop :=
  ∃ negative coefficient exponent, Decimal.inRange coefficient exponent = true ∧
    t = String.ofList (Decimal.text (.finite negative coefficient exponent))

mutual

/-- All numbers are written as decimals are, and attributes have distinct names. -/
def Exact : Wire → Prop
  | .n t => IsDecimalText t
  | .ns texts => ∀ t ∈ texts, IsDecimalText t
  | .m fields => (fields.map Prod.fst).Nodup ∧ ExactFields fields
  | .l ws => ExactAll ws
  | _ => True

def ExactAll : List Wire → Prop
  | [] => True
  | w :: ws => Exact w ∧ ExactAll ws

def ExactFields : List (String × Wire) → Prop
  | [] => True
  | (_, w) :: fields => Exact w ∧ ExactFields fields

end

theorem exactAll_iff {ws : List Wire} : ExactAll ws ↔ ∀ w ∈ ws, Exact w := by
  induction ws with
  | nil => simp [ExactAll]
  | cons w ws ih => rw [ExactAll, ih, List.forall_mem_cons]

theorem exactFields_iff {fields : List (String × Wire)} :
    ExactFields fields ↔ ∀ e ∈ fields, Exact e.2 := by
  induction fields with
  | nil => simp [ExactFields]
  | cons e fields ih => rw [ExactFields, ih, List.forall_mem_cons]

end Wire

namespace Value

open Wire (grouped regrouped regroupedAll regroupedFields IsDecimalText)

/-! ## Sequences of plain values -/

/-- Whether a sequence is of texts and dates alone, with a date among them. -/
def isDatedTexts (xs : List Value) : Bool :=
  xs.all (fun x => x.scalarShape == .text || x.scalarShape == .timestamp) &&
    xs.any fun x => x.scalarShape == .timestamp

theorem wireFormAll_eq_map (xs : List Value) : wireFormAll xs = xs.map wireForm := by
  induction xs with
  | nil => rfl
  | cons x xs ih => rw [wireFormAll, ih, List.map_cons]

/-- Texts and dates are stored as texts, finite numbers as numbers, bytes of any kind as bytes,
and nothing else is. -/
theorem class_wireForm (x : Value) :
    x.wireForm.isText = (x.scalarShape == .text || x.scalarShape == .timestamp) ∧
      x.wireForm.isNumber = (x.scalarShape == .number) ∧
      x.wireForm.isBinary = (x.scalarShape == .binary) := by
  cases x with
  | float x =>
    rw [wireForm, scalarShape]
    split <;> exact ⟨rfl, rfl, rfl⟩
  | decimal d =>
    rw [wireForm, scalarShape]
    split <;> exact ⟨rfl, rfl, rfl⟩
  | seq kind xs =>
    rw [wireForm, scalarShape]
    rcases sequenceShape_cases xs with hx | ⟨hx, -⟩ | ⟨hx, -⟩ | ⟨hx, -⟩ <;> rw [hx] <;>
      exact ⟨rfl, rfl, rfl⟩
  | _ => simp [wireForm, scalarShape, Wire.isText, Wire.isNumber, Wire.isBinary]

/-- A text or a number is stored as it shows. -/
theorem content_wireForm {x : Value} (h : x.scalarShape = .text ∨ x.scalarShape = .number) :
    x.wireForm.content = x.shown := by
  cases x with
  | float x =>
    rw [scalarShape] at h
    rw [wireForm]
    split
    · rfl
    · next hx => simp [hx] at h
  | decimal d =>
    rw [scalarShape] at h
    rw [wireForm]
    split
    · rfl
    · next hd => simp [hd] at h
  | text s => simp [wireForm, Wire.content, shown]
  | int n => simp [wireForm, Wire.content, shown, quoted]
  | _ => simp [scalarShape] at h

theorem data_wireForm {x : Value} (h : x.scalarShape = .binary) : x.wireForm.data = x.data := by
  cases x with
  | float x =>
    rw [scalarShape] at h
    split at h <;> cases h
  | decimal d =>
    rw [scalarShape] at h
    split at h <;> cases h
  | bytes kind d => simp [wireForm, Wire.data, data]
  | _ => cases h

/-- Values of some shapes are stored under one tag if they all have the shape of the tag. -/
theorem allOf_wireForm {p : Wire → Bool} {shape : Shape} {xs : List Value}
    (h : (xs.all fun x => p x.wireForm) = xs.all fun x => x.scalarShape == shape) :
    Wire.allOf p (xs.map wireForm) = allOfShape shape xs := by
  rw [Wire.allOf, allOfShape, List.all_map, ← h, List.isEmpty_map]
  rfl

/-- A sequence of texts and dates that is not one with dates is of texts. -/
theorem all_isText_wireForm {xs : List Value} (h : isDatedTexts xs = false) :
    (xs.all fun x => x.wireForm.isText) = xs.all fun x => x.scalarShape == .text := by
  simp only [(class_wireForm _).1]
  rw [isDatedTexts, Bool.and_eq_false_iff, List.any_eq_false] at h
  rcases h with h | h
  · rw [h, eq_comm, Bool.eq_false_iff]
    rw [Bool.eq_false_iff] at h
    refine fun hall => h (List.all_eq_true.mpr fun x hx => ?_)
    rw [List.all_eq_true.mp hall x hx, Bool.true_or]
  · rw [Bool.eq_iff_iff, List.all_eq_true, List.all_eq_true]
    refine forall₂_congr fun x hx => ?_
    rw [Bool.eq_false_iff.mpr (h x hx), Bool.or_false]

/-- Unless it is of texts and dates, a sequence is stored with its elements grouped. -/
theorem wireForm_seq {xs : List Value} (h : isDatedTexts xs = false) (kind : SeqKind) :
    wireForm (.seq kind xs) = grouped (xs.map wireForm) := by
  have hcontent : ∀ {shape : Shape}, allOfShape shape xs = true → shape = .text ∨ shape = .number →
      xs.map shown = (xs.map wireForm).map Wire.content := by
    intro shape hs hshape
    rw [List.map_map]
    refine List.map_congr_left fun x hx => (content_wireForm ?_).symm
    rw [scalarShape_of_allOfShape hs x hx]
    exact hshape
  have hnumber : Wire.allOf Wire.isNumber (xs.map wireForm) = allOfShape .number xs :=
    allOf_wireForm (by simp only [class_wireForm])
  have hbinary : Wire.allOf Wire.isBinary (xs.map wireForm) = allOfShape .binary xs :=
    allOf_wireForm (by simp only [class_wireForm])
  rw [wireForm, sequenceShape, grouped, allOf_wireForm (all_isText_wireForm h), hnumber, hbinary]
  cases hs : allOfShape .text xs with
  | true => exact congrArg Wire.ss (hcontent hs (.inl rfl))
  | false =>
    cases hs : allOfShape .number xs with
    | true => exact congrArg Wire.ns (hcontent hs (.inr rfl))
    | false =>
      cases hs : allOfShape .binary xs with
      | true =>
        refine congrArg Wire.bs ?_
        rw [List.map_map]
        exact List.map_congr_left fun x hx =>
          (data_wireForm (scalarShape_of_allOfShape hs x hx)).symm
      | false => exact congrArg Wire.l (wireFormAll_eq_map xs)

/-! ## Reading -/

theorem readNumber_of_isDecimalText {t : String} (h : IsDecimalText t) :
    ∃ d : Decimal, readNumber true (.text t) = .ok (.decimal d) ∧ wireForm (.decimal d) = .n t := by
  obtain ⟨negative, coefficient, exponent, hr, rfl⟩ := h
  refine ⟨_, readNumber_text hr, ?_⟩
  rw [wireForm]
  rfl

/-- The texts of a number set are read as decimals. -/
theorem exists_readNumbers {texts : List String} (h : ∀ t ∈ texts, IsDecimalText t) :
    ∃ xs : List Value, (texts.map Value.text).mapM (readNumber true) = .ok xs ∧
      xs.map wireForm = texts.map .n ∧ allWritable xs = true ∧
      ∀ x ∈ xs, x.scalarShape ≠ .timestamp := by
  induction texts with
  | nil => exact ⟨[], rfl, rfl, rfl, List.forall_mem_nil _⟩
  | cons t texts ih =>
    rw [List.forall_mem_cons] at h
    obtain ⟨d, hread, hwrite⟩ := readNumber_of_isDecimalText h.1
    obtain ⟨xs, hreads, hwrites, hwritable, hx⟩ := ih h.2
    refine ⟨.decimal d :: xs, ?_, ?_, hwritable, List.forall_mem_cons.mpr ⟨?_, hx⟩⟩
    · rw [List.map_cons, List.mapM_cons, hread, hreads]
      rfl
    · rw [List.map_cons, List.map_cons, hwrite, hwrites]
    · rw [scalarShape]
      split <;> decide

/-- A sequence without dates is stored with its elements grouped. -/
theorem wireForm_seq_of_forall {xs : List Value} (h : ∀ x ∈ xs, x.scalarShape ≠ .timestamp)
    (kind : SeqKind) : wireForm (.seq kind xs) = grouped (xs.map wireForm) := by
  refine wireForm_seq ?_ kind
  rw [isDatedTexts, Bool.and_eq_false_iff, List.any_eq_false]
  exact .inr fun x hx => by rw [beq_iff_eq]; exact h x hx

mutual

/-- A wire value with numbers in the form of decimals is read as a value that is written with its
sequences grouped. No number is read as an integer, so nothing has too many digits for that. -/
theorem exists_fromWire : ∀ w : Wire, w.Exact →
    ∃ v, fromWire true w.toValue = .ok v ∧ v.wireForm = w.regrouped ∧ v.isWritable = true ∧
      v.scalarShape ≠ .timestamp
  | .l ws, h => by
    obtain ⟨xs, hread, hwrite, hwritable, hx⟩ := exists_fromWireAll ws h
    refine ⟨.list xs, ?_, ?_, hwritable, nofun⟩
    · have hopen : fromWire true (Wire.l ws).toValue =
          .list <$> fromWireAll true (Wire.toValueAll ws) := rfl
      rw [hopen, hread]
      rfl
    · rw [wireForm_seq_of_forall hx, hwrite, regrouped]
  | .m fields, h => by
    obtain ⟨es, hread, hwrite, hwritable⟩ := exists_fromWireFields fields h.2
    refine ⟨.map es, ?_, ?_, hwritable, nofun⟩
    · have hopen : fromWire true (Wire.m fields).toValue =
          .map <$> fromWireFields true (Wire.toValueFields fields) := rfl
      rw [hopen, hread]
      rfl
    · have hnames : (regroupedFields fields).map Prod.fst = fields.map Prod.fst := by
        rw [Wire.regroupedFields_eq_map, List.map_map]
        rfl
      rw [wireForm, hwrite, regrouped, Entries.ofPairs_of_nodup (by rw [hnames]; exact h.1)]
  | .n t, h => by
    obtain ⟨d, hread, hwrite⟩ := readNumber_of_isDecimalText h
    refine ⟨.decimal d, hread, hwrite.trans (by rw [regrouped]), rfl, ?_⟩
    rw [scalarShape]
    split <;> decide
  | .ns texts, h => by
    obtain ⟨xs, hread, hwrite, hwritable, hx⟩ := exists_readNumbers h
    refine ⟨.list xs, ?_, ?_, hwritable, nofun⟩
    · have hopen : fromWire true (Wire.ns texts).toValue =
          ((texts.map Value.text).mapM (readNumber true) >>= fun ys => pure (.list ys)) := rfl
      rw [hopen, hread]
      rfl
    · rw [wireForm_seq_of_forall hx, hwrite, regrouped]
  | .ss texts, _ => by
    have hwritable : allWritable (texts.map .text) = true := by
      simp [allWritable_eq_all, isWritable]
    refine ⟨.list (texts.map .text), rfl, ?_, hwritable, nofun⟩
    rw [wireForm_seq_of_forall (by simp [scalarShape]), List.map_map, regrouped]
    exact congrArg grouped (List.map_congr_left fun t _ => by simp [wireForm])
  | .bs parts, _ => by
    have hwritable : allWritable (parts.map (.bytes .fixed)) = true := by
      simp [allWritable_eq_all, isWritable]
    refine ⟨.list (parts.map (.bytes .fixed)), rfl, ?_, hwritable, nofun⟩
    rw [wireForm_seq_of_forall (by simp [scalarShape]), List.map_map, regrouped]
    exact congrArg grouped (List.map_congr_left fun d _ => by simp [wireForm])
  | .s t, _ => ⟨.text t, rfl, by simp [wireForm, regrouped], rfl, nofun⟩
  | .bool flag, _ => ⟨.bool flag, rfl, by simp [wireForm, regrouped], rfl, nofun⟩
  | .null, _ => ⟨.null, rfl, by simp [wireForm, regrouped], rfl, nofun⟩
  | .b d, _ => ⟨.bytes .fixed d, rfl, by simp [wireForm, regrouped], rfl, nofun⟩

theorem exists_fromWireAll : ∀ ws : List Wire, Wire.ExactAll ws →
    ∃ xs, fromWireAll true (Wire.toValueAll ws) = .ok xs ∧ xs.map wireForm = regroupedAll ws ∧
      allWritable xs = true ∧ ∀ x ∈ xs, x.scalarShape ≠ .timestamp
  | [], _ => ⟨[], rfl, rfl, rfl, List.forall_mem_nil _⟩
  | w :: ws, h => by
    obtain ⟨x, hread, hwrite, hw, hx⟩ := exists_fromWire w h.1
    obtain ⟨xs, hreads, hwrites, hws, hxs⟩ := exists_fromWireAll ws h.2
    refine ⟨x :: xs, ?_, ?_, Bool.and_eq_true_iff.mpr ⟨hw, hws⟩,
      List.forall_mem_cons.mpr ⟨hx, hxs⟩⟩
    · rw [Wire.toValueAll, fromWireAll, hread, hreads]
      rfl
    · rw [List.map_cons, hwrite, hwrites, regroupedAll]

theorem exists_fromWireFields : ∀ fields : List (String × Wire), Wire.ExactFields fields →
    ∃ es, fromWireFields true (Wire.toValueFields fields) = .ok es ∧
      wireFormFields es = regroupedFields fields ∧ entriesWritable es = true
  | [], _ => ⟨[], rfl, rfl, rfl⟩
  | (name, w) :: fields, h => by
    obtain ⟨x, hread, hwrite, hw, -⟩ := exists_fromWire w h.1
    obtain ⟨es, hreads, hwrites, hes⟩ := exists_fromWireFields fields h.2
    refine ⟨(.text name, x) :: es, ?_, ?_, Bool.and_eq_true_iff.mpr ⟨hw, hes⟩⟩
    · rw [Wire.toValueFields, fromWireFields, hread, hreads]
      rfl
    · rw [wireFormFields, hwrite, hwrites, regroupedFields]
      rfl

end

/-! ## Plain values without binary64 numbers -/

/-- The scalars that reading numbers as decimals does not round: all but binary64 numbers. Decimals
are in their range. -/
def isUnrounded : Value → Bool
  | .float _ => false
  | .decimal (.finite _ coefficient exponent) => Decimal.inRange coefficient exponent
  | _ => true

mutual

/-- Whether all scalars of a value, elements of sequences and values of maps, are of a class. -/
def everyScalar (p : Value → Bool) : Value → Bool
  | .seq _ xs => everyScalarAll p xs
  | .map es => everyScalarFields p es
  | v => p v

def everyScalarAll (p : Value → Bool) : List Value → Bool
  | [] => true
  | x :: xs => everyScalar p x && everyScalarAll p xs

def everyScalarFields (p : Value → Bool) : List (Value × Value) → Bool
  | [] => true
  | (_, x) :: es => everyScalar p x && everyScalarFields p es

end

mutual

/-- Whether a sequence in a value is of texts and dates alone, with a date among them. -/
def hasDatedTexts : Value → Bool
  | .seq _ xs => isDatedTexts xs || anyDatedTexts xs
  | .map es => fieldsHaveDatedTexts es
  | _ => false

def anyDatedTexts : List Value → Bool
  | [] => false
  | x :: xs => hasDatedTexts x || anyDatedTexts xs

def fieldsHaveDatedTexts : List (Value × Value) → Bool
  | [] => false
  | (_, x) :: es => hasDatedTexts x || fieldsHaveDatedTexts es

end

theorem isDecimalText_decimal {d : Decimal} (h : isUnrounded (.decimal d) = true)
    (hd : d.isFinite = true) : IsDecimalText (String.ofList d.text) := by
  cases d with
  | finite negative coefficient exponent => exact ⟨negative, coefficient, exponent, h, rfl⟩
  | _ => cases hd

theorem isDecimalText_intText {n : Int} (h : Number.isWritable n = true) :
    IsDecimalText (intText n) := by
  rw [intText, ← Decimal.text_ofInt]
  exact ⟨_, _, _, Decimal.inRange_of_isWritable h, rfl⟩

mutual

/-- Of a writable value all scalars are writable. -/
theorem everyScalar_writable {p : Value → Bool} : ∀ v : Value, v.everyScalar p = true →
    v.isWritable = true → v.everyScalar (fun x => p x && x.isWritable) = true
  | .seq _ xs, h, hw => everyScalarAll_writable xs h hw
  | .map es, h, hw => everyScalarFields_writable es h hw
  | .null, h, hw | .bool _, h, hw | .int _, h, hw | .float _, h, hw | .decimal _, h, hw
  | .text _, h, hw | .bytes _ _, h, hw | .date _, h, hw | .timestamp _, h, hw
  | .foreign, h, hw => Bool.and_eq_true_iff.mpr ⟨h, hw⟩

theorem everyScalarAll_writable {p : Value → Bool} : ∀ xs : List Value,
    everyScalarAll p xs = true → allWritable xs = true →
      everyScalarAll (fun x => p x && x.isWritable) xs = true
  | [], _, _ => rfl
  | x :: xs, h, hw => by
    rw [everyScalarAll, Bool.and_eq_true] at h ⊢
    rw [allWritable, Bool.and_eq_true] at hw
    exact ⟨everyScalar_writable x h.1 hw.1, everyScalarAll_writable xs h.2 hw.2⟩

theorem everyScalarFields_writable {p : Value → Bool} : ∀ es : List (Value × Value),
    everyScalarFields p es = true → entriesWritable es = true →
      everyScalarFields (fun x => p x && x.isWritable) es = true
  | [], _, _ => rfl
  | (_, x) :: es, h, hw => by
    rw [everyScalarFields, Bool.and_eq_true] at h ⊢
    rw [entriesWritable, Bool.and_eq_true, Bool.and_eq_true] at hw
    exact ⟨everyScalar_writable x h.1 hw.1.2, everyScalarFields_writable es h.2 hw.2⟩

end

/-- The scalars that are written and read as decimals with all their digits. -/
def isUnroundedText (x : Value) : Bool :=
  isUnrounded x && x.isWritable

mutual

/-- A value without binary64 numbers is stored with its numbers in the form of decimals. -/
theorem exact_wireForm : ∀ v : Value, v.everyScalar isUnroundedText = true → v.wireForm.Exact
  | .seq kind xs, h => by
    have hall := exact_wireFormAll xs h
    rw [wireForm]
    rcases sequenceShape_cases xs with hx | ⟨hx, -⟩ | ⟨hx, hs⟩ | ⟨hx, -⟩ <;> rw [hx]
    · exact Wire.exactAll_iff.mpr hall
    · trivial
    · refine List.forall_mem_map.mpr fun x hmem => ?_
      have hw : x.wireForm.Exact := hall _ (wireFormAll_eq_map xs ▸ List.mem_map_of_mem hmem)
      have hnumber : x.wireForm.isNumber = true := by rw [(class_wireForm x).2.1, hs x hmem]; rfl
      rw [← Wire.n_content hnumber, content_wireForm (.inr (hs x hmem))] at hw
      exact hw
    · trivial
  | .map es, h => by
    rw [wireForm, Wire.Exact, Wire.exactFields_iff]
    exact ⟨Entries.nodup_ofPairs _, Entries.forall_mem_ofPairs (exact_wireFormFields es h)⟩
  | .int n, h => by
    rw [wireForm]
    exact isDecimalText_intText h
  | .decimal d, h => by
    rw [wireForm]
    split
    · next hd => exact isDecimalText_decimal (Bool.and_eq_true_iff.mp h).1 hd
    · trivial
  | .float x, h => by cases h
  | .null, _ | .bool _, _ | .text _, _ | .bytes _ _, _ | .date _, _ | .timestamp _, _
  | .foreign, _ => by simp [wireForm, Wire.Exact]

theorem exact_wireFormAll : ∀ xs : List Value, everyScalarAll isUnroundedText xs = true →
    ∀ w ∈ wireFormAll xs, w.Exact
  | [], _ => List.forall_mem_nil _
  | x :: xs, h => by
    rw [everyScalarAll, Bool.and_eq_true] at h
    exact List.forall_mem_cons.mpr ⟨exact_wireForm x h.1, exact_wireFormAll xs h.2⟩

theorem exact_wireFormFields : ∀ es : List (Value × Value),
    everyScalarFields isUnroundedText es = true → ∀ e ∈ wireFormFields es, e.2.Exact
  | [], _ => List.forall_mem_nil _
  | (_, x) :: es, h => by
    rw [everyScalarFields, Bool.and_eq_true] at h
    exact List.forall_mem_cons.mpr ⟨exact_wireForm x h.1, exact_wireFormFields es h.2⟩

end

mutual

/-- A value without sequences of texts and dates is stored with its sequences grouped. -/
theorem regrouped_wireForm : ∀ v : Value, v.hasDatedTexts = false →
    v.wireForm.regrouped = v.wireForm
  | .seq kind xs, h => by
    rw [hasDatedTexts, Bool.or_eq_false_iff] at h
    rw [wireForm_seq h.1]
    refine Wire.regrouped_grouped ?_
    rw [← wireFormAll_eq_map]
    exact regroupedAll_wireFormAll xs h.2
  | .map es, h => by
    have hfields := Entries.forall_mem_ofPairs (P := fun w : Wire => w.regrouped = w)
      (regrouped_wireFormFields es h)
    rw [wireForm, regrouped, Wire.regroupedFields_eq_map]
    refine congrArg Wire.m ((List.map_congr_left fun e he => ?_).trans (List.map_id _))
    rw [hfields e he]
    rfl
  | .float x, _ => by
    rw [wireForm]
    split <;> rw [regrouped]
  | .decimal d, _ => by
    rw [wireForm]
    split <;> rw [regrouped]
  | .null, _ | .bool _, _ | .int _, _ | .text _, _ | .bytes _ _, _ | .date _, _ | .timestamp _, _
  | .foreign, _ => by simp [wireForm, regrouped]

theorem regroupedAll_wireFormAll : ∀ xs : List Value, anyDatedTexts xs = false →
    regroupedAll (wireFormAll xs) = wireFormAll xs
  | [], _ => rfl
  | x :: xs, h => by
    rw [anyDatedTexts, Bool.or_eq_false_iff] at h
    rw [wireFormAll, regroupedAll, regrouped_wireForm x h.1, regroupedAll_wireFormAll xs h.2]

theorem regrouped_wireFormFields : ∀ es : List (Value × Value), fieldsHaveDatedTexts es = false →
    ∀ e ∈ wireFormFields es, e.2.regrouped = e.2
  | [], _ => List.forall_mem_nil _
  | (_, x) :: es, h => by
    rw [fieldsHaveDatedTexts, Bool.or_eq_false_iff] at h
    exact List.forall_mem_cons.mpr ⟨regrouped_wireForm x h.1, regrouped_wireFormFields es h.2⟩

end

/-- What a value without binary64 numbers is written as is read back, numbers as decimals, as a
value that is written with its sequences grouped: unchanged, if it has no sequence of texts and
dates. -/
theorem toWire_fromWire_toWire (v : Value) (h : v.everyScalar isUnrounded = true) :
    ∀ w, v.toWire = .ok w → ∃ u, fromWire true w.toValue = .ok u ∧ u.toWire = .ok w.regrouped ∧
      (v.hasDatedTexts = false → u.toWire = .ok w) := by
  intro w hw
  obtain ⟨hwritable, rfl⟩ := toWire_eq_ok_iff.mp hw
  obtain ⟨u, hread, hwrite, hu, -⟩ :=
    exists_fromWire v.wireForm (exact_wireForm v (everyScalar_writable v h hwritable))
  have hrewritten : u.toWire = .ok v.wireForm.regrouped := toWire_eq_ok_iff.mpr ⟨hu, hwrite⟩
  exact ⟨u, hread, hrewritten, fun hd => by rw [hrewritten, regrouped_wireForm v hd]⟩

/-- Keys with one text, numbers that cannot be stored, a set of two kinds of bytes, a number set
of an integer and a decimal, and a date beside a number. -/
def mixedKinds : Value :=
  .map [(.int 1, .text "x"), (.text "1", .seq .tuple [.date ⟨2020, 2, 29⟩, .int 0]),
    (.null, .seq .set [.bytes .buffer [1], .bytes .view [0, 255]]),
    (.bool true, .list [.int (-7), .decimal (.finite true 10 (-1))]),
    (.text "k", .list [.decimal (.nan false true 0), .foreign, .list [], .text "a"])]

theorem toWire_fromWire_mixedKinds :
    mixedKinds.everyScalar isUnrounded = true ∧ mixedKinds.hasDatedTexts = false ∧
      ∃ w, mixedKinds.toWire = .ok w ∧
        ∃ u, fromWire true w.toValue = .ok u ∧ u.toWire = .ok w :=
  have h : mixedKinds.everyScalar isUnrounded = true := by decide +kernel
  have hd : mixedKinds.hasDatedTexts = false := by decide +kernel
  have hw : mixedKinds.toWire = .ok mixedKinds.wireForm :=
    toWire_of_isWritable (by decide +kernel)
  have ⟨u, hread, _, hwrite⟩ := toWire_fromWire_toWire mixedKinds h _ hw
  ⟨h, hd, _, hw, u, hread, hwrite hd⟩

/-- A list of a date is written back as a text set. -/
theorem not_toWire_fromWire_toWire :
    everyScalar isUnrounded (.list [.date ⟨2020, 1, 1⟩]) = true ∧
      toWire (.list [.date ⟨2020, 1, 1⟩]) = .ok (.l [.s "2020-01-01"]) ∧
      ∃ u, fromWire true (Wire.l [.s "2020-01-01"]).toValue = .ok u ∧
        u.toWire = .ok (.ss ["2020-01-01"]) := by
  have htext : Date.isoText ⟨2020, 1, 1⟩ = "2020-01-01" := by decide +kernel
  have hwire : toWire (.list [.date ⟨2020, 1, 1⟩]) = .ok (.l [.s "2020-01-01"]) := by
    rw [← htext]
    rfl
  exact ⟨rfl, hwire, .list [.text "2020-01-01"], rfl, rfl⟩

end Value

end ItemStore
