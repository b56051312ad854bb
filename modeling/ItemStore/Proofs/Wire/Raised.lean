import ItemStore.Proofs.Table.Leftovers
import ItemStore.Proofs.Wire.Nodes

/-
  What reading raises, for any values under any tags. An outcome is decoded if it is an answer or a
  marshalling failure (`IsDecoded`). Reading is not decoded just if it comes to a payload that is
  used in a way its kind does not allow, and everything in front of that payload is read
  (`Breaks`): a set or a list that has no elements to go through, attributes that are no map, or,
  where numbers are read as decimals, the parts of a decimal whose exponent is too large
  (`isDecoded_fromWire_iff`). Then what is raised is the fault itself.

  That reading raises nothing but marshalling failures and faults is `onlyReads_fromWire`; here it
  is said when there is a fault.
-/

namespace ItemStore

/-- The failure of a list is that of its first element that fails. -/
theorem mapM_eq_error_iff {α β : Type} {f : α → Outcome β} {xs : List α} {e : Failure} :
    xs.mapM f = .error e ↔ ∃ before x after, xs = before ++ x :: after ∧
      (∀ y ∈ before, ∃ z, f y = .ok z) ∧ f x = .error e := by
  constructor
  · intro h
    rcases mapM_cases f xs with ⟨ys, -, hall⟩ | ⟨before, x, after, e', hxs, hbefore, hx, hall⟩
    · rw [hall] at h
      cases h
    · rw [hall] at h
      cases h
      exact ⟨before, x, after, hxs, hbefore, hx⟩
  · rintro ⟨before, x, after, rfl, hbefore, hx⟩
    induction before with
    | nil =>
      rw [List.nil_append, List.mapM_cons, hx]
      rfl
    | cons y before ih =>
      rw [List.forall_mem_cons] at hbefore
      obtain ⟨z, hz⟩ := hbefore.1
      rw [List.cons_append, List.mapM_cons, hz]
      show (List.mapM f (before ++ x :: after) >>= fun zs => pure (z :: zs)) = _
      rw [ih hbefore.2]
      rfl

namespace Value

variable {decimalNumbers : Bool}

/-! ## Values that break reading -/

/-- The parts of a decimal, in a list or a tuple, with an exponent that does not fit the words that
sizes are counted in. -/
def IsOversized (v : Value) : Prop :=
  ∃ kind sign digits negative e, (kind = .list ∨ kind = .tuple) ∧
    v = .seq kind [sign, digits, .int e] ∧ sign.toSign = .ok negative ∧
    (e < -Nat.pow 2 63 ∨ Nat.pow 2 63 ≤ e)

/-- Values at which reading comes to a payload that it cannot use, before anything that is no wire
value. -/
inductive Breaks (decimalNumbers : Bool) : Value → Prop
  /-- A list or a set that cannot be gone through. -/
  | elements {t : Tag} {payload : Value} {f : Fault} (ht : t ∈ [Tag.l, .ss, .ns, .bs])
      (h : payload.elements = .error f) : Breaks decimalNumbers (Wire.tagged t payload)
  /-- Attributes that are neither a map nor absent. -/
  | attributes {payload : Value} (hmap : ∀ es, payload ≠ .map es)
      (h : payload.isTruthy = true) : Breaks decimalNumbers (Wire.tagged .m payload)
  | number {payload : Value} (hdecimal : decimalNumbers = true) (h : IsOversized payload) :
      Breaks decimalNumbers (Wire.tagged .n payload)
  /-- A number of a set, behind some that are read. -/
  | numbers {payload x : Value} {before after : List Value} (hdecimal : decimalNumbers = true)
      (hpayload : payload.elements = .ok (before ++ x :: after))
      (hbefore : ∀ y ∈ before, ∃ n, readNumber decimalNumbers y = .ok n) (h : IsOversized x) :
      Breaks decimalNumbers (Wire.tagged .ns payload)
  /-- An attribute of a map, behind some that are read. -/
  | entry {k x : Value} {before after : List (Value × Value)}
      (hbefore : ∀ e ∈ before, ∃ v, fromWire decimalNumbers e.2 = .ok v)
      (h : Breaks decimalNumbers x) :
      Breaks decimalNumbers (Wire.tagged .m (.map (before ++ (k, x) :: after)))
  /-- An element of a list, behind some that are read. -/
  | element {kind : SeqKind} {x : Value} {before after : List Value}
      (hbefore : ∀ y ∈ before, ∃ v, fromWire decimalNumbers y = .ok v)
      (h : Breaks decimalNumbers x) :
      Breaks decimalNumbers (Wire.tagged .l (.seq kind (before ++ x :: after)))

/-- Attributes of which one breaks reading, behind some that are read. -/
def BreaksFields (decimalNumbers : Bool) (es : List (Value × Value)) : Prop :=
  ∃ before k x after, es = before ++ (k, x) :: after ∧
    (∀ e ∈ before, ∃ v, fromWire decimalNumbers e.2 = .ok v) ∧ Breaks decimalNumbers x

/-- A fault of two steps that the second one never raises is that of the first. -/
theorem bind_eq_error_iff {α β : Type} {f : Fault} {x : Except Fault α} {g : α → Except Fault β}
    (hg : ∀ a, g a ≠ .error f) : (x >>= g) = .error f ↔ x = .error f := by
  cases x with
  | error f' =>
    constructor
    · rintro ⟨⟩
      rfl
    · rintro ⟨⟩
      rfl
  | ok a => exact iff_of_false (hg a) nofun

theorem toSign_ne_tooLarge (v : Value) : v.toSign ≠ .error .tooLarge := by
  unfold toSign
  split <;> nofun

theorem toDigit_ne_tooLarge (v : Value) : v.toDigit ≠ .error .tooLarge := by
  unfold toDigit
  split
  · split <;> nofun
  · nofun
  · nofun

theorem digitList_ne_tooLarge (v : Value) : v.digitList ≠ .error .tooLarge := by
  have hall : ∀ xs : List Value, xs.mapM toDigit ≠ .error .tooLarge := by
    intro xs
    induction xs with
    | nil => nofun
    | cons x xs ih =>
      rw [List.mapM_cons]
      rw [Ne, bind_eq_error_iff fun d => ?_]
      · exact toDigit_ne_tooLarge x
      · rw [Ne, bind_eq_error_iff nofun]
        exact ih
  unfold digitList
  split
  · exact hall _
  · exact hall _
  · nofun

theorem finiteDecimal_ne_tooLarge (negative : Bool) (coefficient : Nat) (e : Int) :
    finiteDecimal negative coefficient e ≠ .error .tooLarge := by
  unfold finiteDecimal
  split <;> nofun

theorem wordSized_eq_tooLarge_iff {e : Int} :
    wordSized e = .error .tooLarge ↔ e < -Nat.pow 2 63 ∨ Nat.pow 2 63 ≤ e := by
  unfold wordSized
  split
  · next h => exact ⟨nofun, fun hout => by omega⟩
  · next h => exact ⟨fun _ => by omega, fun _ => rfl⟩

theorem foldDigits_ne_tooLarge {α : Type} (digits : Value) {g : Nat → Except Fault α}
    (hg : ∀ n, g n ≠ .error .tooLarge) :
    (digits.digitList >>= fun ds => g (ds.foldl (fun n d => 10 * n + d) 0)) ≠
      .error .tooLarge := by
  rw [Ne, bind_eq_error_iff fun ds => hg _]
  exact digitList_ne_tooLarge digits

/-- The sign is looked at first, and the size of the exponent before the digits. -/
theorem decimalOfParts_eq_tooLarge_iff {sign digits exponent : Value} :
    decimalOfParts sign digits exponent = .error .tooLarge ↔
      ∃ negative e, sign.toSign = .ok negative ∧ exponent = .int e ∧
        (e < -Nat.pow 2 63 ∨ Nat.pow 2 63 ≤ e) := by
  unfold decimalOfParts
  cases hsign : sign.toSign with
  | error f =>
    refine ⟨?_, nofun⟩
    rintro ⟨⟩
    exact absurd hsign (toSign_ne_tooLarge sign)
  | ok negative =>
    have hfinite := fun e => foldDigits_ne_tooLarge digits
      (g := (finiteDecimal negative · e)) fun n => finiteDecimal_ne_tooLarge negative n e
    cases exponent with
    | int e =>
      have hsized : (wordSized e >>= fun e => digits.digitList >>= fun ds =>
          finiteDecimal negative (ds.foldl (fun n d => 10 * n + d) 0) e) = .error .tooLarge ↔
            e < -Nat.pow 2 63 ∨ Nat.pow 2 63 ≤ e :=
        (bind_eq_error_iff hfinite).trans wordSized_eq_tooLarge_iff
      refine Iff.trans hsized ⟨fun hout => ⟨negative, e, rfl, rfl, hout⟩, ?_⟩
      rintro ⟨_, _, _, ⟨⟩, hout⟩
      exact hout
    | bool b => exact iff_of_false (hfinite _) nofun
    | text s =>
      refine iff_of_false ?_ nofun
      have hspecial := fun g : Nat → Number.Decimal =>
        foldDigits_ne_tooLarge digits (g := fun n => .ok (g n)) nofun
      dsimp only [bind, Except.bind]
      split
      · next h => cases h
      · next h => cases h
      · exact hspecial fun _ => .infinity negative
      · exact hspecial fun payload => .nan false negative payload
      · exact hspecial fun payload => .nan true negative payload
      · nofun
    | _ => exact iff_of_false nofun nofun

theorem toDecimal_eq_tooLarge_iff {v : Value} :
    v.toDecimal = .error .tooLarge ↔ IsOversized v := by
  constructor
  · intro h
    unfold toDecimal at h
    split at h
    · cases h
    · cases h
    · cases h
    · cases h
    · next s =>
      cases hs : Number.readDecimal? s.toList <;> rw [hs] at h <;> cases h
    · split at h
      · obtain ⟨negative, e, hsign, rfl, hout⟩ := decimalOfParts_eq_tooLarge_iff.mp h
        exact ⟨.list, _, _, negative, e, .inl rfl, rfl, hsign, hout⟩
      · cases h
    · split at h
      · obtain ⟨negative, e, hsign, rfl, hout⟩ := decimalOfParts_eq_tooLarge_iff.mp h
        exact ⟨.tuple, _, _, negative, e, .inr rfl, rfl, hsign, hout⟩
      · cases h
    · cases h
  · rintro ⟨kind, sign, digits, negative, e, hkind, rfl, hsign, hout⟩
    have hparts : decimalOfParts sign digits (.int e) = .error .tooLarge :=
      decimalOfParts_eq_tooLarge_iff.mpr ⟨negative, e, hsign, rfl, hout⟩
    rcases hkind with rfl | rfl
    · exact hparts
    · exact hparts

theorem toPlainNumber_ne_tooLarge (v : Value) : v.toPlainNumber ≠ .error .tooLarge := by
  unfold toPlainNumber
  split
  · next s =>
    split
    · cases Number.readBinary64? s.toList <;> nofun
    · cases Number.readInt? s.toList <;> nofun
  · next data =>
    rw [Ne, bind_eq_error_iff nofun, toInt]
    cases Number.readInt? (data.map toInt.asAscii) <;> nofun
  · nofun

/-- A number raises a fault just if it is too large for a decimal; all else that is no number is
told. -/
theorem readNumber_fault_iff {payload : Value} :
    (∃ f, readNumber decimalNumbers payload = .error (.fault f)) ↔
      decimalNumbers = true ∧ IsOversized payload := by
  have hlarge : (if decimalNumbers then Value.decimal <$> payload.toDecimal
      else payload.toPlainNumber) = .error .tooLarge ↔
        decimalNumbers = true ∧ IsOversized payload := by
    cases decimalNumbers with
    | true =>
      rw [if_pos rfl, ← toDecimal_eq_tooLarge_iff]
      refine Iff.trans ?_ (and_iff_right rfl).symm
      cases payload.toDecimal with
      | error f => exact ⟨fun h => by cases h; rfl, fun h => by cases h; rfl⟩
      | ok d => exact iff_of_false nofun nofun
    | false =>
      rw [if_neg Bool.false_ne_true]
      exact iff_of_false (toPlainNumber_ne_tooLarge payload) nofun
  rw [← hlarge]
  unfold readNumber
  dsimp only
  split
  · next n h =>
    rw [h]
    exact iff_of_false nofun nofun
  · next h =>
    rw [h]
    exact iff_of_true ⟨_, rfl⟩ rfl
  · next f hother h =>
    rw [h]
    exact iff_of_false nofun fun he => hother (Except.error.inj he)

/-! ## Reading -/

theorem map_eq_error_iff {α β : Type} {g : α → β} {x : Outcome α} {f : Failure} :
    g <$> x = .error f ↔ x = .error f := by
  cases x with
  | error f' => exact ⟨fun h => by cases h; rfl, fun h => by cases h; rfl⟩
  | ok a => exact iff_of_false nofun nofun

theorem fromWireAll_eq_mapM (xs : List Value) :
    fromWireAll decimalNumbers xs = xs.mapM (fromWire decimalNumbers) := by
  induction xs with
  | nil => rfl
  | cons x xs ih =>
    rw [fromWireAll, List.mapM_cons, ih]

theorem fromWireFields_eq_mapM (es : List (Value × Value)) :
    fromWireFields decimalNumbers es =
      es.mapM fun e => (e.1, ·) <$> fromWire decimalNumbers e.2 := by
  induction es with
  | nil => rfl
  | cons e es ih =>
    rw [fromWireFields, List.mapM_cons, ih]
    cases fromWire decimalNumbers e.2 <;> rfl

/-- The failure of attributes is that of the first that is not read. -/
theorem fromWireFields_eq_error_iff {es : List (Value × Value)} {f : Failure} :
    fromWireFields decimalNumbers es = .error f ↔ ∃ before k x after,
      es = before ++ (k, x) :: after ∧ (∀ e ∈ before, ∃ v, fromWire decimalNumbers e.2 = .ok v) ∧
        fromWire decimalNumbers x = .error f := by
  have hread : ∀ e : Value × Value, (∃ p, (e.1, ·) <$> fromWire decimalNumbers e.2 = .ok p) ↔
      ∃ v, fromWire decimalNumbers e.2 = .ok v := by
    intro e
    cases fromWire decimalNumbers e.2 with
    | error f => exact iff_of_false nofun nofun
    | ok v => exact iff_of_true ⟨_, rfl⟩ ⟨_, rfl⟩
  rw [fromWireFields_eq_mapM, mapM_eq_error_iff]
  simp only [hread, map_eq_error_iff]
  exact ⟨fun ⟨before, e, after, h⟩ => ⟨before, e.1, e.2, after, h⟩,
    fun ⟨before, k, x, after, h⟩ => ⟨before, (k, x), after, h⟩⟩

theorem fromOtherList_fault_iff {payload : Value} :
    (∃ f, fromOtherList payload = .error (.fault f)) ↔ ∃ f, payload.elements = .error f := by
  unfold fromOtherList
  split
  · next f h => exact iff_of_true ⟨f, rfl⟩ ⟨f, h⟩
  · next h => exact iff_of_false nofun (by rw [h]; nofun)
  · next h => exact iff_of_false nofun (by rw [h]; nofun)

theorem fromWire_map {payload : Value} (h : ∀ es, payload ≠ .map es) :
    fromWire decimalNumbers (Wire.tagged .m payload) =
      if payload.isTruthy then .error (.fault .noOperation) else .ok (.map []) := by
  cases payload with
  | map es => exact absurd rfl (h es)
  | _ => rfl

theorem fromWire_list {payload : Value} (h : ∀ kind xs, payload ≠ .seq kind xs) :
    fromWire decimalNumbers (Wire.tagged .l payload) = fromOtherList payload := by
  cases payload with
  | seq kind xs => exact absurd rfl (h kind xs)
  | _ => rfl

theorem fromWire_numbers (payload : Value) :
    fromWire decimalNumbers (Wire.tagged .ns payload) =
      Value.list <$> (payloadElements payload >>= List.mapM (readNumber decimalNumbers)) := by
  show (payloadElements payload >>= fun texts =>
    Value.list <$> texts.mapM (readNumber decimalNumbers)) = _
  cases payloadElements payload <;> rfl

/-- What breaks reading raises a fault. -/
theorem Breaks.fault {w : Value} (h : Breaks decimalNumbers w) :
    ∃ f, fromWire decimalNumbers w = .error (.fault f) := by
  induction h with
  | @elements t payload f ht h =>
    have helements : payloadElements payload = .error (.fault f) := by
      rw [payloadElements, h]
      rfl
    simp only [List.mem_cons, List.not_mem_nil, or_false] at ht
    rcases ht with rfl | rfl | rfl | rfl
    · rw [fromWire_list fun kind xs hpayload => by rw [hpayload] at h; cases h]
      exact fromOtherList_fault_iff.mpr ⟨f, h⟩
    · exact ⟨f, map_eq_error_iff.mpr helements⟩
    · rw [fromWire_numbers, helements]
      exact ⟨f, rfl⟩
    · exact ⟨f, map_eq_error_iff.mpr helements⟩
  | @attributes payload hmap h =>
    rw [fromWire_map hmap, if_pos h]
    exact ⟨_, rfl⟩
  | @number payload hdecimal h => exact readNumber_fault_iff.mpr ⟨hdecimal, h⟩
  | @numbers payload x before after hdecimal hpayload hbefore h =>
    obtain ⟨f, hf⟩ := readNumber_fault_iff.mpr ⟨hdecimal, h⟩
    have hall := mapM_eq_error_iff.mpr ⟨before, x, after, rfl, hbefore, hf⟩
    rw [fromWire_numbers, payloadElements, hpayload]
    exact ⟨f, map_eq_error_iff.mpr hall⟩
  | @entry k x before after hbefore _ ih =>
    obtain ⟨f, hf⟩ := ih
    have hall := fromWireFields_eq_error_iff.mpr ⟨before, k, x, after, rfl, hbefore, hf⟩
    exact ⟨f, map_eq_error_iff.mpr hall⟩
  | @element kind x before after hbefore _ ih =>
    obtain ⟨f, hf⟩ := ih
    have hall := mapM_eq_error_iff.mpr ⟨before, x, after, rfl, hbefore, hf⟩
    rw [← fromWireAll_eq_mapM] at hall
    exact ⟨f, map_eq_error_iff.mpr hall⟩

/-- A value with one tag, of whose parts it is known that they break reading if they raise
faults. -/
theorem breaks_of_tagged {t : Tag} {payload : Value} {f : Fault}
    (attributes : ∀ es, payload = .map es → fromWireFields decimalNumbers es = .error (.fault f) →
      BreaksFields decimalNumbers es)
    (elements : ∀ kind xs, payload = .seq kind xs →
      fromWireAll decimalNumbers xs = .error (.fault f) → ∃ before x after,
        xs = before ++ x :: after ∧ (∀ y ∈ before, ∃ v, fromWire decimalNumbers y = .ok v) ∧
          Breaks decimalNumbers x)
    (h : fromWire decimalNumbers (Wire.tagged t payload) = .error (.fault f)) :
    Breaks decimalNumbers (Wire.tagged t payload) := by
  have hset : ∀ {u : Tag}, u ∈ [Tag.l, .ss, .ns, .bs] →
      Value.list <$> payloadElements payload = .error (.fault f) →
        Breaks decimalNumbers (Wire.tagged u payload) := by
    intro u hu h
    rw [map_eq_error_iff, payloadElements] at h
    cases hpayload : payload.elements with
    | error f' => exact .elements hu hpayload
    | ok xs =>
      rw [hpayload] at h
      cases h
  cases t with
  | s | bool | null | b => cases h
  | n =>
    obtain ⟨hdecimal, hlarge⟩ := readNumber_fault_iff.mp ⟨f, h⟩
    exact .number hdecimal hlarge
  | ss => exact hset (by decide) h
  | bs => exact hset (by decide) h
  | ns =>
    rw [fromWire_numbers, map_eq_error_iff] at h
    cases hpayload : payload.elements with
    | error f' => exact .elements (by decide) hpayload
    | ok xs =>
      rw [payloadElements, hpayload] at h
      obtain ⟨before, x, after, rfl, hbefore, hx⟩ := mapM_eq_error_iff.mp h
      obtain ⟨hdecimal, hlarge⟩ := readNumber_fault_iff.mp ⟨f, hx⟩
      exact .numbers hdecimal hpayload hbefore hlarge
  | m =>
    by_cases hmap : ∃ es, payload = .map es
    · obtain ⟨es, rfl⟩ := hmap
      obtain ⟨before, k, x, after, rfl, hbefore, hx⟩ := attributes es rfl (map_eq_error_iff.mp h)
      exact .entry hbefore hx
    · rw [fromWire_map fun es hes => hmap ⟨es, hes⟩] at h
      by_cases htruthy : payload.isTruthy = true
      · exact .attributes (fun es hes => hmap ⟨es, hes⟩) htruthy
      · rw [if_neg htruthy] at h
        cases h
  | l =>
    by_cases hseq : ∃ kind xs, payload = .seq kind xs
    · obtain ⟨kind, xs, rfl⟩ := hseq
      obtain ⟨before, x, after, rfl, hbefore, hx⟩ :=
        elements kind xs rfl (map_eq_error_iff.mp h)
      exact .element hbefore hx
    · rw [fromWire_list fun kind xs hxs => hseq ⟨kind, xs, hxs⟩] at h
      obtain ⟨f', hf'⟩ := fromOtherList_fault_iff.mp ⟨f, h⟩
      exact .elements (by decide) hf'

mutual

/-- Nothing else raises a fault. -/
theorem breaks_of_fault : ∀ (w : Value) (f : Fault),
    fromWire decimalNumbers w = .error (.fault f) → Breaks decimalNumbers w
  | .map [(tag, payload)], f, h => by
    cases htag : Tag.ofValue? tag with
    | none =>
      unfold fromWire at h
      rw [htag] at h
      cases h
    | some t =>
      obtain rfl := Tag.eq_of_ofValue? htag
      exact breaks_of_tagged (fun es _ => breaksFields_of_fault es f)
        (fun _ xs _ => breaksAll_of_fault xs f) h
  | .map [], f, h | .map (_ :: _ :: _), f, h | .null, f, h | .bool _, f, h | .int _, f, h
  | .float _, f, h | .decimal _, f, h | .text _, f, h | .bytes _ _, f, h | .seq _ _, f, h
  | .date _, f, h | .timestamp _, f, h | .foreign, f, h => by cases h

theorem breaksAll_of_fault : ∀ (xs : List Value) (f : Fault),
    fromWireAll decimalNumbers xs = .error (.fault f) → ∃ before x after,
      xs = before ++ x :: after ∧ (∀ y ∈ before, ∃ v, fromWire decimalNumbers y = .ok v) ∧
        Breaks decimalNumbers x
  | x :: xs, f, h => by
    rw [fromWireAll] at h
    cases hx : fromWire decimalNumbers x with
    | error e =>
      rw [hx] at h
      cases h
      exact ⟨[], x, xs, rfl, List.forall_mem_nil _, breaks_of_fault x f hx⟩
    | ok v =>
      rw [hx] at h
      obtain ⟨before, y, after, rfl, hbefore, hy⟩ :=
        breaksAll_of_fault xs f (map_eq_error_iff.mp h)
      exact ⟨x :: before, y, after, rfl, List.forall_mem_cons.mpr ⟨⟨v, hx⟩, hbefore⟩, hy⟩

theorem breaksFields_of_fault : ∀ (es : List (Value × Value)) (f : Fault),
    fromWireFields decimalNumbers es = .error (.fault f) → BreaksFields decimalNumbers es
  | (k, x) :: es, f, h => by
    rw [fromWireFields] at h
    cases hx : fromWire decimalNumbers x with
    | error e =>
      rw [hx] at h
      cases h
      exact ⟨[], k, x, es, rfl, List.forall_mem_nil _, breaks_of_fault x f hx⟩
    | ok v =>
      rw [hx] at h
      obtain ⟨before, k', y, after, rfl, hbefore, hy⟩ :=
        breaksFields_of_fault es f (map_eq_error_iff.mp h)
      exact ⟨(k, x) :: before, k', y, after, rfl, List.forall_mem_cons.mpr ⟨⟨v, hx⟩, hbefore⟩, hy⟩

end

end Value

end ItemStore
