import ItemStore.Wire.Encode

/-
  Which values are written. Writing goes through a value and stops at the first integer that has too
  many digits for a text, be it a number on its own, an element of a number set or part of a key.
  Whether there is one does not depend on the way there: a value is written just if all its integers
  are short enough (`toWire_eq`), and else there is one fault, whichever integer is met first.

  What is written is the wire form of the value, the same construction without the limit
  (`wireForm`). So what is proved of wire forms, by induction on values, holds of all that is
  written.
-/

namespace ItemStore

namespace Value

/-! ## Wire forms -/

/-- The wire form of a set of the given shape. -/
def setForm (shape : Shape) (xs : List Value) : Wire :=
  match shape with
  | .textSet => .ss (xs.map shown)
  | .numberSet => .ns (xs.map shown)
  | _ => .bs (xs.map data)

mutual

/-- What a value is written as, if it is written. -/
def wireForm : Value → Wire
  | .null => .null
  | .bool b => .bool b
  | .text s => .s s
  | .int n => .n (intText n)
  | .float x => if x.isFinite then .n (String.ofList x.text) else .null
  | .decimal d => if d.isFinite then .n (String.ofList d.text) else .null
  | .bytes _ d => .b d
  | .date d => .s d.isoText
  | .timestamp t => .s (t.isoText "T")
  | .foreign => .null
  | .map es => .m (Entries.ofPairs (wireFormFields es))
  | .seq _ xs =>
    match sequenceShape xs with
    | .list => .l (wireFormAll xs)
    | shape => setForm shape xs

/-- What values are written as. -/
def wireFormAll : List Value → List Wire
  | [] => []
  | x :: xs => wireForm x :: wireFormAll xs

/-- What the entries of a map are written as. -/
def wireFormFields : List (Value × Value) → List (String × Wire)
  | [] => []
  | (k, v) :: es => (k.shown, wireForm v) :: wireFormFields es

end

/-! ## Elements of sets -/

theorem scalarShape_of_allOfShape {shape : Shape} {xs : List Value}
    (h : allOfShape shape xs = true) : ∀ x ∈ xs, x.scalarShape = shape := by
  simp only [allOfShape, Bool.and_eq_true, List.all_eq_true, beq_iff_eq] at h
  exact h.2

/-- A sequence is written as a list, or as a set whose elements all have one shape. -/
theorem sequenceShape_cases (xs : List Value) :
    sequenceShape xs = .list ∨
      (sequenceShape xs = .textSet ∧ ∀ x ∈ xs, x.scalarShape = .text) ∨
      (sequenceShape xs = .numberSet ∧ ∀ x ∈ xs, x.scalarShape = .number) ∨
      (sequenceShape xs = .binarySet ∧ ∀ x ∈ xs, x.scalarShape = .binary) := by
  unfold sequenceShape
  split
  · next h => exact Or.inr (Or.inl ⟨rfl, scalarShape_of_allOfShape h⟩)
  · split
    · next h => exact Or.inr (Or.inr (Or.inl ⟨rfl, scalarShape_of_allOfShape h⟩))
    · split
      · next h => exact Or.inr (Or.inr (Or.inr ⟨rfl, scalarShape_of_allOfShape h⟩))
      · exact Or.inl rfl

theorem allWritable_eq_all (xs : List Value) : allWritable xs = xs.all isWritable := by
  induction xs with
  | nil => rfl
  | cons x xs ih => rw [allWritable, ih, List.all_cons]

/-- A scalar that is no number has no integer in it. -/
theorem isWritable_of_shape {x : Value} (h : x.scalarShape ≠ .number)
    (hne : x.scalarShape ≠ .unsupported) : x.isWritable = true := by
  cases x <;> first | rfl | exact absurd rfl h | exact absurd rfl hne

theorem allWritable_of_shape {shape : Shape} {xs : List Value}
    (hx : ∀ x ∈ xs, x.scalarShape = shape) (h : shape ≠ .number) (hne : shape ≠ .unsupported) :
    allWritable xs = true := by
  rw [allWritable_eq_all, List.all_eq_true]
  intro x hmem
  exact isWritable_of_shape (by rw [hx x hmem]; exact h) (by rw [hx x hmem]; exact hne)

/-! ## Steps with one fault -/

section

variable {α β ε : Type} {f : ε}

theorem map_ite_ok (g : α → β) (b : Bool) (a : α) :
    (g <$> if b then .ok a else .error f : Except ε β) = if b then .ok (g a) else .error f := by
  cases b <;> rfl

theorem bind_ite_ok (g : α → β) (b c : Bool) (a : α) :
    ((if b then .ok a else .error f) >>= fun x => if c then .ok (g x) else .error f :
      Except ε β) = if b && c then .ok (g a) else .error f := by
  cases b <;> rfl

end

theorem mapM_toText (xs : List Value) :
    xs.mapM toText = if allWritable xs then .ok (xs.map shown) else .error .badValue := by
  induction xs with
  | nil => rfl
  | cons x xs ih =>
    have hrest (s : String) : (xs.mapM toText >>= fun ss => pure (s :: ss)) =
        if allWritable xs then .ok (s :: xs.map shown) else .error .badValue := by
      rw [ih]
      exact map_ite_ok (s :: ·) _ _
    simp only [List.mapM_cons, hrest]
    exact bind_ite_ok (· :: xs.map shown) _ _ _

theorem setWire_numberSet (xs : List Value) : setWire .numberSet xs =
    if allWritable xs then .ok (setForm .numberSet xs) else .error .badValue := by
  show Wire.ns <$> xs.mapM toText = _
  rw [mapM_toText]
  exact map_ite_ok _ _ _

/-! ## Values -/

mutual

/-- A value is written as its wire form if it is writable, and else there is one fault. -/
theorem toWire_eq : ∀ v : Value,
    v.toWire = if v.isWritable then .ok v.wireForm else .error .badValue
  | .seq kind xs => by
    rw [toWire, wireForm, isWritable]
    rcases sequenceShape_cases xs with hx | ⟨hx, hs⟩ | ⟨hx, hs⟩ | ⟨hx, hs⟩ <;> rw [hx]
    · dsimp only
      rw [toWireAll_eq xs]
      exact map_ite_ok _ _ _
    · rw [allWritable_of_shape hs (by decide) (by decide)]
      rfl
    · exact setWire_numberSet xs
    · rw [allWritable_of_shape hs (by decide) (by decide)]
      rfl
  | .map es => by
    rw [toWire, wireForm, isWritable, toWireFields_eq es]
    exact map_ite_ok (fun fields => Wire.m (Entries.ofPairs fields)) _ _
  | .int n => by
    rw [toWire, wireForm, toText, map_ite_ok]
    rfl
  | .null | .bool _ | .text _ | .float _ | .decimal _ | .bytes _ _ | .date _ | .timestamp _
  | .foreign => by rw [toWire, wireForm]; rfl

theorem toWireAll_eq : ∀ xs : List Value,
    toWireAll xs = if allWritable xs then .ok (wireFormAll xs) else .error .badValue
  | [] => rfl
  | x :: xs => by
    have hrest (w : Wire) : (toWireAll xs >>= fun ws => pure (w :: ws)) =
        if allWritable xs then .ok (w :: wireFormAll xs) else .error .badValue := by
      rw [toWireAll_eq xs]
      exact map_ite_ok (w :: ·) _ _
    simp only [toWireAll, hrest, toWire_eq x]
    exact bind_ite_ok (· :: wireFormAll xs) _ _ _

theorem toWireFields_eq : ∀ es : List (Value × Value),
    toWireFields es = if entriesWritable es then .ok (wireFormFields es) else .error .badValue
  | [] => rfl
  | (k, v) :: es => by
    have hrest (name : String) (w : Wire) :
        (toWireFields es >>= fun fields => pure ((name, w) :: fields)) =
          if entriesWritable es then .ok ((name, w) :: wireFormFields es)
          else .error .badValue := by
      rw [toWireFields_eq es]
      exact map_ite_ok ((name, w) :: ·) _ _
    have hvalue (name : String) :
        (toWire v >>= fun w => if entriesWritable es then .ok ((name, w) :: wireFormFields es)
          else .error .badValue) =
          if v.isWritable && entriesWritable es then
            .ok ((name, v.wireForm) :: wireFormFields es) else .error .badValue := by
      rw [toWire_eq v]
      exact bind_ite_ok (fun w => (name, w) :: wireFormFields es) _ _ _
    simp only [toWireFields, hrest, hvalue, entriesWritable, Bool.and_assoc]
    exact bind_ite_ok (fun name => (name, v.wireForm) :: wireFormFields es) _ _ _

end

theorem toWire_eq_ok_iff {v : Value} {w : Wire} :
    v.toWire = .ok w ↔ v.isWritable = true ∧ v.wireForm = w := by
  rw [toWire_eq]
  cases v.isWritable <;> simp

theorem toWire_of_isWritable {v : Value} (h : v.isWritable = true) :
    v.toWire = .ok v.wireForm :=
  toWire_eq_ok_iff.mpr ⟨h, rfl⟩

/-- Whichever integer has too many digits, the fault is the same. -/
theorem toWire_of_not_isWritable {v : Value} (h : v.isWritable = false) :
    v.toWire = .error .badValue := by
  rw [toWire_eq, h]
  rfl

/-- A map is written as the item of its entries, if it is writable. -/
theorem toItem_map (es : List (Value × Value)) :
    toItem (.map es) = if isWritable (.map es) then .ok (Entries.ofPairs (wireFormFields es))
      else .error .badValue := by
  show (toWireFields es >>= fun fields => pure (Entries.ofPairs fields)) = _
  rw [toWireFields_eq, isWritable]
  exact map_ite_ok _ _ _

end Value

end ItemStore
