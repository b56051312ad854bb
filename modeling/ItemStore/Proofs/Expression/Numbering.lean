import ItemStore.Expression.Compile
import ItemStore.Proofs.Number.Digits
import ItemStore.Proofs.Text.Runs

/-
  How placeholders are numbered, in either grammar. What is compiled from a source is a skeleton
  that does not depend on the start: text, and holes for names and for values. Its holes take the
  numbers from the start on, one each, from left to right, names and values together
  (`compile_numbered`). So no number is used twice or left out, the last one is known from the
  start and the number of bindings, and expressions whose ranges of numbers do not meet can be
  merged: they have no placeholder in common.

  `Numbered start ps c` says this of a compiled expression `c`; `fill_numbered` proves it of any
  skeleton, by induction on its pieces. What it asks is written out apart from how skeletons are
  filled: the characters of a placeholder (`Hole.placeholder`) and the one entry under the tag of
  its type that a literal is bound to (`Literal.bound`).
-/

namespace ItemStore

/-- The placeholders of an expression, those of names before those of values. -/
def Compiled.placeholders (c : Compiled) : List String :=
  c.names.map (·.1) ++ c.values.map (·.1)

namespace Expression

/-- What a literal is bound to: a map with one entry, its payload as it is read under the tag of
its type. -/
def Literal.bound : Literal → Value
  | .string payload => .map [(.text "S", .text (String.ofList payload))]
  | .number text => .map [(.text "N", .text (String.ofList text))]
  | .binary payload => .map [(.text "B", .text (String.ofList payload))]
  | .null => .map [(.text "NULL", .bool true)]
  | .boolean b => .map [(.text "BOOL", .bool b)]
  | .strings parts => .map [(.text "SS", .list (parts.map fun p => .text (String.ofList p)))]
  | .numbers parts => .map [(.text "NS", .list (parts.map fun p => .text (String.ofList p)))]
  | .binaries parts => .map [(.text "BS", .list (parts.map fun p => .text (String.ofList p)))]

theorem Literal.wire_eq_bound (l : Literal) : l.wire = l.bound := by
  cases l <;> rfl

namespace Skeleton

/-! ## Holes -/

/-- A hole: a name or a value stands for a placeholder. -/
inductive Hole where
  | name (key : List Char)
  | value (literal : Literal)
  deriving DecidableEq, Inhabited

/-- The placeholder with a number that fills a hole. -/
def Hole.placeholder (index : Int) : Hole → List Char
  | .name _ => '#' :: 'V' :: Number.intText index
  | .value _ => ':' :: 'V' :: Number.intText index

/-- The binding of a numbered hole for a name. -/
def Hole.nameBinding? (index : Int) : Hole → Option (String × String)
  | .name key => some (String.ofList ('#' :: 'V' :: Number.intText index), String.ofList key)
  | .value _ => none

/-- The binding of a numbered hole for a value. -/
def Hole.valueBinding? (index : Int) : Hole → Option (String × Value)
  | .name _ => none
  | .value l => some (String.ofList (':' :: 'V' :: Number.intText index), l.bound)

/-- The holes of a skeleton, from left to right. -/
def holes : Skeleton → List Hole
  | [] => []
  | .char _ :: ps => holes ps
  | .name key :: ps => .name key :: holes ps
  | .value l :: ps => .value l :: holes ps

/-- A skeleton with texts in its holes, from left to right. -/
def write : Skeleton → List (List Char) → List Char
  | .char c :: ps, ts => c :: write ps ts
  | .name _ :: ps, t :: ts => t ++ write ps ts
  | .value _ :: ps, t :: ts => t ++ write ps ts
  | _, _ => []

/-- Holes with the numbers from `start` on. -/
def numbered (start : Int) (hs : List Hole) : List (Int × Hole) :=
  hs.mapIdx fun i h => (start + i, h)

theorem numbered_cons (start : Int) (h : Hole) (hs : List Hole) :
    numbered start (h :: hs) = (start, h) :: numbered (start + 1) hs := by
  have hshift : ∀ i : Nat, start + ((i + 1 : Nat) : Int) = start + 1 + i := by
    intro i
    omega
  unfold numbered
  rw [List.mapIdx_cons]
  simp only [hshift]
  rw [show start + ((0 : Nat) : Int) = start from Int.add_zero start]

/-- The numbers of holes are those from the start on, as many as there are holes. -/
theorem exists_mem_numbered {start index : Int} {hs : List Hole} :
    (∃ h, (index, h) ∈ numbered start hs) ↔ start ≤ index ∧ index < start + hs.length := by
  constructor
  · rintro ⟨h, hmem⟩
    obtain ⟨i, hi, he⟩ := List.mem_mapIdx.mp hmem
    have := (Prod.mk.inj he).1
    omega
  · rintro ⟨hle, hlt⟩
    have hi : (index - start).toNat < hs.length := by omega
    refine ⟨hs[(index - start).toNat], List.mem_mapIdx.mpr ⟨_, hi, ?_⟩⟩
    rw [Int.toNat_of_nonneg (by omega), Int.add_comm, Int.sub_add_cancel]

/-- The text that is sent, with the placeholders of the holes in their places. -/
def sent (start : Int) (ps : Skeleton) : List Char :=
  ps.write ((numbered start ps.holes).map fun x => x.2.placeholder x.1)

/-- The names that are bound, each to the placeholder of its hole. -/
def boundNames (start : Int) (ps : Skeleton) : List (String × String) :=
  (numbered start ps.holes).filterMap fun x => x.2.nameBinding? x.1

/-- The values that are bound, each to the placeholder of its hole. -/
def boundValues (start : Int) (ps : Skeleton) : List (String × Value) :=
  (numbered start ps.holes).filterMap fun x => x.2.valueBinding? x.1

/-- No two holes have one number. -/
theorem eq_of_mem_numbered {start index : Int} {hs : List Hole} {h h' : Hole}
    (hh : (index, h) ∈ numbered start hs) (hh' : (index, h') ∈ numbered start hs) : h = h' := by
  obtain ⟨i, hi, he⟩ := List.mem_mapIdx.mp hh
  obtain ⟨j, hj, he'⟩ := List.mem_mapIdx.mp hh'
  obtain ⟨h₁, rfl⟩ := Prod.mk.inj he
  obtain ⟨h₂, rfl⟩ := Prod.mk.inj he'
  have hij : i = j := by omega
  subst hij
  rfl

/-! ## Placeholders -/

/-- A placeholder tells its number. -/
theorem placeholder_inj {i j : Int} {h h' : Hole} (he : h.placeholder i = h'.placeholder j) :
    i = j := by
  have key : ∀ (i : Int) (h : Hole), (h.placeholder i).drop 2 = Number.intText i := by
    intro i h
    cases h <;> rfl
  exact Number.intText_inj (by rw [← key i h, he, key j h'])

/-- A placeholder tells whether it is for a name. -/
theorem namePlaceholder_ne_valuePlaceholder (i j : Int) :
    namePlaceholder i ≠ valuePlaceholder j := by
  intro h
  exact absurd (List.cons.inj h).1 (by decide)

/-- The number of a placeholder is read back from it. -/
theorem indexOf_placeholder {i : Int} (hi : 0 ≤ i) (h : Hole) :
    (Compiled.indexOf (String.ofList (h.placeholder i)) : Int) = i := by
  have hdigits : ∀ c ∈ Number.digits i.toNat, Text.isDigit c = true :=
    fun c => Number.isDigit_of_mem_digits
  have hsome : ∀ mark, (mark == '#' || mark == ':') = true →
      Compiled.indexDigits? (mark :: 'V' :: Number.intText i) =
        some (Number.digits i.toNat) := by
    intro mark hmark
    rw [Number.intText_of_nonneg hi, Compiled.indexDigits?]
    rw [Text.takeWhile_all hdigits, Text.dropWhile_all hdigits, hmark,
      List.isEmpty_eq_false_iff.mpr (Number.digits_ne_nil _)]
    rfl
  have hindex : Compiled.indexDigits? (h.placeholder i) = some (Number.digits i.toNat) := by
    cases h with
    | name key => exact hsome '#' (by decide)
    | value l => exact hsome ':' (by decide)
  rw [Compiled.indexOf, String.toList_ofList, hindex]
  show ((Number.valueOf (Number.digits i.toNat) : Nat) : Int) = i
  rw [Number.valueOf_digits, Int.toNat_of_nonneg hi]

/-- The placeholders of numbered holes, as text. -/
def placeholderTexts (start : Int) (hs : List Hole) : List String :=
  (numbered start hs).map fun x => String.ofList (x.2.placeholder x.1)

theorem placeholderTexts_cons (start : Int) (h : Hole) (hs : List Hole) :
    placeholderTexts start (h :: hs) =
      String.ofList (h.placeholder start) :: placeholderTexts (start + 1) hs := by
  rw [placeholderTexts, numbered_cons]
  rfl

theorem nodup_placeholderTexts (start : Int) (hs : List Hole) :
    (placeholderTexts start hs).Nodup := by
  induction hs generalizing start with
  | nil => exact List.nodup_nil
  | cons h hs ih =>
    rw [placeholderTexts_cons, List.nodup_cons]
    refine ⟨?_, ih (start + 1)⟩
    intro hmem
    obtain ⟨⟨i, h'⟩, hi, he⟩ := List.mem_map.mp hmem
    have hle := (exists_mem_numbered.mp ⟨h', hi⟩).1
    have := placeholder_inj (String.ofList_injective he)
    omega

/-! ## Filling -/

variable (start : Int) (ps : Skeleton)

/-- What stands behind holes is numbered from where they end. -/
theorem text_append (qs : Skeleton) :
    text start (ps ++ qs) = text start ps ++ text (start + ps.holes.length) qs := by
  induction ps generalizing start with
  | nil => simp [text, holes]
  | cons p ps ih =>
    cases p <;> simp [text, holes, ih, Int.add_assoc, Int.add_comm 1]

theorem names_append (qs : Skeleton) :
    names start (ps ++ qs) = names start ps ++ names (start + ps.holes.length) qs := by
  induction ps generalizing start with
  | nil => simp [names, holes]
  | cons p ps ih =>
    cases p <;> simp [names, holes, ih, Int.add_assoc, Int.add_comm 1]

theorem values_append (qs : Skeleton) :
    values start (ps ++ qs) = values start ps ++ values (start + ps.holes.length) qs := by
  induction ps generalizing start with
  | nil => simp [values, holes]
  | cons p ps ih =>
    cases p <;> simp [values, holes, ih, Int.add_assoc, Int.add_comm 1]

theorem text_eq_sent : text start ps = sent start ps := by
  induction ps generalizing start with
  | nil => rfl
  | cons p ps ih =>
    rw [sent]
    cases p with
    | char c => rw [text, ih, sent, holes, write]
    | name key =>
      rw [text, ih, holes, numbered_cons, List.map_cons, write]
      rfl
    | value l =>
      rw [text, ih, holes, numbered_cons, List.map_cons, write]
      rfl

theorem names_eq_boundNames : names start ps = boundNames start ps := by
  induction ps generalizing start with
  | nil => rfl
  | cons p ps ih =>
    rw [boundNames]
    cases p with
    | char c => rw [names, ih, boundNames, holes]
    | name key =>
      rw [names, ih, holes, numbered_cons]
      rfl
    | value l =>
      rw [names, ih, holes, numbered_cons]
      rfl

theorem values_eq_boundValues : values start ps = boundValues start ps := by
  induction ps generalizing start with
  | nil => rfl
  | cons p ps ih =>
    rw [boundValues]
    cases p with
    | char c => rw [values, ih, boundValues, holes]
    | name key =>
      rw [values, ih, holes, numbered_cons]
      rfl
    | value l =>
      rw [values, ih, holes, numbered_cons, l.wire_eq_bound]
      rfl

/-- The bindings have the placeholders of the holes, each once. -/
theorem placeholders_perm :
    (ps.fill start).placeholders.Perm (placeholderTexts start ps.holes) := by
  show ((names start ps).map (·.1) ++ (values start ps).map (·.1)).Perm _
  induction ps generalizing start with
  | nil => exact .refl _
  | cons p ps ih =>
    cases p with
    | char c => exact ih start
    | name key =>
      rw [names, values, holes, placeholderTexts_cons]
      exact (ih (start + 1)).cons _
    | value l =>
      rw [names, values, holes, placeholderTexts_cons]
      exact List.perm_middle.trans ((ih (start + 1)).cons _)

/-- No placeholder is bound twice. -/
theorem nodup_fill : (ps.fill start).placeholders.Nodup :=
  (placeholders_perm start ps).nodup_iff.mpr (nodup_placeholderTexts _ _)

theorem nodup_names : ((names start ps).map Prod.fst).Nodup :=
  (List.nodup_append.mp (nodup_fill start ps)).1

theorem nodup_values : ((values start ps).map Prod.fst).Nodup :=
  (List.nodup_append.mp (nodup_fill start ps)).2.1

/-! ## Numbered expressions -/

/-- An expression is a skeleton with its holes numbered from the start on. -/
structure Numbered (start : Int) (ps : Skeleton) (c : Compiled) : Prop where
  expression_eq : c.expression = String.ofList (sent start ps)
  names_eq : c.names = boundNames start ps
  values_eq : c.values = boundValues start ps
  size_eq : c.names.length + c.values.length = ps.holes.length
  nodup : c.placeholders.Nodup
  /-- The numbers used are those from the start on, as many as there are bindings. -/
  index_iff : ∀ i : Int,
    (String.ofList ('#' :: 'V' :: Number.intText i) ∈ c.placeholders ∨
      String.ofList (':' :: 'V' :: Number.intText i) ∈ c.placeholders) ↔
    start ≤ i ∧ i < start + (c.names.length + c.values.length : Nat)
  /-- No number is used for a name and for a value. -/
  index_once : ∀ i : Int,
    String.ofList ('#' :: 'V' :: Number.intText i) ∈ c.placeholders →
      String.ofList (':' :: 'V' :: Number.intText i) ∉ c.placeholders
  lastIndex_eq : (c.lastIndex : Int) =
    if c.names.length + c.values.length = 0 then 0
    else start + (c.names.length + c.values.length : Nat) - 1

theorem mem_placeholders {text : String} :
    text ∈ (ps.fill start).placeholders ↔
      ∃ i h, (i, h) ∈ numbered start ps.holes ∧ text = String.ofList (h.placeholder i) := by
  rw [(placeholders_perm start ps).mem_iff, placeholderTexts, List.mem_map]
  constructor
  · rintro ⟨⟨i, h⟩, hmem, rfl⟩
    exact ⟨i, h, hmem, rfl⟩
  · rintro ⟨i, h, hmem, rfl⟩
    exact ⟨(i, h), hmem, rfl⟩

theorem size_fill : (ps.fill start).names.length + (ps.fill start).values.length =
    ps.holes.length := by
  have hlen := (placeholders_perm start ps).length_eq
  rw [Compiled.placeholders, List.length_append, List.length_map, List.length_map,
    placeholderTexts, List.length_map, numbered, List.length_mapIdx] at hlen
  exact hlen

/-- The numbers of the placeholders are those of the holes. -/
theorem exists_placeholder_mem {i : Int} :
    (∃ h : Hole, String.ofList (h.placeholder i) ∈ (ps.fill start).placeholders) ↔
      start ≤ i ∧ i < start + ps.holes.length := by
  rw [← exists_mem_numbered]
  constructor
  · rintro ⟨h, hmem⟩
    obtain ⟨j, h', hj, he⟩ := (mem_placeholders start ps).mp hmem
    rw [placeholder_inj (String.ofList_injective he)]
    exact ⟨h', hj⟩
  · rintro ⟨h, hmem⟩
    exact ⟨h, (mem_placeholders start ps).mpr ⟨i, h, hmem, rfl⟩⟩

theorem lastIndex_le_iff {c : Compiled} {m : Nat} :
    c.lastIndex ≤ m ↔ ∀ p ∈ c.placeholders, Compiled.indexOf p ≤ m := by
  have key : ∀ (l : List String) (n : Nat),
      l.foldl (fun n p => max n (Compiled.indexOf p)) n ≤ m ↔
        n ≤ m ∧ ∀ p ∈ l, Compiled.indexOf p ≤ m := by
    intro l
    induction l with
    | nil => simp
    | cons p l ih =>
      intro n
      rw [List.foldl_cons, ih, Nat.max_le, and_assoc, List.forall_mem_cons]
  rw [Compiled.lastIndex, ← Compiled.placeholders, key]
  exact and_iff_right (Nat.zero_le m)

/-- The last number is that of the last hole. -/
theorem lastIndex_fill (hs : 1 ≤ start) :
    ((ps.fill start).lastIndex : Int) =
      if ps.holes.length = 0 then 0 else start + ps.holes.length - 1 := by
  have hle : ∀ m : Nat, (ps.fill start).lastIndex ≤ m ↔
      ∀ i : Int, start ≤ i → i < start + ps.holes.length → i ≤ m := by
    intro m
    rw [lastIndex_le_iff]
    constructor
    · intro hall i hi hlt
      obtain ⟨h, hmem⟩ := (exists_placeholder_mem start ps).mpr ⟨hi, hlt⟩
      have hindex := indexOf_placeholder (show 0 ≤ i by omega) h
      have := hall _ hmem
      omega
    · intro hall p hp
      obtain ⟨i, h, hmem, rfl⟩ := (mem_placeholders start ps).mp hp
      obtain ⟨hi, hlt⟩ := exists_mem_numbered.mp ⟨h, hmem⟩
      have hindex := indexOf_placeholder (show 0 ≤ i by omega) h
      have := hall i hi hlt
      omega
  have hself := (hle _).mp (Nat.le_refl _) (start + ps.holes.length - 1)
  have hleast := (hle (start + ps.holes.length - 1).toNat).mpr fun i _ _ => by omega
  have hzero := hle 0
  split
  · have := hzero.mpr fun i _ _ => by omega
    omega
  · omega

/-- Any skeleton is filled with numbers from the start on. -/
theorem fill_numbered (hs : 1 ≤ start) : Numbered start ps (ps.fill start) := by
  have hiff : ∀ i : Int, (∃ h : Hole,
      String.ofList (h.placeholder i) ∈ (ps.fill start).placeholders) ↔
        start ≤ i ∧ i < start + ps.holes.length :=
    fun i => exists_placeholder_mem start ps
  refine ⟨?_, names_eq_boundNames start ps, values_eq_boundValues start ps, size_fill start ps,
    nodup_fill start ps, ?_, ?_, ?_⟩
  · rw [← text_eq_sent]
    rfl
  · intro i
    rw [size_fill, ← hiff]
    constructor
    · rintro (hmem | hmem)
      · exact ⟨.name [], hmem⟩
      · exact ⟨.value .null, hmem⟩
    · rintro ⟨h, hmem⟩
      cases h with
      | name key => exact .inl hmem
      | value l => exact .inr hmem
  · intro i hname hvalue
    obtain ⟨j, h, hj, he⟩ := (mem_placeholders start ps).mp hname
    obtain ⟨j', h', hj', he'⟩ := (mem_placeholders start ps).mp hvalue
    have hi : i = j := placeholder_inj (h := .name []) (String.ofList_injective he)
    have hi' : i = j' := placeholder_inj (h := .value .null) (String.ofList_injective he')
    subst hi hi'
    rw [eq_of_mem_numbered hj hj'] at he
    exact namePlaceholder_ne_valuePlaceholder _ _
      (String.ofList_injective (he.trans he'.symm))
  · rw [size_fill]
    exact lastIndex_fill start ps hs

/-- Numbered expressions whose ranges of numbers do not meet have no placeholder in common. -/
theorem placeholders_disjoint (start' : Int) (ps' : Skeleton)
    (h : start + ps.holes.length ≤ start' ∨ start' + ps'.holes.length ≤ start) :
    ∀ p ∈ (ps.fill start).placeholders, p ∉ (ps'.fill start').placeholders := by
  intro p hp hp'
  obtain ⟨i, hole, hi, rfl⟩ := (mem_placeholders start ps).mp hp
  obtain ⟨hle, hlt⟩ := exists_mem_numbered.mp ⟨hole, hi⟩
  obtain ⟨hle', hlt'⟩ := (exists_placeholder_mem start' ps').mp ⟨hole, hp'⟩
  omega

end Skeleton

open Skeleton

/-- A source either fails alike from every start, or has one skeleton, which is compiled with its
holes numbered from the start on. Two expressions whose ranges of numbers do not meet, of
whatever grammars and sources, have no placeholder in common. -/
theorem compile_numbered (g : Grammar) (source : String) :
    (∃ e, ∀ start, compile g start source = .error e) ∨
      ∃ ps : Skeleton, ∀ start, 1 ≤ start → ∃ c, compile g start source = .ok c ∧
        Numbered start ps c ∧
        ∀ g' start' source' c', compile g' start' source' = .ok c' →
          (start + (c.names.length + c.values.length : Nat) ≤ start' ∨
            start' + (c'.names.length + c'.values.length : Nat) ≤ start) →
          ∀ p ∈ c.placeholders, p ∉ c'.placeholders := by
  cases hs : skeleton g source.toList with
  | error e =>
    refine .inl ⟨e, fun start => ?_⟩
    rw [compile, hs]
  | ok ps =>
    refine .inr ⟨ps, fun start hstart => ⟨ps.fill start, ?_, fill_numbered start ps hstart, ?_⟩⟩
    · rw [compile, hs]
    · intro g' start' source' c' hc' hranges
      rw [compile] at hc'
      cases hs' : skeleton g' source'.toList with
      | error e =>
        rw [hs'] at hc'
        cases hc'
      | ok ps' =>
        rw [hs'] at hc'
        cases hc'
        rw [size_fill, size_fill] at hranges
        exact placeholders_disjoint start ps start' ps' hranges

/-- An expression numbered from three on, next to one of two placeholders from one on. -/
theorem compile_numbered_merged :
    ∃ c c', compile .inferred 3 "a.b = 'x'" = .ok c ∧ compile .tagged 1 "$(k) = N(1)" = .ok c' ∧
      (c.lastIndex : Int) = 5 ∧ ∀ p ∈ c.placeholders, p ∉ c'.placeholders := by
  have hok : (compile .inferred 3 "a.b = 'x'").isOk = true := by decide +kernel
  have hsize : (compile .inferred 3 "a.b = 'x'").toOption.map
      (fun c => c.names.length + c.values.length) = some 3 := by decide +kernel
  have hsize' : (compile .tagged 1 "$(k) = N(1)").toOption.map
      (fun c => c.names.length + c.values.length) = some 2 := by decide +kernel
  rcases compile_numbered .inferred "a.b = 'x'" with ⟨e, he⟩ | ⟨ps, hps⟩
  · rw [he 3] at hok
    cases hok
  · obtain ⟨c, hc, hn, hdisjoint⟩ := hps 3 (by decide)
    cases hc' : compile .tagged 1 "$(k) = N(1)" with
    | error e =>
      rw [hc'] at hsize'
      cases hsize'
    | ok c' =>
      rw [hc] at hsize
      rw [hc'] at hsize'
      have hk : c.names.length + c.values.length = 3 := Option.some.inj hsize
      have hk' : c'.names.length + c'.values.length = 2 := Option.some.inj hsize'
      refine ⟨c, c', hc, rfl, ?_, hdisjoint .tagged 1 _ c' hc' (.inr ?_)⟩
      · rw [hn.lastIndex_eq, hk]
        rfl
      · rw [hk']
        decide

end Expression

end ItemStore
