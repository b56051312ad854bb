import ItemStore.Proofs.Number.Numerals
import ItemStore.Proofs.Number.Scripts
import ItemStore.Proofs.Text.Classes

/-
  The texts of numbers, as a grammar. A number is digits with or without a point, on either side of
  which digits may be missing but not on both, then an exponent or none (`Unsigned`); in front of it
  there may be a sign (`Signed`). The grammar says which number a text writes, and
  `scientific?_eq_some_iff` that it is what the readers share.

  A reader takes its class of white space off a text (`within`) and leaves out the underscores
  (`bare`); for integers and binary64 numbers each of these has to stand between two digits
  (`Groups`). What is left has to be a number of the grammar: `readInt?_eq_some_iff` says so of
  texts without point and exponent, `readBinary64?_eq_some_iff` of the others, and
  `readDecimal?_of_signed` of all, where the decimal has to be in range. The names of infinities and
  not-a-numbers are no numbers of the grammar, and they have neither point nor exponent.
-/

namespace ItemStore.Number

open Text

/-! ## Numbers -/

/-- A sign, which may be missing, and whether it is minus. -/
inductive Sign : List Char → Bool → Prop
  | missing : Sign [] false
  | plus : Sign ['+'] false
  | minus : Sign ['-'] true

/-- An exponent, which may be missing. -/
inductive Exponent : List Char → Int → Prop
  | missing : Exponent [] 0
  | power {letter : Char} {sign ds : List Char} {negative : Bool}
      (letter_eq : letter = 'e' ∨ letter = 'E') (hsign : Sign sign negative) (hne : ds ≠ [])
      (hd : ∀ c ∈ ds, isPlainDigit c = true) :
    Exponent (letter :: (sign ++ ds)) (if negative then -(valueOf ds : Int) else valueOf ds)

/-- An unsigned number: its coefficient and its power of ten. -/
inductive Unsigned : List Char → Nat → Int → Prop
  | whole {ds tail : List Char} {e : Int} (hne : ds ≠ []) (hd : ∀ c ∈ ds, isPlainDigit c = true)
      (htail : Exponent tail e) : Unsigned (ds ++ tail) (valueOf ds) e
  | pointed {ds fs tail : List Char} {e : Int} (hne : ds = [] → fs ≠ [])
      (hd : ∀ c ∈ ds, isPlainDigit c = true) (hf : ∀ c ∈ fs, isPlainDigit c = true)
      (htail : Exponent tail e) :
    Unsigned (ds ++ '.' :: (fs ++ tail)) (valueOf (ds ++ fs)) (e - fs.length)

/-- A number with its sign. -/
inductive Signed : List Char → Bool → Nat → Int → Prop
  | mk {sign body : List Char} {negative : Bool} {c : Nat} {e : Int}
      (hsign : Sign sign negative) (hbody : Unsigned body c e) : Signed (sign ++ body) negative c e

/-! ## Signs -/

/-- What does not start with a sign. -/
def Signless (cs : List Char) : Prop :=
  Stops (· == '-') cs ∧ Stops (· == '+') cs

theorem splitSign_of_signless {cs : List Char} (h : Signless cs) : splitSign cs = (false, cs) := by
  unfold splitSign
  split
  · exact absurd (stops_cons.mp h.1) (by decide)
  · exact absurd (stops_cons.mp h.2) (by decide)
  · rfl

theorem Sign.splitSign_eq {sign : List Char} {negative : Bool} (h : Sign sign negative)
    {body : List Char} (hbody : Signless body) : splitSign (sign ++ body) = (negative, body) := by
  cases h with
  | missing => exact splitSign_of_signless hbody
  | plus => rfl
  | minus => rfl

theorem exists_sign (cs : List Char) :
    ∃ sign negative body,
      Sign sign negative ∧ cs = sign ++ body ∧ splitSign cs = (negative, body) := by
  unfold splitSign
  split
  · exact ⟨_, _, _, .minus, rfl, rfl⟩
  · exact ⟨_, _, _, .plus, rfl, rfl⟩
  · exact ⟨_, _, _, .missing, rfl, rfl⟩

theorem signless_cons {d : Char} (h : Decimal.isLeading d = true) (cs : List Char) :
    Signless (d :: cs) :=
  ⟨stops_cons.mpr (beq_eq_false_iff_ne.mpr (ne_of_class h (by decide))),
    stops_cons.mpr (beq_eq_false_iff_ne.mpr (ne_of_class h (by decide)))⟩

theorem signless_of_digits {ds : List Char} (hne : ds ≠ [])
    (hd : ∀ c ∈ ds, isPlainDigit c = true) : Signless ds := by
  cases ds with
  | nil => exact absurd rfl hne
  | cons d ds =>
    exact signless_cons (Decimal.isLeading_of_isPlainDigit (hd d List.mem_cons_self)) ds

/-! ## Runs of digits -/

/-- A run of digits with a sign in front of it. -/
theorem signedNatural?_eq_some_iff {cs : List Char} {n : Int} :
    signedNatural? cs = some n ↔ (splitSign cs).2 ≠ [] ∧
      (∀ c ∈ (splitSign cs).2, isPlainDigit c = true) ∧
        n = if (splitSign cs).1 then -(valueOf (splitSign cs).2 : Int)
          else valueOf (splitSign cs).2 := by
  rw [signedNatural?, Option.map_eq_some_iff]
  simp only [natural?_eq_some_iff]
  constructor
  · rintro ⟨_, ⟨hne, hd, rfl⟩, rfl⟩
    exact ⟨hne, hd, rfl⟩
  · rintro ⟨hne, hd, rfl⟩
    exact ⟨_, ⟨hne, hd, rfl⟩, rfl⟩

/-! ## Exponents -/

theorem exponent?_eq_some_iff {cs : List Char} {e : Int} :
    exponent? cs = some e ↔ Exponent cs e := by
  constructor
  · intro h
    cases cs with
    | nil =>
      cases h
      exact .missing
    | cons c cs =>
      rw [exponent?] at h
      split at h
      · next hletter =>
        rw [Bool.or_eq_true, decide_eq_true_eq, decide_eq_true_eq] at hletter
        obtain ⟨sign, negative, ds, hsign, rfl, hsplit⟩ := exists_sign cs
        rw [signedNatural?_eq_some_iff, hsplit] at h
        obtain ⟨hne, hd, rfl⟩ := h
        exact .power hletter hsign hne hd
      · cases h
  · intro h
    cases h with
    | missing => rfl
    | @power letter sign ds negative hletter hsign hne hd =>
      have hsplit := hsign.splitSign_eq (signless_of_digits hne hd)
      have hcond : (decide (letter = 'e') || decide (letter = 'E')) = true := by
        rw [Bool.or_eq_true, decide_eq_true_eq, decide_eq_true_eq]
        exact hletter
      rw [exponent?, if_pos hcond, signedNatural?_eq_some_iff, hsplit]
      exact ⟨hne, hd, rfl⟩

/-- Neither a digit nor a point goes on behind a number. -/
theorem Exponent.stops {tail : List Char} {e : Int} (h : Exponent tail e) :
    Stops isPlainDigit tail ∧ Stops (· == '.') tail := by
  cases h with
  | missing => exact ⟨stops_nil _, stops_nil _⟩
  | power hletter =>
    rw [stops_cons, stops_cons]
    rcases hletter with rfl | rfl <;> decide

/-! ## Unsigned numbers -/

theorem Unsigned.exists_cons {cs : List Char} {c : Nat} {e : Int} (h : Unsigned cs c e) :
    ∃ d ds, cs = d :: ds ∧ Decimal.isLeading d = true := by
  cases h with
  | @whole ds _ _ hne hd _ =>
    cases ds with
    | nil => exact absurd rfl hne
    | cons d ds => exact ⟨d, _, rfl, Decimal.isLeading_of_isPlainDigit (hd d List.mem_cons_self)⟩
  | @pointed ds _ _ _ _ hd _ _ =>
    cases ds with
    | nil => exact ⟨'.', _, rfl, rfl⟩
    | cons d ds => exact ⟨d, _, rfl, Decimal.isLeading_of_isPlainDigit (hd d List.mem_cons_self)⟩

theorem Unsigned.signless {cs : List Char} {c : Nat} {e : Int} (h : Unsigned cs c e) :
    Signless cs := by
  obtain ⟨d, ds, rfl, hd⟩ := h.exists_cons
  exact signless_cons hd ds

/-- The readers take just the unsigned numbers, for the number that is written. -/
theorem scientific?_eq_some_iff {cs : List Char} {c : Nat} {e : Int} :
    scientific? cs = some (c, e) ↔ Unsigned cs c e := by
  constructor
  · intro h
    have hcs : cs = cs.takeWhile isPlainDigit ++ cs.dropWhile isPlainDigit :=
      List.takeWhile_append_dropWhile.symm
    have hd : ∀ c ∈ cs.takeWhile isPlainDigit, isPlainDigit c = true :=
      List.all_eq_true.mp List.all_takeWhile
    unfold scientific? at h
    dsimp only at h
    rw [hcs]
    generalize cs.takeWhile isPlainDigit = ds at h hd
    generalize cs.dropWhile isPlainDigit = rest at h
    split at h
    · next more =>
      -- a point, then the digits and the exponent behind it
      have hmore : more = more.takeWhile isPlainDigit ++ more.dropWhile isPlainDigit :=
        List.takeWhile_append_dropWhile.symm
      have hf : ∀ c ∈ more.takeWhile isPlainDigit, isPlainDigit c = true :=
        List.all_eq_true.mp List.all_takeWhile
      dsimp only at h
      rw [hmore]
      generalize more.takeWhile isPlainDigit = fs at h hf
      generalize more.dropWhile isPlainDigit = tail at h
      split at h
      · cases h
      · next hne =>
        obtain ⟨e', he, hpair⟩ := Option.map_eq_some_iff.mp h
        obtain ⟨rfl, rfl⟩ := Prod.mk.inj hpair
        exact .pointed (fun hnil hfs => hne ⟨hnil, hfs⟩) hd hf (exponent?_eq_some_iff.mp he)
    · dsimp only at h
      split at h
      · cases h
      · next hne =>
        obtain ⟨e', he, hpair⟩ := Option.map_eq_some_iff.mp h
        obtain ⟨rfl, rfl⟩ := Prod.mk.inj hpair
        rw [List.append_nil, List.length_nil, Int.natCast_zero, Int.sub_zero]
        exact .whole (fun hnil => hne ⟨hnil, rfl⟩) hd (exponent?_eq_some_iff.mp he)
  · intro h
    cases h with
    | whole hne hd htail =>
      exact scientific?_run hne hd htail.stops.1 htail.stops.2 (exponent?_eq_some_iff.mpr htail)
    | pointed hne hd hf htail =>
      exact scientific?_point hne hd hf htail.stops.1 (exponent?_eq_some_iff.mpr htail)

/-- A number with its sign is split into the two. -/
theorem signed_iff {cs : List Char} {negative : Bool} {c : Nat} {e : Int} :
    Signed cs negative c e ↔
      (splitSign cs).1 = negative ∧ scientific? (splitSign cs).2 = some (c, e) := by
  constructor
  · rintro ⟨hsign, hbody⟩
    rw [hsign.splitSign_eq hbody.signless]
    exact ⟨rfl, scientific?_eq_some_iff.mpr hbody⟩
  · rintro ⟨rfl, hbody⟩
    obtain ⟨sign, negative, body, hsign, rfl, hsplit⟩ := exists_sign cs
    rw [hsplit] at hbody ⊢
    exact .mk hsign (scientific?_eq_some_iff.mp hbody)

/-! ## Groups of digits -/

/-- Each underscore stands between two digits; `prev` is the character in front of the text. -/
def Groups (prev : Char) (cs : List Char) : Prop :=
  ∀ before after, cs = before ++ '_' :: after →
    isPlainDigit (before.getLast?.getD prev) = true ∧ after.head?.any isPlainDigit = true

theorem groups_cons {prev c : Char} {cs : List Char} :
    Groups prev (c :: cs) ↔
      (c = '_' → isPlainDigit prev = true ∧ cs.head?.any isPlainDigit = true) ∧ Groups c cs := by
  constructor
  · refine fun h => ⟨fun hc => h [] cs (by rw [hc]; rfl), fun before after hcs => ?_⟩
    have hlast := h (c :: before) after (by rw [hcs]; rfl)
    rwa [List.getLast?_cons] at hlast
  · rintro ⟨hhead, hrest⟩ before after hcs
    cases before with
    | nil =>
      obtain ⟨rfl, rfl⟩ := List.cons.inj hcs
      exact hhead rfl
    | cons b before =>
      obtain ⟨rfl, htail⟩ := List.cons.inj hcs
      rw [List.getLast?_cons]
      exact hrest before after htail

theorem ungroup?_eq_some_iff {prev : Char} {cs ds : List Char} :
    ungroup? prev cs = some ds ↔ Groups prev cs ∧ ds = cs.filter (· ≠ '_') := by
  induction cs generalizing prev ds with
  | nil =>
    have hnil : Groups prev [] := fun before after h => absurd h.symm (by simp)
    rw [ungroup?, Option.some.injEq]
    exact ⟨fun h => ⟨hnil, h.symm⟩, fun h => h.2.symm⟩
  | cons c cs ih =>
    rw [groups_cons]
    by_cases hc : c = '_'
    · subst hc
      rw [List.filter_cons_of_neg (by simp)]
      cases cs with
      | nil =>
        constructor
        · rintro ⟨⟩
        · exact fun h => absurd (h.1.1 rfl).2 Bool.false_ne_true
      | cons d rest =>
        rw [ungroup?, if_pos rfl, List.head?_cons, Option.any_some]
        split
        · next hd =>
          rw [Bool.and_eq_true] at hd
          rw [ih]
          exact ⟨fun h => ⟨⟨fun _ => hd, h.1⟩, h.2⟩, fun h => ⟨h.1.2, h.2⟩⟩
        · next hd =>
          rw [Bool.and_eq_true] at hd
          constructor
          · rintro ⟨⟩
          · exact fun h => absurd (h.1.1 rfl) hd
    · have hopen : ungroup? prev (c :: cs) = (ungroup? c cs).map (c :: ·) := by
        rw [ungroup?.eq_def]
        exact if_neg hc
      rw [hopen, Option.map_eq_some_iff, List.filter_cons_of_pos (by simpa using hc)]
      constructor
      · rintro ⟨ds', hds, rfl⟩
        obtain ⟨hgroups, rfl⟩ := ih.mp hds
        exact ⟨⟨fun h => absurd h hc, hgroups⟩, rfl⟩
      · rintro ⟨⟨-, hgroups⟩, rfl⟩
        exact ⟨_, ih.mpr ⟨hgroups, rfl⟩, rfl⟩

/-! ## Texts around numbers -/

/-- A text without white space of a class around it, with its digits in ASCII. -/
def within (p : Char → Bool) (cs : List Char) : List Char :=
  plainDigits (trim p cs)

/-- A text without its underscores. -/
def bare (cs : List Char) : List Char :=
  cs.filter (· ≠ '_')

theorem normalize?_eq_some_iff {cs ds : List Char} :
    normalize? cs = some ds ↔ Groups ' ' (within isMargin cs) ∧ ds = bare (within isMargin cs) :=
  ungroup?_eq_some_iff

/-- A text is refused if its underscores do not group digits, and is bare otherwise. -/
theorem normalize?_cases (cs : List Char) :
    (Groups ' ' (within isMargin cs) ∧ normalize? cs = some (bare (within isMargin cs))) ∨
      (¬Groups ' ' (within isMargin cs) ∧ normalize? cs = none) := by
  by_cases hgroups : Groups ' ' (within isMargin cs)
  · exact .inl ⟨hgroups, normalize?_eq_some_iff.mpr ⟨hgroups, rfl⟩⟩
  · refine .inr ⟨hgroups, Option.eq_none_iff_forall_ne_some.mpr fun ds hds => ?_⟩
    exact hgroups (normalize?_eq_some_iff.mp hds).1

/-- Only underscores are written as underscores. -/
theorem plainDigits_bare (cs : List Char) : plainDigits (bare cs) = bare (plainDigits cs) := by
  rw [bare, bare, plainDigits, plainDigits, List.filter_map]
  refine congrArg _ (List.filter_congr fun c _ => ?_)
  rw [Function.comp_apply]
  rcases plainDigits_cases c with ⟨d, hd, hc, hvalue, -⟩ | ⟨hc, -⟩
  · have hdigit : digitChar d ≠ '_' := ne_of_class (isPlainDigit_digitChar hd) (by decide)
    have hchar : c ≠ '_' := ne_of_class hc (by decide)
    rw [hvalue, decide_eq_true hchar]
    exact (decide_eq_true hdigit).symm
  · rw [digitValue?_eq_none_iff.mpr hc]

/-- A point or the letter of an exponent. -/
def hasFraction (cs : List Char) : Bool :=
  cs.any fun c => c == '.' || c == 'e' || c == 'E'

theorem hasFraction_of_class {p : Char → Bool} (hpoint : p '.' = false) (hsmall : p 'e' = false)
    (hlarge : p 'E' = false) {cs : List Char} (h : ∀ c ∈ cs, p c = true) :
    hasFraction cs = false := by
  rw [hasFraction, List.any_eq_false]
  intro c hc
  rw [Bool.or_eq_true, Bool.or_eq_true, beq_iff_eq, beq_iff_eq, beq_iff_eq, not_or, not_or]
  exact ⟨⟨ne_of_class (h c hc) hpoint, ne_of_class (h c hc) hsmall⟩, ne_of_class (h c hc) hlarge⟩

theorem hasFraction_append (cs ds : List Char) :
    hasFraction (cs ++ ds) = (hasFraction cs || hasFraction ds) :=
  List.any_append

theorem hasFraction_bare (cs : List Char) : hasFraction (bare cs) = hasFraction cs := by
  rw [hasFraction, bare, List.any_filter]
  refine congrArg (List.any cs) (funext fun c => ?_)
  by_cases hc : c = '_'
  · subst hc
    rfl
  · rw [decide_eq_true hc, Bool.true_and]

/-- White space around a text is no part of its fraction. -/
theorem hasFraction_within {p : Char → Bool} (hpoint : p '.' = false) (hsmall : p 'e' = false)
    (hlarge : p 'E' = false) (cs : List Char) : hasFraction (within p cs) = hasFraction cs := by
  obtain ⟨front, back, hfront, hback, hcs⟩ := exists_trim p cs
  calc hasFraction (within p cs)
      = hasFraction (trim p cs) := any_plainDigits _
    _ = hasFraction (front ++ trim p cs ++ back) := by
      rw [hasFraction_append, hasFraction_append, hasFraction_of_class hpoint hsmall hlarge hfront,
        hasFraction_of_class hpoint hsmall hlarge hback, Bool.false_or, Bool.or_false]
    _ = hasFraction cs := by rw [← hcs]

theorem Unsigned.of_hasFraction {cs : List Char} {c : Nat} {e : Int} (h : Unsigned cs c e)
    (hplain : hasFraction cs = false) :
    cs ≠ [] ∧ (∀ d ∈ cs, isPlainDigit d = true) ∧ c = valueOf cs ∧ e = 0 := by
  cases h with
  | whole hne hd htail =>
    cases htail with
    | missing =>
      rw [List.append_nil]
      exact ⟨hne, hd, rfl, rfl⟩
    | power hletter =>
      rcases hletter with rfl | rfl <;> simp [hasFraction] at hplain
  | pointed => simp [hasFraction] at hplain

/-! ## Words -/

/-- What has a point or an exponent is no word that has neither a point nor an e. -/
theorem isWordOf_of_hasFraction {word : String} (hword : ∀ c ∈ word.toList, c ≠ '.' ∧ c ≠ 'e')
    {cs : List Char} (h : hasFraction cs = true) : isWordOf word cs = false := by
  obtain ⟨c, hc, hfraction⟩ := List.any_eq_true.mp h
  rw [isWordOf, beq_eq_false_iff_ne]
  intro hsame
  have hlower : c.toLower ∈ word.toList := hsame ▸ List.mem_map_of_mem hc
  rw [Bool.or_eq_true, Bool.or_eq_true, beq_iff_eq, beq_iff_eq, beq_iff_eq] at hfraction
  rcases hfraction with (rfl | rfl) | rfl
  · exact (hword _ hlower).1 rfl
  · exact (hword _ hlower).2 rfl
  · exact (hword _ hlower).2 rfl

theorem isInfinity_of_hasFraction {cs : List Char} (h : hasFraction cs = true) :
    isInfinity cs = false := by
  rw [isInfinity, isWordOf_of_hasFraction (forall_mem_of_all (by decide +kernel)) h,
    isWordOf_of_hasFraction (forall_mem_of_all (by decide +kernel)) h]
  rfl

/-! ## White space around numbers -/

theorem isBlank_of_isMargin {c : Char} (h : isMargin c = true) : isBlank c = true := by
  rw [isMargin, Bool.and_eq_true] at h
  exact h.1

/-- White space is kept where digits are written in ASCII and underscores are left out. -/
theorem mem_bare_of_isBlank {c : Char} (h : isBlank c = true) {cs : List Char} (hc : c ∈ cs) :
    c ∈ bare (plainDigits cs) := by
  have hdigit : digitValue? c = none := by
    rw [digitValue?_eq_none_iff, ← Bool.not_eq_true]
    intro hd
    rw [isBlank_of_isWord (isWord_of_isDigit hd)] at h
    cases h
  have hmem : c ∈ plainDigits cs := by
    refine List.mem_map.mpr ⟨c, hc, ?_⟩
    rw [hdigit]
  exact List.mem_filter.mpr ⟨hmem, decide_eq_true (ne_of_class h (by decide +kernel))⟩

theorem isBlank_of_isPlainDigit {c : Char} (h : isPlainDigit c = true) : isBlank c = false := by
  rw [isPlainDigit, Bool.and_eq_true, decide_eq_true_eq, decide_eq_true_eq] at h
  have hdigit : isDigit c = true :=
    Ranges.has_iff.mpr ⟨(0x30, 0x39), List.mem_cons_self, UInt32.le_iff_toNat_le.mp h.1,
      UInt32.le_iff_toNat_le.mp h.2⟩
  exact isBlank_of_isWord (isWord_of_isDigit hdigit)

theorem Sign.isBlank_of_mem {cs : List Char} {negative : Bool} (h : Sign cs negative) :
    ∀ c ∈ cs, isBlank c = false := by
  cases h with
  | missing => exact List.forall_mem_nil _
  | plus => exact List.forall_mem_singleton.mpr (by decide +kernel)
  | minus => exact List.forall_mem_singleton.mpr (by decide +kernel)

theorem Exponent.isBlank_of_mem {cs : List Char} {e : Int} (h : Exponent cs e) :
    ∀ c ∈ cs, isBlank c = false := by
  cases h with
  | missing => exact List.forall_mem_nil _
  | power hletter hsign _ hd =>
    rw [List.forall_mem_cons, List.forall_mem_append]
    refine ⟨?_, hsign.isBlank_of_mem, fun c hc => isBlank_of_isPlainDigit (hd c hc)⟩
    rcases hletter with rfl | rfl <;> decide +kernel

theorem Unsigned.isBlank_of_mem {cs : List Char} {n : Nat} {e : Int} (h : Unsigned cs n e) :
    ∀ c ∈ cs, isBlank c = false := by
  cases h with
  | whole _ hd htail =>
    rw [List.forall_mem_append]
    exact ⟨fun c hc => isBlank_of_isPlainDigit (hd c hc), htail.isBlank_of_mem⟩
  | pointed _ hd hf htail =>
    rw [List.forall_mem_append, List.forall_mem_cons, List.forall_mem_append]
    exact ⟨fun c hc => isBlank_of_isPlainDigit (hd c hc), by decide +kernel,
      fun c hc => isBlank_of_isPlainDigit (hf c hc), htail.isBlank_of_mem⟩

theorem Signed.isBlank_of_mem {cs : List Char} {negative : Bool} {n : Nat} {e : Int}
    (h : Signed cs negative n e) : ∀ c ∈ cs, isBlank c = false := by
  obtain ⟨hsign, hbody⟩ := h
  rw [List.forall_mem_append]
  exact ⟨hsign.isBlank_of_mem, hbody.isBlank_of_mem⟩

/-- Around a number there is no white space but what the smaller class takes off. -/
theorem Signed.trim_isBlank {cs : List Char} {negative : Bool} {n : Nat} {e : Int}
    (h : Signed (bare (within isMargin cs)) negative n e) : trim isBlank cs = trim isMargin cs := by
  have hinner : ∀ c ∈ trim isMargin cs, isBlank c = false := by
    intro c hc
    rw [← Bool.not_eq_true]
    intro hblank
    rw [h.isBlank_of_mem c (mem_bare_of_isBlank hblank hc)] at hblank
    cases hblank
  obtain ⟨front, back, hfront, hback, hcs⟩ := exists_trim isMargin cs
  rw [hcs, trim_of_ends (fun c hc => isBlank_of_isMargin (hfront c hc))
    (fun c hc => isBlank_of_isMargin (hback c hc))
    (fun c hc => hinner c (List.mem_of_mem_head? hc)) (endsOutside_of_forall hinner), ← hcs]

/-! ## Integers and binary64 numbers -/

/-- The sign has no point and no letter of an exponent. -/
theorem hasFraction_splitSign (cs : List Char) :
    hasFraction (splitSign cs).2 = hasFraction cs := by
  obtain ⟨sign, negative, body, hsign, rfl, hsplit⟩ := exists_sign cs
  rw [hsplit]
  cases hsign <;> rfl

theorem Signed.exponent_of_hasFraction {cs : List Char} {negative : Bool} {c : Nat} {e : Int}
    (h : Signed cs negative c e) (hplain : hasFraction cs = false) : e = 0 := by
  rw [← hasFraction_splitSign] at hplain
  exact ((scientific?_eq_some_iff.mp (signed_iff.mp h).2).of_hasFraction hplain).2.2.2

section

variable {cs : List Char}

/-- Whether a number text, behind its sign, is no longer than integers can be. -/
def IsShort (cs : List Char) : Prop :=
  (splitSign cs).2.length ≤ maxDigits

instance (cs : List Char) : Decidable (IsShort cs) :=
  inferInstanceAs (Decidable (_ ≤ _))

/-- A run of digits with a sign or none is the integer that it writes. -/
theorem signedNatural?_iff_signed {n : Int} (hplain : hasFraction cs = false) :
    signedNatural? cs = some n ↔
      ∃ negative c, Signed cs negative c 0 ∧ n = if negative then -(c : Int) else c := by
  rw [← hasFraction_splitSign] at hplain
  rw [signedNatural?_eq_some_iff]
  constructor
  · rintro ⟨hne, hd, rfl⟩
    have hbody := Unsigned.whole hne hd .missing
    rw [List.append_nil] at hbody
    exact ⟨_, _, signed_iff.mpr ⟨rfl, scientific?_eq_some_iff.mpr hbody⟩, rfl⟩
  · rintro ⟨negative, c, hsigned, rfl⟩
    obtain ⟨rfl, hbody⟩ := signed_iff.mp hsigned
    obtain ⟨hne, hd, rfl, -⟩ := (scientific?_eq_some_iff.mp hbody).of_hasFraction hplain
    exact ⟨hne, hd, rfl⟩

/-- Default reading takes a text without a point and an exponent for the integer that it writes, if
it has no more digits than integers can have. -/
theorem readInt?_eq_some_iff (hplain : hasFraction (bare (within isMargin cs)) = false) {n : Int} :
    readInt? cs = some n ↔ Groups ' ' (within isMargin cs) ∧
      IsShort (bare (within isMargin cs)) ∧
      ∃ negative c, Signed (bare (within isMargin cs)) negative c 0 ∧
        n = if negative then -(c : Int) else c := by
  rcases normalize?_cases cs with ⟨hgroups, hnormal⟩ | ⟨hgroups, hnormal⟩
  · rw [readInt?, hnormal, ← signedNatural?_iff_signed hplain, IsShort]
    dsimp only
    split
    · next hshort => exact ⟨fun h => ⟨hgroups, hshort, h⟩, fun h => h.2.2⟩
    · next hlong =>
      constructor
      · rintro ⟨⟩
      · exact fun h => absurd h.2.1 hlong
  · rw [readInt?, hnormal]
    constructor
    · rintro ⟨⟩
    · exact fun h => absurd h.1 hgroups

/-- Default reading takes a text with a point or an exponent for the nearest binary64 number. -/
theorem readBinary64?_eq_some_iff (hfraction : hasFraction (bare (within isMargin cs)) = true)
    {x : Binary64} :
    readBinary64? cs = some x ↔ Groups ' ' (within isMargin cs) ∧
      ∃ negative c e, Signed (bare (within isMargin cs)) negative c e ∧
        x = .ofDecimal negative c e := by
  rw [← hasFraction_splitSign] at hfraction
  rcases normalize?_cases cs with ⟨hgroups, hnormal⟩ | ⟨hgroups, hnormal⟩
  · have hread : readBinary64? cs = (scientific? (splitSign (bare (within isMargin cs))).2).map
        fun p => .ofDecimal (splitSign (bare (within isMargin cs))).1 p.1 p.2 := by
      rw [readBinary64?, hnormal]
      dsimp only
      rw [isInfinity_of_hasFraction hfraction, isWordOf_of_hasFraction (forall_mem_of_all
        (by decide +kernel)) hfraction]
      rfl
    rw [hread, Option.map_eq_some_iff]
    constructor
    · rintro ⟨⟨c, e⟩, hbody, rfl⟩
      exact ⟨hgroups, _, c, e, signed_iff.mpr ⟨rfl, hbody⟩, rfl⟩
    · rintro ⟨-, negative, c, e, hsigned, rfl⟩
      obtain ⟨rfl, hbody⟩ := signed_iff.mp hsigned
      exact ⟨(c, e), hbody, rfl⟩
  · rw [readBinary64?, hnormal]
    constructor
    · rintro ⟨⟩
    · exact fun h => absurd h.1 hgroups

/-! ## Decimals -/

/-- A decimal is read off the text without its white space and its underscores. -/
theorem readDecimal?_eq (cs : List Char) :
    readDecimal? cs = unsignedDecimal? (splitSign (bare (within isBlank cs))).1
      (splitSign (bare (within isBlank cs))).2 := by
  rw [within, ← plainDigits_bare]
  rfl

/-- A text that writes a number is read as that number, if decimals reach it. -/
theorem readDecimal?_of_signed {negative : Bool} {c : Nat} {e : Int}
    (h : Signed (bare (within isBlank cs)) negative c e) :
    readDecimal? cs = if Decimal.inRange c e then some (.finite negative c e) else none := by
  obtain ⟨rfl, hread⟩ := signed_iff.mp h
  obtain ⟨d, ds, hbody, hd⟩ := (scientific?_eq_some_iff.mp hread).exists_cons
  rw [hbody] at hread
  rw [readDecimal?_eq, hbody, Decimal.unsignedDecimal?_of_isLeading _ hd hread]

/-- Only a text that writes a number is read as a finite decimal. -/
theorem signed_of_readDecimal? {negative : Bool} {c : Nat} {e : Int}
    (h : readDecimal? cs = some (.finite negative c e)) :
    Signed (bare (within isBlank cs)) negative c e := by
  rw [readDecimal?_eq, unsignedDecimal?] at h
  split at h
  · cases h
  · split at h
    · obtain ⟨_, _, hnan⟩ := Option.map_eq_some_iff.mp h
      cases hnan
    · split at h
      · obtain ⟨_, _, hnan⟩ := Option.map_eq_some_iff.mp h
        cases hnan
      · split at h
        · next hbody =>
          split at h
          · cases h
            exact signed_iff.mpr ⟨rfl, hbody⟩
          · cases h
        · cases h

end

end ItemStore.Number
