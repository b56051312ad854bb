import ItemStore.Proofs.Expression.Phrases
import ItemStore.Proofs.Expression.Scanners

/-
  What a scanner cannot look past. White space, a parenthesis, a comma or a single quote ends
  whatever stands in front of it (`Barrier`): a text behind one of them changes nothing in what is
  scanned before it, as if the source ended there (`scanToken_append`). The one exception is an
  angle bracket that no white space and no other angle bracket separates from the barrier: it may
  be closed behind it.

  Each scanner that can fail without a fault commutes with what is appended; for the two that need
  a closing quote, a text and a path, this holds of what ends in front of the barrier.
-/

namespace ItemStore.Expression

open Text

/-- A character that no scanner looks past. -/
def isBarrier (c : Char) : Bool :=
  isBoundary c || c == '\x27'

/-- The text is empty or starts with a character that no scanner looks past. -/
def Barrier (z : List Char) : Prop :=
  ∀ c ∈ z.head?, isBarrier c = true

theorem barrier_cons {c : Char} {z : List Char} : Barrier (c :: z) ↔ isBarrier c = true := by
  simp [Barrier]

theorem continuesPath_of_isBarrier {c : Char} (h : isBarrier c = true) :
    continuesPath c = false := by
  rw [isBarrier, Bool.or_eq_true, beq_iff_eq] at h
  rcases h with h | rfl
  · exact continuesPath_of_isBoundary h
  · decide +kernel

variable {z : List Char}

theorem Barrier.stops {p : Char → Bool} (hz : Barrier z)
    (hp : ∀ c, isBarrier c = true → p c = false) : Stops p z :=
  fun c hc => hp c (hz c hc)

theorem Barrier.stops_beq (hz : Barrier z) {d : Char} (hd : isBarrier d = false) :
    Stops (· == d) z :=
  hz.stops fun _ hc => beq_eq_false_iff_ne.mpr (ne_of_class hc hd)

theorem Barrier.stops_isWord (hz : Barrier z) : Stops isWord z :=
  (stops_of_continuesSegment (stops_of_continuesPath
    (hz.stops fun _ => continuesPath_of_isBarrier)).1).1

theorem Barrier.stops_isDigit (hz : Barrier z) : Stops isDigit z :=
  Expression.stops_isDigit hz.stops_isWord

/-! ## Numbers, binary texts, operators and placeholders -/

theorem startsWord_append (hz : Barrier z) (cs : List Char) :
    startsWord (cs ++ z) = startsWord cs := by
  cases cs with
  | nil => exact startsWord_of_stops hz.stops_isWord
  | cons c cs => rfl

/-- Digits with a point behind them. -/
theorem scanNumber_of_point {cs more : List Char} (hd : cs.takeWhile isDigit ≠ [])
    (h : cs.dropWhile isDigit = '.' :: more) :
    scanNumber cs =
      if (more.takeWhile isDigit).isEmpty || startsWord (more.dropWhile isDigit)
      then some ('.' :: more) else some (more.dropWhile isDigit) := by
  unfold scanNumber
  rw [h]
  cases htake : cs.takeWhile isDigit with
  | nil => exact absurd htake hd
  | cons d ds => rfl

/-- Digits without a point behind them. -/
theorem scanNumber_of_stops {cs : List Char} (hd : cs.takeWhile isDigit ≠ [])
    (h : Stops (· == '.') (cs.dropWhile isDigit)) :
    scanNumber cs =
      if startsWord (cs.dropWhile isDigit) then none else some (cs.dropWhile isDigit) := by
  unfold scanNumber
  cases htake : cs.takeWhile isDigit with
  | nil => exact absurd htake hd
  | cons d ds =>
    dsimp only
    split
    · next heq => cases heq
    · next heq =>
      rw [heq] at h
      exact absurd (stops_cons.mp h) (by decide)
    · rfl

theorem scanNumber_append (hz : Barrier z) (cs : List Char) :
    scanNumber (cs ++ z) = (scanNumber cs).map (· ++ z) := by
  have htake := takeWhile_append_of_stops hz.stops_isDigit cs
  have hdrop := dropWhile_append_of_stops hz.stops_isDigit cs
  by_cases hd : cs.takeWhile isDigit = []
  · unfold scanNumber
    rw [htake, hd]
    rfl
  have hd' : (cs ++ z).takeWhile isDigit ≠ [] := htake ▸ hd
  by_cases hpoint : Stops (· == '.') (cs.dropWhile isDigit)
  · have hpoint' : Stops (· == '.') ((cs ++ z).dropWhile isDigit) :=
      hdrop ▸ hpoint.append (hz.stops_beq (by decide +kernel))
    rw [scanNumber_of_stops hd hpoint, scanNumber_of_stops hd' hpoint', hdrop, startsWord_append hz]
    split <;> rfl
  · obtain ⟨more, hmore⟩ := exists_cons_of_not_stops hpoint
    have hmore' : (cs ++ z).dropWhile isDigit = '.' :: (more ++ z) := by
      rw [hdrop, hmore, List.cons_append]
    rw [scanNumber_of_point hd hmore, scanNumber_of_point hd' hmore',
      takeWhile_append_of_stops hz.stops_isDigit, dropWhile_append_of_stops hz.stops_isDigit,
      startsWord_append hz]
    split <;> rfl

theorem scanSignedNumber_append (hz : Barrier z) (cs : List Char) :
    scanSignedNumber (cs ++ z) = (scanSignedNumber cs).map (· ++ z) := by
  cases cs with
  | nil =>
    cases z with
    | nil => rfl
    | cons c z =>
      exact scanSignedNumber_of_ne (ne_of_class (barrier_cons.mp hz) (by decide +kernel)) z
  | cons c cs =>
    by_cases hc : c = '-'
    · subst hc
      exact scanNumber_append hz cs
    · rw [List.cons_append, scanSignedNumber_of_ne hc, scanSignedNumber_of_ne hc]
      rfl

theorem scanNumberAfter_append (hz : Barrier z) (prev : Option Token) (cs : List Char) :
    scanNumberAfter prev (cs ++ z) = (scanNumberAfter prev cs).map (· ++ z) := by
  unfold scanNumberAfter
  rw [scanNumber_append hz, scanSignedNumber_append hz]
  cases valueExpected prev with
  | false => rfl
  | true =>
    cases scanSignedNumber cs <;> rfl

theorem scanBinary_of_closed {cs rest : List Char} (hc : cs.takeWhile isBinaryChar ≠ [])
    (h : cs.dropWhile isBinaryChar = '>' :: rest) :
    scanBinary ('<' :: cs) = some (cs.takeWhile isBinaryChar, rest) := by
  rw [scanBinary, h]
  cases htake : cs.takeWhile isBinaryChar with
  | nil => exact absurd htake hc
  | cons d ds => rfl

theorem scanBinary_of_stops {cs : List Char}
    (h : Stops (· == '>') (cs.dropWhile isBinaryChar) ∨ cs.takeWhile isBinaryChar = []) :
    scanBinary ('<' :: cs) = none := by
  rw [scanBinary]
  split
  · next htake hdrop =>
    rcases h with h | h
    · rw [hdrop] at h
      exact absurd (stops_cons.mp h) (by decide)
    · rw [htake] at h
      cases h
  · rfl

/-- A run that ends in front of the barrier is closed there or not at all. -/
theorem scanBinary_append (z : List Char) {c : Char} {cs : List Char}
    (h : c = '<' → ∃ d ∈ cs, isBinaryChar d = false) :
    scanBinary (c :: (cs ++ z)) = (scanBinary (c :: cs)).map fun r => (r.1, r.2 ++ z) := by
  by_cases hc : c = '<'
  · subst hc
    obtain ⟨htake, hdrop, hne⟩ := run_append_of_exists (h rfl) z
    by_cases hrun : cs.takeWhile isBinaryChar = []
    · rw [scanBinary_of_stops (.inr hrun), scanBinary_of_stops (.inr (htake.trans hrun))]
      rfl
    by_cases hclosed : Stops (· == '>') (cs.dropWhile isBinaryChar)
    · have hclosed' : Stops (· == '>') ((cs ++ z).dropWhile isBinaryChar) := by
        obtain ⟨e, rest, hcons⟩ := List.exists_cons_of_ne_nil hne
        rw [hcons] at hclosed
        rw [hdrop, hcons]
        exact hclosed
      rw [scanBinary_of_stops (.inl hclosed), scanBinary_of_stops (.inl hclosed')]
      rfl
    · obtain ⟨rest, hrest⟩ := exists_cons_of_not_stops hclosed
      have hrest' : (cs ++ z).dropWhile isBinaryChar = '>' :: (rest ++ z) := by
        rw [hdrop, hrest, List.cons_append]
      rw [scanBinary_of_closed hrun hrest, scanBinary_of_closed (htake ▸ hrun) hrest', htake]
      rfl
  · rw [scanBinary_of_ne hc, scanBinary_of_ne hc]
    rfl

/-- Whether a character and the one behind it are one operator. -/
def isPair (c : Char) (next : Option Char) : Bool :=
  (c == '<' && (next == some '>' || next == some '=')) || (c == '>' && next == some '=')

/-- An operator of two characters, or else of one. -/
theorem scanOperator_cons (c : Char) (cs : List Char) :
    scanOperator (c :: cs) =
      if isPair c cs.head? then some cs.tail
      else if ['=', '<', '>', '+', '-'].contains c then some cs else none := by
  rw [scanOperator.eq_def]
  split
  · next heq =>
    obtain ⟨rfl, rfl⟩ := List.cons.inj heq
    rfl
  · next heq =>
    obtain ⟨rfl, rfl⟩ := List.cons.inj heq
    rfl
  · next heq =>
    obtain ⟨rfl, rfl⟩ := List.cons.inj heq
    rfl
  · next h₁ h₂ h₃ heq =>
    obtain ⟨rfl, rfl⟩ := List.cons.inj heq
    have hpair : ¬isPair c cs.head? = true := by
      simp only [isPair, Bool.or_eq_true, Bool.and_eq_true, beq_iff_eq, List.head?_eq_some_iff]
      rintro (⟨hc, ⟨ds, h⟩ | ⟨ds, h⟩⟩ | ⟨hc, ds, h⟩)
      · exact h₁ ds hc h
      · exact h₂ ds hc h
      · exact h₃ ds hc h
    rw [if_neg hpair]
  · next heq => cases heq

theorem isPair_of_barrier (hz : Barrier z) (c : Char) : isPair c z.head? = false := by
  have hne : ∀ d, isBarrier d = false → (z.head? == some d) = false := by
    intro d hd
    rw [beq_eq_false_iff_ne]
    intro h
    rw [hz d h] at hd
    cases hd
  rw [isPair, hne '>' (by decide +kernel), hne '=' (by decide +kernel), Bool.or_false,
    Bool.and_false, Bool.and_false, Bool.or_false]

theorem scanOperator_append (hz : Barrier z) (c : Char) (cs : List Char) :
    scanOperator (c :: (cs ++ z)) = (scanOperator (c :: cs)).map (· ++ z) := by
  rw [scanOperator_cons, scanOperator_cons]
  cases cs with
  | nil =>
    rw [List.nil_append, isPair_of_barrier hz, List.head?_nil,
      show isPair c none = false from isPair_of_barrier (z := []) nofun c,
      if_neg Bool.false_ne_true, if_neg Bool.false_ne_true]
    split <;> rfl
  | cons d cs =>
    rw [List.cons_append, List.head?_cons, List.head?_cons]
    split
    · rfl
    · split <;> rfl

theorem scanPlaceholder_append (hz : Barrier z) (c : Char) (cs : List Char) :
    scanPlaceholder (c :: (cs ++ z)) = (scanPlaceholder (c :: cs)).map (· ++ z) := by
  rw [scanPlaceholder, scanPlaceholder, startsWord_append hz,
    dropWhile_append_of_stops hz.stops_isWord]
  split <;> rfl

/-! ## Texts -/

theorem scanString_append {cs payload rest : List Char} (h : scanString cs = some (payload, rest))
    (z : List Char) : scanString (cs ++ z) = some (payload, rest ++ z) := by
  obtain ⟨units, rfl, rfl⟩ := scanString_sound h
  rw [List.append_assoc, List.cons_append]
  exact scanString_units units (rest ++ z)

/-- A text literal that ends in front of an appended text ends there without it. -/
theorem scanString_append_iff {cs payload rest z : List Char} :
    scanString (cs ++ z) = some (payload, rest ++ z) ↔ scanString cs = some (payload, rest) := by
  refine ⟨fun h => ?_, fun h => scanString_append h z⟩
  obtain ⟨units, rfl, hcs⟩ := scanString_sound h
  rw [← List.cons_append, ← List.append_assoc] at hcs
  rw [List.append_cancel_right hcs]
  exact scanString_units units rest

/-! ## Paths -/

theorem scanIndex_of_ne {c : Char} (h : c ≠ '[') (cs : List Char) : scanIndex (c :: cs) = none :=
  scanIndex_of_stops (stops_cons.mpr (beq_eq_false_iff_ne.mpr h))

theorem scanIndex_of_closed {cs rest : List Char} (hd : cs.takeWhile isDigit ≠ [])
    (h : cs.dropWhile isDigit = ']' :: rest) :
    scanIndex ('[' :: cs) = some ('[' :: (cs.takeWhile isDigit ++ [']']), rest) := by
  rw [scanIndex, h]
  cases htake : cs.takeWhile isDigit with
  | nil => exact absurd htake hd
  | cons d ds => rfl

theorem scanIndex_of_open {cs : List Char}
    (h : Stops (· == ']') (cs.dropWhile isDigit) ∨ cs.takeWhile isDigit = []) :
    scanIndex ('[' :: cs) = none := by
  rw [scanIndex]
  split
  · next htake hdrop =>
    rcases h with h | h
    · rw [hdrop] at h
      exact absurd (stops_cons.mp h) (by decide)
    · rw [htake] at h
      cases h
  · rfl

theorem scanIndex_append (hz : Barrier z) (cs : List Char) :
    scanIndex (cs ++ z) = (scanIndex cs).map fun r => (r.1, r.2 ++ z) := by
  cases cs with
  | nil => exact scanIndex_of_stops (hz.stops_beq (by decide +kernel))
  | cons c cs =>
    rw [List.cons_append]
    by_cases hc : c = '['
    · subst hc
      have htake := takeWhile_append_of_stops hz.stops_isDigit cs
      have hdrop := dropWhile_append_of_stops hz.stops_isDigit cs
      by_cases hd : cs.takeWhile isDigit = []
      · rw [scanIndex_of_open (.inr hd), scanIndex_of_open (.inr (htake.trans hd))]
        rfl
      by_cases hclosed : Stops (· == ']') (cs.dropWhile isDigit)
      · have hclosed' : Stops (· == ']') ((cs ++ z).dropWhile isDigit) :=
          hdrop ▸ hclosed.append (hz.stops_beq (by decide +kernel))
        rw [scanIndex_of_open (.inl hclosed), scanIndex_of_open (.inl hclosed')]
        rfl
      · obtain ⟨rest, hrest⟩ := exists_cons_of_not_stops hclosed
        have hrest' : (cs ++ z).dropWhile isDigit = ']' :: (rest ++ z) := by
          rw [hdrop, hrest, List.cons_append]
        rw [scanIndex_of_closed hd hrest, scanIndex_of_closed (htake ▸ hd) hrest', htake]
        rfl
    · rw [scanIndex_of_ne hc, scanIndex_of_ne hc]
      rfl

theorem scanIndexes_append (hz : Barrier z) (cs : List Char) :
    scanIndexes (cs ++ z) = ((scanIndexes cs).1, (scanIndexes cs).2 ++ z) := by
  fun_induction scanIndexes cs with
  | case1 cs l rest h _ more ih =>
    have hcs := scanIndex_append hz cs
    rw [h, Option.map_some] at hcs
    rw [scanIndexes_of_some hcs, ih]
  | case2 cs h =>
    have hcs := scanIndex_append hz cs
    rw [h, Option.map_none] at hcs
    exact scanIndexes_of_none hcs

theorem scanHyphenated_append (hz : Barrier z) (cs : List Char) :
    scanHyphenated (cs ++ z) = (scanHyphenated cs).map fun r => (r.1, r.2 ++ z) := by
  cases cs with
  | nil => exact scanHyphenated_of_stops (hz.stops_beq (by decide +kernel))
  | cons c cs =>
    by_cases hc : c = '-'
    · subst hc
      cases cs with
      | nil =>
        -- no word character follows the hyphen
        cases z with
        | nil => rfl
        | cons d z =>
          have hword := stops_cons.mp hz.stops_isWord
          rw [List.cons_append, List.nil_append, scanHyphenated, hword]
          rfl
      | cons d cs =>
        rw [List.cons_append, List.cons_append, scanHyphenated, scanHyphenated,
          takeWhile_append_of_stops hz.stops_isWord, dropWhile_append_of_stops hz.stops_isWord]
        split <;> rfl
    · have hstops : ∀ ds, Stops (· == '-') (c :: ds) :=
        fun ds => stops_cons.mpr (beq_eq_false_iff_ne.mpr hc)
      rw [List.cons_append, scanHyphenated_of_stops (hstops _), scanHyphenated_of_stops (hstops _)]
      rfl

theorem scanHyphens_append (hz : Barrier z) (cs : List Char) :
    scanHyphens (cs ++ z) = ((scanHyphens cs).1, (scanHyphens cs).2 ++ z) := by
  fun_induction scanHyphens cs with
  | case1 cs l rest h _ more ih =>
    have hcs := scanHyphenated_append hz cs
    rw [h, Option.map_some] at hcs
    rw [scanHyphens_of_some hcs, ih]
  | case2 cs h =>
    have hcs := scanHyphenated_append hz cs
    rw [h, Option.map_none] at hcs
    exact scanHyphens_of_none hcs

theorem startsSegment_append (hz : Barrier z) (cs : List Char) :
    startsSegment (cs ++ z) = startsSegment cs := by
  cases cs with
  | nil =>
    cases z with
    | nil => rfl
    | cons c z =>
      have hc := barrier_cons.mp hz
      have hquote : isNameQuote c = false := by
        rw [isNameQuote, beq_eq_false_iff_ne.mpr (ne_of_class hc (by decide +kernel)),
          beq_eq_false_iff_ne.mpr (ne_of_class hc (by decide +kernel))]
        rfl
      show (isNameQuote c || isWord c) = false
      rw [hquote, stops_cons.mp hz.stops_isWord]
      rfl
  | cons c cs => rfl

theorem afterPoint?_append (hz : Barrier z) (cs : List Char) :
    afterPoint? (cs ++ z) = (afterPoint? cs).map (· ++ z) := by
  cases cs with
  | nil => exact afterPoint?_of_stops (hz.stops_beq (by decide +kernel))
  | cons c cs =>
    by_cases hc : c = '.'
    · subst hc
      rw [List.cons_append, afterPoint?, afterPoint?, startsSegment_append hz]
      split <;> rfl
    · have hstops : ∀ ds, Stops (· == '.') (c :: ds) :=
        fun ds => stops_cons.mpr (beq_eq_false_iff_ne.mpr hc)
      rw [List.cons_append, afterPoint?_of_stops (hstops _), afterPoint?_of_stops (hstops _)]
      rfl

theorem scanName_of_not_starts {hyphens : Bool} {cs : List Char}
    (h : startsSegment cs = false) : scanName hyphens cs = .error (.missingName, cs) := by
  cases cs with
  | nil => rfl
  | cons c cs =>
    obtain ⟨hquote, hword⟩ := Bool.or_eq_false_iff.mp h
    rw [scanName, if_neg (by rw [hquote]; exact Bool.false_ne_true),
      if_neg (by rw [hword]; exact Bool.false_ne_true)]

/-- A name that ends in front of a barrier ends there without it. -/
theorem scanName_append (hz : Barrier z) {hyphens quoted : Bool} {cs name rest : List Char} :
    scanName hyphens (cs ++ z) = .ok (name, quoted, rest ++ z) ↔
      scanName hyphens cs = .ok (name, quoted, rest) := by
  by_cases hstarts : startsSegment cs = false
  · have hstarts' := (startsSegment_append hz cs).trans hstarts
    rw [scanName_of_not_starts hstarts, scanName_of_not_starts hstarts']
    exact iff_of_false (fun h => by cases h) (fun h => by cases h)
  cases cs with
  | nil => exact absurd rfl hstarts
  | cons c cs =>
    rw [List.cons_append, scanName, scanName]
    by_cases hquote : isNameQuote c = true
    · rw [if_pos hquote, if_pos hquote]
      by_cases hmem : c ∈ cs
      · -- the name is closed in front of the barrier
        obtain ⟨htake, hdrop, hne⟩ := run_append_of_exists (p := fun d => decide (d ≠ c))
          ⟨c, hmem, by simp⟩ z
        obtain ⟨d, ds, hcons⟩ := List.exists_cons_of_ne_nil hne
        rw [htake, hdrop, hcons]
        simp only [List.cons_append, Except.ok.injEq, Prod.mk.injEq, List.append_cancel_right_eq]
      · -- what is closed behind the barrier leaves less than what stands there
        have hrun : ∀ d ∈ cs, decide (d ≠ c) = true := by
          intro d hd
          rw [decide_eq_true_eq]
          rintro rfl
          exact hmem hd
        rw [dropWhile_all hrun, List.dropWhile_append_of_pos hrun]
        refine ⟨fun h => ?_, fun h => by cases h⟩
        split at h
        · cases h
        · next d ds hdrop =>
          have hlength := length_dropWhile_le (fun d => decide (d ≠ c)) z
          rw [hdrop] at hlength
          simp only [Except.ok.injEq, Prod.mk.injEq] at h
          rw [h.2.2, List.length_cons, List.length_append] at hlength
          omega
    · rw [if_neg hquote, if_neg hquote]
      split
      · rw [takeWhile_append_of_stops hz.stops_isWord, dropWhile_append_of_stops hz.stops_isWord]
        cases hyphens with
        | false =>
          simp only [Bool.false_eq_true, if_false, Except.ok.injEq, Prod.mk.injEq,
            List.append_cancel_right_eq]
        | true =>
          simp only [if_true, scanHyphens_append hz, Except.ok.injEq, Prod.mk.injEq,
            List.append_cancel_right_eq]
      · exact iff_of_false (fun h => by cases h) (fun h => by cases h)

theorem scanSegment_append (hz : Barrier z) {hyphens : Bool} {cs rest : List Char}
    {segment : Segment} :
    scanSegment hyphens (cs ++ z) = .ok (segment, rest ++ z) ↔
      scanSegment hyphens cs = .ok (segment, rest) := by
  rw [scanSegment_eq_ok_iff, scanSegment_eq_ok_iff]
  constructor
  · rintro ⟨name, quoted, rest', hn, hsegment, hrest⟩
    obtain ⟨ds, -, hrest'⟩ := scanIndexes_sound rest'
    rw [← hrest, ← List.append_assoc] at hrest'
    rw [hrest'] at hn hsegment hrest
    rw [scanIndexes_append hz] at hsegment hrest
    exact ⟨name, quoted, _, (scanName_append hz).mp hn, hsegment, List.append_cancel_right hrest⟩
  · rintro ⟨name, quoted, rest', hn, hsegment, hrest⟩
    refine ⟨name, quoted, rest' ++ z, (scanName_append hz).mpr hn, ?_, ?_⟩
    · rw [scanIndexes_append hz]
      exact hsegment
    · rw [scanIndexes_append hz, hrest]

/-- A path that ends in front of a barrier ends there without it. -/
theorem scanPath_append (hz : Barrier z) {hyphens : Bool} {cs rest : List Char}
    {segments : List Segment} :
    scanPath hyphens (cs ++ z) = .ok (segments, rest ++ z) ↔
      scanPath hyphens cs = .ok (segments, rest) := by
  induction segments generalizing cs with
  | nil =>
    refine ⟨fun h => ?_, fun h => ?_⟩
    all_goals
      obtain ⟨s, ss, hsegments, -⟩ := scanPath_sound h
      cases hsegments
  | cons segment segments ih =>
    constructor
    · intro h
      obtain ⟨segment', rest', hs, ⟨hp, hsegments, hrest⟩ | ⟨more, segments', hp, hm, hsegments⟩⟩ :=
        scanPath_cases h
      · rw [← hrest] at hs hp
        rw [afterPoint?_append hz, Option.map_eq_none_iff] at hp
        rw [hsegments]
        exact scanPath_of_last ((scanSegment_append hz).mp hs) hp
      · -- what is left of the path stands in front of the barrier too
        obtain ⟨s, ss, -, hmore⟩ := scanPath_sound hm
        have hrest' := afterPoint?_sound hp
        rw [← List.append_assoc] at hmore
        obtain ⟨rfl, rfl⟩ := List.cons.inj hsegments
        rw [hmore] at hm
        rw [hrest', hmore, ← List.cons_append] at hs hp
        rw [afterPoint?_append hz] at hp
        obtain ⟨more', hp', he⟩ := Option.map_eq_some_iff.mp hp
        rw [List.append_cancel_right he] at hp'
        exact scanPath_of_point ((scanSegment_append hz).mp hs) hp' (ih.mp hm)
    · intro h
      obtain ⟨segment', rest', hs, ⟨hp, hsegments, hrest⟩ | ⟨more, segments', hp, hm, hsegments⟩⟩ :=
        scanPath_cases h
      · rw [hsegments, hrest]
        refine scanPath_of_last ((scanSegment_append hz).mpr hs) ?_
        rw [afterPoint?_append hz, hp]
        rfl
      · obtain ⟨rfl, rfl⟩ := List.cons.inj hsegments
        refine scanPath_of_point ((scanSegment_append hz).mpr hs) ?_ (ih.mpr hm)
        rw [afterPoint?_append hz, hp]
        rfl

/-! ## Tokens -/

/-- A single quote starts a text literal and nothing else. -/
theorem scanToken_quote {prev : Option Token} {cs rest : List Char} {kind : TokenKind} :
    scanToken prev '\x27' cs = .ok (kind, rest) ↔
      ∃ payload, scanString cs = some (payload, rest) ∧ kind = .string payload := by
  rw [scanToken, if_pos rfl]
  cases scanString cs with
  | none =>
    refine iff_of_false (fun h => by cases h) ?_
    rintro ⟨_, h, -⟩
    cases h
  | some r =>
    constructor
    · intro h
      cases h
      exact ⟨r.1, rfl, rfl⟩
    · rintro ⟨payload, h, rfl⟩
      cases h
      rfl

theorem exists_kind_of_sign {c : Char} (h : c = '(' ∨ c = ')' ∨ c = ',') :
    ∃ kind, ∀ prev cs, scanWordOrSign prev c cs = .ok (kind, cs) := by
  rcases h with rfl | rfl | rfl
  · exact ⟨.openParen, fun _ _ => rfl⟩
  · exact ⟨.closeParen, fun _ _ => rfl⟩
  · exact ⟨.comma, fun _ _ => rfl⟩

theorem scanWordOrSign_placeholder {prev : Option Token} {c : Char} {cs rest : List Char}
    (h : ¬(c = '(' ∨ c = ')' ∨ c = ',')) (hp : scanPlaceholder (c :: cs) = some rest) :
    scanWordOrSign prev c cs = .ok (.placeholder, rest) := by
  rw [not_or, not_or] at h
  rw [scanWordOrSign, if_neg h.1, if_neg h.2.1, if_neg h.2.2, hp]

theorem scanWordOrSign_other {prev : Option Token} {c : Char} {cs : List Char}
    (h : ¬(c = '(' ∨ c = ')' ∨ c = ',')) (hp : scanPlaceholder (c :: cs) = none)
    (hs : startsSegment (c :: cs) = false) : scanWordOrSign prev c cs = .ok (.other, cs) := by
  rw [not_or, not_or] at h
  rw [scanWordOrSign, if_neg h.1, if_neg h.2.1, if_neg h.2.2, hp, hs]
  rfl

/-- What starts as a segment and is no other token is a path. -/
theorem scanWordOrSign_path {prev : Option Token} {c : Char} {cs rest : List Char}
    {kind : TokenKind} (h : ¬(c = '(' ∨ c = ')' ∨ c = ','))
    (hp : scanPlaceholder (c :: cs) = none) (hs : startsSegment (c :: cs) = true) :
    scanWordOrSign prev c cs = .ok (kind, rest) ↔
      ∃ segments, scanPath (joinsNames prev) (c :: cs) = .ok (segments, rest) ∧
        kind = .path segments := by
  rw [not_or, not_or] at h
  rw [scanWordOrSign, if_neg h.1, if_neg h.2.1, if_neg h.2.2, hp]
  dsimp only
  rw [if_pos hs]
  cases scanPath (joinsNames prev) (c :: cs) with
  | error e =>
    refine iff_of_false (fun h => by cases h) ?_
    rintro ⟨_, h, -⟩
    cases h
  | ok r =>
    constructor
    · intro h
      cases h
      exact ⟨r.1, rfl, rfl⟩
    · rintro ⟨segments, h, rfl⟩
      cases h
      rfl

theorem scanWordOrSign_append (hz : Barrier z) {prev : Option Token} {c : Char}
    {cs rest : List Char} {kind : TokenKind} :
    scanWordOrSign prev c (cs ++ z) = .ok (kind, rest ++ z) ↔
      scanWordOrSign prev c cs = .ok (kind, rest) := by
  have hok : ∀ (k : TokenKind) (r : List Char),
      (Except.ok (k, r ++ z) : Except Stuck _) = .ok (kind, rest ++ z) ↔
        (Except.ok (k, r) : Except Stuck _) = .ok (kind, rest) := by
    intro k r
    simp only [Except.ok.injEq, Prod.mk.injEq, List.append_cancel_right_eq]
  by_cases hsign : c = '(' ∨ c = ')' ∨ c = ','
  · obtain ⟨k, hk⟩ := exists_kind_of_sign hsign
    rw [hk, hk]
    exact hok k cs
  have happend := scanPlaceholder_append hz c cs
  cases hp : scanPlaceholder (c :: cs) with
  | some rest' =>
    rw [hp, Option.map_some] at happend
    rw [scanWordOrSign_placeholder hsign hp, scanWordOrSign_placeholder hsign happend]
    exact hok .placeholder rest'
  | none =>
    rw [hp, Option.map_none] at happend
    cases hs : startsSegment (c :: cs) with
    | true =>
      rw [scanWordOrSign_path hsign hp hs, scanWordOrSign_path hsign happend hs,
        ← List.cons_append]
      simp only [scanPath_append hz]
    | false =>
      rw [scanWordOrSign_other hsign hp hs, scanWordOrSign_other hsign happend hs]
      exact hok .other cs

/-- A token that ends in front of a barrier ends there without it, if an angle bracket takes
nothing from behind the barrier. -/
theorem scanToken_append_of_scanBinary (hz : Barrier z) {prev : Option Token} {c : Char}
    {cs rest : List Char} {kind : TokenKind}
    (h : scanBinary (c :: (cs ++ z)) = (scanBinary (c :: cs)).map fun r => (r.1, r.2 ++ z)) :
    scanToken prev c (cs ++ z) = .ok (kind, rest ++ z) ↔
      scanToken prev c cs = .ok (kind, rest) := by
  by_cases hquote : c = '\x27'
  · subst hquote
    rw [scanToken_quote, scanToken_quote]
    simp only [scanString_append_iff]
  · rw [scanToken, scanToken, if_neg hquote, if_neg hquote, ← List.cons_append,
      scanNumberAfter_append hz]
    cases scanNumberAfter prev (c :: cs) with
    | some rest' =>
      simp only [Option.map_some, Except.ok.injEq, Prod.mk.injEq, List.append_cancel_right_eq]
    | none =>
      dsimp only [Option.map_none]
      rw [List.cons_append, h]
      cases scanBinary (c :: cs) with
      | some r =>
        simp only [Option.map_some, Except.ok.injEq, Prod.mk.injEq, List.append_cancel_right_eq]
      | none =>
        dsimp only [Option.map_none]
        rw [scanOperator_append hz]
        cases scanOperator (c :: cs) with
        | some rest' =>
          simp only [Option.map_some, Except.ok.injEq, Prod.mk.injEq, List.append_cancel_right_eq]
        | none => exact scanWordOrSign_append hz

/-- A token that ends in front of a barrier ends there without it; an angle bracket, if the
barrier is out of its reach. -/
theorem scanToken_append (hz : Barrier z) {prev : Option Token} {c : Char} {cs rest : List Char}
    {kind : TokenKind} (h : c = '<' → ∃ d ∈ cs, isBinaryChar d = false) :
    scanToken prev c (cs ++ z) = .ok (kind, rest ++ z) ↔
      scanToken prev c cs = .ok (kind, rest) :=
  scanToken_append_of_scanBinary hz (scanBinary_append z h)

/-- An angle bracket takes nothing from a text whose first run of characters of a binary literal is
not closed. -/
theorem scanBinary_append_of_unclosed (hz : Stops (· == '>') (z.dropWhile isBinaryChar)) (c : Char)
    (cs : List Char) :
    scanBinary (c :: (cs ++ z)) = (scanBinary (c :: cs)).map fun r => (r.1, r.2 ++ z) := by
  by_cases hc : c = '<' → ∃ d ∈ cs, isBinaryChar d = false
  · exact scanBinary_append z hc
  · rw [Classical.not_imp, not_exists] at hc
    obtain ⟨rfl, hcs⟩ := hc
    have hrun : ∀ d ∈ cs, isBinaryChar d = true := by
      intro d hd
      rw [← Bool.not_eq_false]
      exact fun h => hcs d ⟨hd, h⟩
    have hopen : Stops (· == '>') (cs.dropWhile isBinaryChar) := by
      rw [dropWhile_all hrun]
      exact nofun
    have hopen' : Stops (· == '>') ((cs ++ z).dropWhile isBinaryChar) := by
      rw [List.dropWhile_append_of_pos hrun]
      exact hz
    rw [scanBinary_of_stops (.inl hopen), scanBinary_of_stops (.inl hopen')]
    rfl

end ItemStore.Expression
