import ItemStore.Proofs.Expression.Located
import ItemStore.Proofs.Expression.Phrases

/-
  Where a token gets stuck. `Unterminated` says it of a text from the first character of a token
  on: a single quote that nothing closes, or a quote around a name that nothing closes, at the start
  of a path or behind a point in it. In the latter case the path in front is part of the condition:
  its steps start with no number, and have hyphens only where these join names.

  No token is stuck for another reason (`unterminated_of_scanToken`), and each of these is one
  (`Unterminated.scanToken_eq`). In particular a name is never missing: behind a point a path goes
  on only if a name starts there (`unclosed_of_scanPath`).
-/

namespace ItemStore.Expression

open Text Lexeme

/-! ## Names that nothing closes -/

theorem startsSegment_of_unclosed {rest : List Char} (h : Unclosed rest) :
    startsSegment rest = true := by
  obtain ⟨c, cs, rfl, hquote, -⟩ := h
  rw [startsSegment, hquote, Bool.true_or]

theorem scanPath_of_unclosed {rest : List Char} (h : Unclosed rest) (hyphens : Bool) :
    scanPath hyphens rest = .error (.unclosedName, rest) := by
  obtain ⟨c, cs, rfl, hquote, hfresh⟩ := h
  have hall : ∀ d ∈ cs, decide (d ≠ c) = true := by
    intro d hd
    rw [decide_eq_true_eq]
    rintro rfl
    exact hfresh hd
  have hname : scanName hyphens (c :: cs) = .error (.unclosedName, c :: cs) := by
    rw [scanName, if_pos hquote, dropWhile_all hall]
  have hsegment : scanSegment hyphens (c :: cs) = .error (.unclosedName, c :: cs) := by
    rw [scanSegment, hname]
  rw [scanPath]
  split
  · next heq =>
    rw [hsegment] at heq
    cases heq
    rfl
  · next heq =>
    rw [hsegment] at heq
    cases heq

/-- Steps with a point behind them are read up to a name that nothing closes. -/
theorem scanPath_steps_unclosed {hyphens : Bool} (s : Step) (ss : List Step) {rest : List Char}
    (hn : ∀ t ∈ s :: ss, t.name.isHyphenated = true → hyphens = true) (h : Unclosed rest) :
    scanPath hyphens (s.text ++ (Step.pointed ss ++ '.' :: rest)) =
      .error (.unclosedName, rest) := by
  have hstops : Stops continuesSegment ('.' :: rest) := stops_cons.mpr (by decide +kernel)
  induction ss generalizing s with
  | nil =>
    have hs := scanSegment_text s (hn s List.mem_cons_self) hstops
    have hmore : afterPoint? ('.' :: rest) = some rest := by
      rw [afterPoint?, if_pos (startsSegment_of_unclosed h)]
    rw [Step.pointed, List.flatMap_nil, List.nil_append, scanPath_of_afterPoint hs hmore,
      scanPath_of_unclosed h hyphens]
    rfl
  | cons t ts ih =>
    have hs := scanSegment_text s (hn s List.mem_cons_self)
      ((stops_pointed (t :: ts)).append hstops)
    rw [scanPath_of_afterPoint hs (afterPoint?_pointed t ts _),
      ih t fun u hu => hn u (List.mem_cons_of_mem s hu)]
    rfl

/-- Where hyphens join no names, a name without quotes is one word. -/
theorem isWord_of_scanName {cs name rest : List Char}
    (h : scanName false cs = .ok (name, false, rest)) : ∀ c ∈ name, isWord c = true := by
  unfold scanName at h
  split at h
  · cases h
  next c cs =>
  split at h
  · split at h <;> cases h
  split at h
  · next hc =>
    cases h
    show ∀ d ∈ c :: cs.takeWhile isWord ++ [], isWord d = true
    rw [List.append_nil]
    exact List.forall_mem_cons.mpr ⟨hc, forall_mem_takeWhile isWord cs⟩
  · cases h

theorem isHyphenated_of_scanSegment {cs rest : List Char} {s : Step}
    (h : scanSegment false cs = .ok (s.segment, rest)) : s.name.isHyphenated = false := by
  obtain ⟨name, quoted, rest', hname, hsegment, -⟩ := scanSegment_eq_ok_iff.mp h
  obtain ⟨hkey, -, hquoted⟩ := Segment.mk.inj hsegment
  obtain ⟨n, indexes⟩ := s
  cases n with
  | quoted => rfl
  | plain n =>
    obtain rfl : false = quoted := hquoted
    obtain rfl : n.text = name := hkey
    show (!n.parts.isEmpty) = false
    cases hparts : n.parts with
    | nil => rfl
    | cons p ps =>
      have hhyphen := isWord_of_scanName hname '-' (by
        rw [PlainName.text, hparts]
        exact List.mem_append_right _ List.mem_cons_self)
      exact absurd hhyphen (by decide +kernel)

/-- A path that has started is stuck only at a name that nothing closes, its first one or one
behind a point. -/
theorem unclosed_of_scanPath {hyphens : Bool} {cs rest : List Char} {fault : PathFault}
    (h : scanPath hyphens cs = .error (fault, rest)) (hstarts : startsSegment cs = true) :
    fault = .unclosedName ∧ Unclosed rest ∧ (cs = rest ∨ ∃ (s : Step) (ss : List Step),
      cs = s.text ++ (Step.pointed ss ++ '.' :: rest) ∧
        ∀ t ∈ s :: ss, t.name.isHyphenated = true → hyphens = true) := by
  obtain ⟨-, hname⟩ := scanPath_error h
  obtain ⟨rfl, hquote⟩ : fault = .unclosedName ∧ Unclosed rest := by
    rcases hname with hname | ⟨-, -, hmissing⟩
    · exact hname
    · rw [hstarts] at hmissing
      cases hmissing
  refine ⟨rfl, hquote, ?_⟩
  clear hname
  fun_induction scanPath hyphens cs with
  | case1 cs e hs =>
    cases h
    unfold scanSegment at hs
    split at hs
    · next hname =>
      cases hs
      exact .inl (scanName_error hname).1.symm
    · cases hs
  | case2 => cases h
  | case3 cs segment behind hs more hp _ _ e hr ih =>
    cases h
    obtain ⟨s, rfl, hcs⟩ := scanSegment_sound hs
    have hjoins : s.name.isHyphenated = true → hyphens = true := by
      intro hhyphen
      cases hyphens with
      | true => rfl
      | false =>
        rw [isHyphenated_of_scanSegment hs] at hhyphen
        exact hhyphen
    rw [hcs, afterPoint?_sound hp]
    rcases ih (startsSegment_of_afterPoint? hp) hr with rfl | ⟨t, ts, rfl, ht⟩
    · exact .inr ⟨s, [], rfl, List.forall_mem_singleton.mpr hjoins⟩
    · refine .inr ⟨s, t :: ts, ?_, List.forall_mem_cons.mpr ⟨hjoins, ht⟩⟩
      simp [Step.pointed]
  | case4 => cases h

/-! ## Tokens that get stuck -/

/-- Digits that no word character follows are a number, or start one. -/
theorem exists_scanNumber (d : Digits) {rest : List Char} (h : Stops isWord rest) :
    ∃ after, scanNumber (d.chars ++ rest) = some after := by
  rw [← Option.isSome_iff_exists]
  have htake := takeWhile_run d.isDigit_of_mem (stops_isDigit h)
  have hdrop := dropWhile_run d.isDigit_of_mem (stops_isDigit h)
  obtain ⟨c, cs, hcons⟩ := List.exists_cons_of_ne_nil d.ne_nil
  unfold scanNumber
  rw [htake, hdrop, hcons]
  split
  · next heq => cases heq
  · dsimp only
    split <;> rfl
  · rw [startsWord_of_stops h]
    rfl

theorem startsNumber_of_scanNumber {s : Step} {rest : List Char} (hr : Stops isWord rest)
    (h : scanNumber (s.text ++ rest) = none) : s.startsNumber = false := by
  obtain ⟨n, indexes⟩ := s
  cases n with
  | quoted => rfl
  | plain n =>
    cases hdigits : n.head.chars.all isDigit with
    | false => exact hdigits
    | true =>
      obtain ⟨after, hafter⟩ := exists_scanNumber
        ⟨n.head.chars, n.head.ne_nil, List.all_eq_true.mp hdigits⟩
        ((stops_hyphenParts n.parts).append ((stops_indexes indexes).1.append hr))
      have htext : Step.text ⟨.plain n, indexes⟩ ++ rest =
          n.head.chars ++ (HyphenPart.text n.parts ++ (Digits.indexes indexes ++ rest)) := by
        simp [Step.text, Name.text, PlainName.text]
      rw [htext, hafter] at h
      cases h

/-- A quote that nothing closes, and what is read in front of it where a token starts: nothing, or
the start of a path up to a point. -/
inductive Unterminated (prev : Option TokenKind) : List Char → Fault → List Char → Prop
  | text {rest : List Char} (h : Fault.unclosedText.StartsAt rest) :
    Unterminated prev [] .unclosedText rest
  | name {rest : List Char} (h : Unclosed rest) : Unterminated prev [] .unclosedName rest
  | step (s : Step) (ss : List Step) {rest : List Char} (hs : s.startsNumber = false)
      (hn : ∀ t ∈ s :: ss, t.name.isHyphenated = true → joinsNames (before prev) = true)
      (h : Unclosed rest) :
    Unterminated prev (s.text ++ Step.pointed ss ++ ['.']) .unclosedName rest

/-- A token is stuck at a quote that nothing closes. -/
theorem Unterminated.scanToken_eq {prev : Option TokenKind} {read rest : List Char} {fault : Fault}
    (h : Unterminated prev read fault rest) :
    ∃ c cs, read ++ rest = c :: cs ∧ isBlank c = false ∧
      scanToken (before prev) c cs = .error (fault, rest) := by
  cases h with
  | text h =>
    obtain ⟨cs, rfl, hopen⟩ := h
    refine ⟨'\x27', cs, rfl, by decide, ?_⟩
    rw [scanToken, if_pos rfl]
    cases hscan : scanString cs with
    | none => rfl
    | some r =>
      obtain ⟨units, -, hcs⟩ := scanString_sound (show scanString cs = some (r.1, r.2) from hscan)
      exact absurd hcs (hopen units r.2)
  | name h =>
    have hpath := scanPath_of_unclosed h (joinsNames (before prev))
    obtain ⟨c, cs, rfl, hquote, -⟩ := h
    have hname : startsName c = true := by rw [startsName, hquote, Bool.true_or]
    refine ⟨c, cs, rfl, isBlank_of_startsName hname, ?_⟩
    rw [scanToken_of_startsName hname (scanNumber_of_isNameQuote hquote cs), hpath]
    rfl
  | step s ss hs hn h =>
    obtain ⟨c, cs, hcons, hname⟩ := exists_cons_of_step s
    have htext : s.text ++ Step.pointed ss ++ ['.'] ++ rest =
        s.text ++ (Step.pointed ss ++ '.' :: rest) := by simp
    have hnumber := scanNumber_step hs (Step.pointed ss ++ '.' :: rest)
    have hpath := scanPath_steps_unclosed s ss hn h
    rw [htext, hcons]
    rw [hcons] at hnumber hpath
    refine ⟨c, cs ++ (Step.pointed ss ++ '.' :: rest), rfl, isBlank_of_startsName hname, ?_⟩
    rw [List.cons_append] at hnumber hpath
    rw [scanToken_of_startsName hname hnumber, hpath]
    rfl

/-- A token is stuck only there. -/
theorem unterminated_of_scanToken {prev : Option TokenKind} {c : Char} {cs rest : List Char}
    {fault : Fault} (h : scanToken (before prev) c cs = .error (fault, rest)) :
    ∃ read, c :: cs = read ++ rest ∧ Unterminated prev read fault rest := by
  have hstarts := (scanToken_error h).2
  unfold scanToken at h
  split at h
  · split at h
    · cases h
    · cases h
      exact ⟨[], rfl, .text hstarts⟩
  split at h
  · cases h
  next hnumber =>
  split at h
  · cases h
  split at h
  · cases h
  unfold scanWordOrSign at h
  split at h
  · cases h
  split at h
  · cases h
  split at h
  · cases h
  split at h
  · cases h
  split at h
  · next hsegment =>
    split at h
    · cases h
    · next hpath =>
      cases h
      obtain ⟨rfl, hquote, rfl | ⟨s, ss, hcs, hn⟩⟩ := unclosed_of_scanPath hpath hsegment
      · exact ⟨[], rfl, .name hquote⟩
      · have hnumber : scanNumber (s.text ++ (Step.pointed ss ++ '.' :: rest)) = none := by
          unfold scanNumberAfter at hnumber
          split at hnumber
          · cases hnumber
          · rw [← hcs]
            exact hnumber
        have hpoint : Stops isWord ('.' :: rest) := stops_cons.mpr (by decide +kernel)
        refine ⟨s.text ++ Step.pointed ss ++ ['.'], ?_, .step s ss ?_ hn hquote⟩
        · rw [hcs]
          simp
        · exact startsNumber_of_scanNumber
            ((stops_of_continuesSegment (stops_pointed ss)).1.append hpoint) hnumber
  · cases h

end ItemStore.Expression
