import ItemStore.Proofs.Expression.Literals
import ItemStore.Expression.Tokens

/-
  What the scanners read is what they were made for: a path is steps joined by points, a text
  literal is units between quotes, a number is digits with an optional sign and fraction, and so
  on for every kind of token. `Reads` says this of a kind and a text; `scanToken_reads` proves it
  of whatever is scanned, and that nothing between the text and the rest is lost.

  The other direction, that well-formed texts are scanned, is in the lemmas on paths and literals.
-/

namespace ItemStore.Expression

open Text

theorem forall_mem_takeWhile (p : Char → Bool) (cs : List Char) :
    ∀ c ∈ cs.takeWhile p, p c = true :=
  List.all_eq_true.mp List.all_takeWhile

theorem stops_dropWhile (p : Char → Bool) (cs : List Char) : Stops p (cs.dropWhile p) := by
  intro c hc
  have h := List.head?_dropWhile_not p cs
  rw [Option.mem_def.mp hc] at h
  exact h

/-! ## Paths -/

theorem scanIndex_sound {cs l rest : List Char} (h : scanIndex cs = some (l, rest)) :
    ∃ d : Digits, l = d.index ∧ cs = d.index ++ rest := by
  unfold scanIndex at h
  split at h
  · next cs' =>
    split at h
    · next d ds rest' htake hdrop =>
      have hdigits := forall_mem_takeWhile isDigit cs'
      have hsplit := List.takeWhile_append_dropWhile (p := isDigit) (l := cs')
      rw [htake] at hdigits
      rw [htake, hdrop] at hsplit
      simp only [Option.some.injEq, Prod.mk.injEq] at h
      refine ⟨⟨d :: ds, List.cons_ne_nil _ _, hdigits⟩, h.1.symm, ?_⟩
      rw [← hsplit, ← h.2]
      simp [Digits.index]
    · cases h
  · cases h

theorem scanIndexes_sound (cs : List Char) :
    ∃ ds, (scanIndexes cs).1 = Digits.indexes ds ∧
      cs = Digits.indexes ds ++ (scanIndexes cs).2 := by
  fun_induction scanIndexes cs with
  | case1 cs l rest h _ more ih =>
    obtain ⟨d, rfl, hcs⟩ := scanIndex_sound h
    obtain ⟨ds, hl, hrest⟩ := ih
    refine ⟨d :: ds, congrArg (d.index ++ ·) hl, ?_⟩
    show cs = d.index ++ Digits.indexes ds ++ (scanIndexes rest).2
    rw [List.append_assoc, ← hrest]
    exact hcs
  | case2 => exact ⟨[], rfl, rfl⟩

theorem scanHyphenated_sound {cs l rest : List Char} (h : scanHyphenated cs = some (l, rest)) :
    ∃ p : HyphenPart, l = '-' :: p.chars ∧ cs = '-' :: (p.chars ++ rest) := by
  unfold scanHyphenated at h
  split at h
  · next c cs' =>
    split at h
    · next hc =>
      rw [Bool.and_eq_true, Bool.not_eq_true'] at hc
      simp only [Option.some.injEq, Prod.mk.injEq] at h
      refine ⟨⟨⟨c :: cs'.takeWhile isWord, List.cons_ne_nil _ _,
        List.forall_mem_cons.mpr ⟨hc.1, forall_mem_takeWhile isWord cs'⟩⟩, ?_⟩, h.1.symm, ?_⟩
      · intro d hd
        rw [← Option.some.inj (show some c = some d from hd)]
        exact hc.2
      · rw [← h.2, List.cons_append, List.takeWhile_append_dropWhile]
    · cases h
  · cases h

theorem scanHyphens_sound (cs : List Char) :
    ∃ ps, (scanHyphens cs).1 = HyphenPart.text ps ∧
      cs = HyphenPart.text ps ++ (scanHyphens cs).2 := by
  fun_induction scanHyphens cs with
  | case1 cs l rest h _ more ih =>
    obtain ⟨p, rfl, hcs⟩ := scanHyphenated_sound h
    obtain ⟨ps, hl, hrest⟩ := ih
    refine ⟨p :: ps, congrArg ('-' :: p.chars ++ ·) hl, ?_⟩
    show cs = '-' :: p.chars ++ HyphenPart.text ps ++ (scanHyphens rest).2
    rw [List.append_assoc, ← hrest]
    exact hcs
  | case2 => exact ⟨[], rfl, rfl⟩

theorem scanName_sound {hyphens : Bool} {cs name rest : List Char} {quoted : Bool}
    (h : scanName hyphens cs = .ok (name, quoted, rest)) :
    ∃ n : Name, name = n.key ∧ quoted = n.isQuoted ∧ cs = n.text ++ rest := by
  unfold scanName at h
  split at h
  · cases h
  · next c cs' =>
    split at h
    · next hquote =>
      split at h
      · cases h
      · next q rest' hdrop =>
        have hstop := stops_dropWhile (fun x => decide (x ≠ c)) cs'
        have hsplit := List.takeWhile_append_dropWhile (p := fun x => decide (x ≠ c)) (l := cs')
        rw [hdrop] at hstop hsplit
        -- the run ends at the quote that opened it
        have hq : q = c := by
          have hstop := stops_cons.mp hstop
          simpa using hstop
        rw [hq] at hsplit
        have hfresh : c ∉ cs'.takeWhile (fun x => decide (x ≠ c)) := by
          intro hmem
          exact of_decide_eq_true (forall_mem_takeWhile _ cs' c hmem) rfl
        simp only [Except.ok.injEq, Prod.mk.injEq] at h
        refine ⟨.quoted c _ hquote hfresh, h.1.symm, h.2.1.symm, ?_⟩
        show c :: cs' = c :: (cs'.takeWhile (fun x => decide (x ≠ c)) ++ [c]) ++ rest
        rw [List.cons_append, List.append_assoc, List.singleton_append, ← h.2.2, hsplit]
    · split at h
      · next hword =>
        have hchars : ∀ d ∈ c :: cs'.takeWhile isWord, isWord d = true :=
          List.forall_mem_cons.mpr ⟨hword, forall_mem_takeWhile isWord cs'⟩
        have hsplit := List.takeWhile_append_dropWhile (p := isWord) (l := cs')
        simp only [Except.ok.injEq, Prod.mk.injEq] at h
        obtain ⟨ps, hl, hrest⟩ : ∃ ps, (if hyphens then scanHyphens (cs'.dropWhile isWord)
            else ([], cs'.dropWhile isWord)).1 = HyphenPart.text ps ∧
            cs'.dropWhile isWord = HyphenPart.text ps ++ rest := by
          rw [← h.2.2]
          cases hyphens with
          | false => exact ⟨[], rfl, rfl⟩
          | true => exact scanHyphens_sound _
        refine ⟨.plain ⟨⟨_, List.cons_ne_nil _ _, hchars⟩, ps⟩, ?_, h.2.1.symm, ?_⟩
        · rw [← h.1, hl]
          rfl
        · rw [Name.text, PlainName.text, List.append_assoc, ← hrest, List.cons_append, hsplit]
      · cases h

theorem scanSegment_sound {hyphens : Bool} {cs rest : List Char} {segment : Segment}
    (h : scanSegment hyphens cs = .ok (segment, rest)) :
    ∃ s : Step, segment = s.segment ∧ cs = s.text ++ rest := by
  obtain ⟨name, quoted, rest', hn, rfl, rfl⟩ := scanSegment_eq_ok_iff.mp h
  obtain ⟨n, hname, hquoted, hcs⟩ := scanName_sound hn
  obtain ⟨ds, hl, hrest⟩ := scanIndexes_sound rest'
  refine ⟨⟨n, ds⟩, ?_, ?_⟩
  · rw [hname, hquoted, hl]
    rfl
  · rw [hcs, Step.text, List.append_assoc, ← hrest]

theorem afterPoint?_sound {cs rest : List Char} (h : afterPoint? cs = some rest) :
    cs = '.' :: rest := by
  unfold afterPoint? at h
  split at h
  · split at h
    · rw [Option.some.inj h]
    · cases h
  · cases h

theorem startsSegment_of_afterPoint? {cs rest : List Char} (h : afterPoint? cs = some rest) :
    startsSegment rest = true := by
  unfold afterPoint? at h
  split at h
  · split at h
    · next hstarts =>
      cases h
      exact hstarts
    · cases h
  · cases h

/-- A path that is read is steps joined by points. -/
theorem scanPath_sound {hyphens : Bool} {cs rest : List Char} {segments : List Segment}
    (h : scanPath hyphens cs = .ok (segments, rest)) :
    ∃ (s : Step) (ss : List Step), segments = s.segment :: ss.map Step.segment ∧
      cs = s.text ++ Step.pointed ss ++ rest := by
  fun_induction scanPath hyphens cs generalizing segments rest with
  | case1 => cases h
  | case2 cs segment rest' hs hp =>
    obtain ⟨s, hsegment, hcs⟩ := scanSegment_sound hs
    simp only [Except.ok.injEq, Prod.mk.injEq] at h
    refine ⟨s, [], ?_, ?_⟩
    · rw [← h.1, hsegment]
      rfl
    · rw [hcs, h.2]
      simp [Step.pointed]
  | case3 => cases h
  | case4 cs segment rest' hs more hp h₁ h₂ segments' rest'' hr ih =>
    obtain ⟨s, hsegment, hcs⟩ := scanSegment_sound hs
    obtain ⟨t, ts, hsegments, hmore⟩ := ih hr
    simp only [Except.ok.injEq, Prod.mk.injEq] at h
    refine ⟨s, t :: ts, ?_, ?_⟩
    · rw [← h.1, hsegment, hsegments]
      rfl
    · rw [hcs, afterPoint?_sound hp, hmore, h.2]
      simp [Step.pointed]

/-! ## Other tokens -/

theorem scanNumber_sound {cs rest : List Char} (h : scanNumber cs = some rest) :
    ∃ n : Numeral, n.isNegative = false ∧ cs = n.text ++ rest := by
  have hdigits := forall_mem_takeWhile isDigit cs
  have hsplit := List.takeWhile_append_dropWhile (p := isDigit) (l := cs)
  unfold scanNumber at h
  split at h
  · cases h
  · next d ds more htake hdrop =>
    rw [htake] at hdigits
    rw [htake, hdrop] at hsplit
    have hfraction := forall_mem_takeWhile isDigit more
    have hmore := List.takeWhile_append_dropWhile (p := isDigit) (l := more)
    dsimp only at h
    split at h
    · rw [← Option.some.inj h]
      exact ⟨⟨false, ⟨d :: ds, List.cons_ne_nil _ _, hdigits⟩, none⟩, rfl, hsplit.symm⟩
    · next hne =>
      rw [Bool.or_eq_true, not_or, List.isEmpty_iff] at hne
      rw [← Option.some.inj h]
      refine ⟨⟨false, ⟨d :: ds, List.cons_ne_nil _ _, hdigits⟩, some ⟨_, hne.1, hfraction⟩⟩, rfl,
        ?_⟩
      show cs = d :: ds ++ '.' :: more.takeWhile isDigit ++ more.dropWhile isDigit
      have hpoint : '.' :: more.takeWhile isDigit ++ more.dropWhile isDigit = '.' :: more :=
        congrArg _ hmore
      rw [List.append_assoc, hpoint, hsplit]
  · next d ds htake _ =>
    rw [htake] at hdigits hsplit
    split at h
    · cases h
    · rw [← Option.some.inj h]
      exact ⟨⟨false, ⟨d :: ds, List.cons_ne_nil _ _, hdigits⟩, none⟩, rfl, hsplit.symm⟩

theorem scanSignedNumber_sound {cs rest : List Char} (h : scanSignedNumber cs = some rest) :
    ∃ n : Numeral, cs = n.text ++ rest := by
  unfold scanSignedNumber at h
  split at h
  · next cs' =>
    obtain ⟨n, hn, hcs⟩ := scanNumber_sound h
    refine ⟨{ n with isNegative := true }, ?_⟩
    rw [hcs, Numeral.text, hn]
    rfl
  · cases h

theorem scanNumberAfter_sound {prev : Option Token} {cs rest : List Char}
    (h : scanNumberAfter prev cs = some rest) : ∃ n : Numeral, cs = n.text ++ rest := by
  unfold scanNumberAfter at h
  split at h
  · next rest' hs =>
    rw [← Option.some.inj h]
    split at hs
    · exact scanSignedNumber_sound hs
    · cases hs
  · obtain ⟨n, -, hcs⟩ := scanNumber_sound h
    exact ⟨n, hcs⟩

theorem scanBinary_sound {cs payload rest : List Char}
    (h : scanBinary cs = some (payload, rest)) :
    payload ≠ [] ∧ (∀ c ∈ payload, isBinaryChar c = true) ∧
      cs = '<' :: (payload ++ '>' :: rest) := by
  unfold scanBinary at h
  split at h
  · next cs' =>
    split at h
    · next c payload' rest' htake hdrop =>
      have hbinary := forall_mem_takeWhile isBinaryChar cs'
      have hsplit := List.takeWhile_append_dropWhile (p := isBinaryChar) (l := cs')
      rw [htake] at hbinary
      rw [htake, hdrop] at hsplit
      simp only [Option.some.injEq, Prod.mk.injEq] at h
      rw [← h.1, ← h.2, hsplit]
      exact ⟨List.cons_ne_nil _ _, hbinary, rfl⟩
    · cases h
  · cases h

/-- The operators as text. -/
def operators : List (List Char) :=
  [['<', '>'], ['<', '='], ['>', '='], ['='], ['<'], ['>'], ['+'], ['-']]

theorem scanOperator_sound {cs rest : List Char} (h : scanOperator cs = some rest) :
    ∃ op ∈ operators, cs = op ++ rest := by
  unfold scanOperator at h
  split at h
  · next cs' => exact ⟨['<', '>'], by decide, by rw [Option.some.inj h]; rfl⟩
  · next cs' => exact ⟨['<', '='], by decide, by rw [Option.some.inj h]; rfl⟩
  · next cs' => exact ⟨['>', '='], by decide, by rw [Option.some.inj h]; rfl⟩
  · next c cs' _ _ _ =>
    split at h
    · next hc =>
      refine ⟨[c], ?_, by rw [Option.some.inj h]; rfl⟩
      simp only [List.contains_eq_mem, List.mem_cons, List.not_mem_nil, or_false,
        decide_eq_true_eq] at hc
      rcases hc with rfl | rfl | rfl | rfl | rfl <;> decide
    · cases h
  · cases h

/-- A mark that a placeholder starts with. -/
def isMark (c : Char) : Bool :=
  c == '#' || c == ':'

theorem startsWord_iff {cs : List Char} : startsWord cs = true ↔ cs.takeWhile isWord ≠ [] := by
  cases cs with
  | nil => simp [startsWord]
  | cons c cs =>
    rw [startsWord, List.takeWhile_cons]
    cases isWord c <;> simp

theorem scanPlaceholder_sound {cs rest : List Char} (h : scanPlaceholder cs = some rest) :
    ∃ (mark : Char) (w : Word), isMark mark = true ∧ cs = mark :: (w.chars ++ rest) ∧
      Stops isWord rest := by
  unfold scanPlaceholder at h
  split at h
  · next c cs' =>
    split at h
    · next hc =>
      rw [Bool.and_eq_true, startsWord_iff] at hc
      rw [← Option.some.inj h]
      exact ⟨c, ⟨cs'.takeWhile isWord, hc.2, forall_mem_takeWhile isWord cs'⟩, hc.1,
        by rw [List.takeWhile_append_dropWhile], stops_dropWhile isWord cs'⟩
    · cases h
  · cases h

theorem scanString_sound {cs payload rest : List Char}
    (h : scanString cs = some (payload, rest)) :
    ∃ units : List StringUnit, payload = units.map StringUnit.char ∧
      cs = units.flatMap StringUnit.text ++ '\x27' :: rest := by
  fun_induction scanString cs generalizing payload rest with
  | case1 => cases h
  | case2 c cs ih =>
    obtain ⟨r, hr, he⟩ := Option.map_eq_some_iff.mp h
    obtain ⟨units, hpayload, hcs⟩ := ih hr
    rw [Prod.mk.injEq] at he
    refine ⟨.escaped c :: units, ?_, ?_⟩
    · rw [← he.1, hpayload]
      rfl
    · rw [hcs, he.2]
      rfl
  | case3 cs _ =>
    simp only [Option.some.injEq, Prod.mk.injEq] at h
    exact ⟨[], h.1.symm, by rw [h.2]; rfl⟩
  | case4 c cs hescape hquote ih =>
    obtain ⟨r, hr, he⟩ := Option.map_eq_some_iff.mp h
    obtain ⟨units, hpayload, hcs⟩ := ih hr
    rw [Prod.mk.injEq] at he
    -- a backslash at the end would leave nothing for the closing quote
    have hbackslash : c ≠ '\\' := by
      rintro rfl
      cases cs with
      | nil => cases hr
      | cons d ds => exact hescape d ds rfl rfl
    refine ⟨.plain c ?_ :: units, ?_, ?_⟩
    · rw [Bool.and_eq_true, bne_iff_ne, bne_iff_ne]
      exact ⟨hquote, hbackslash⟩
    · rw [← he.1, hpayload]
      rfl
    · rw [hcs, he.2]
      rfl

/-! ## Tokens -/

/-- The text that a token of a kind is read from. -/
def TokenKind.Reads (text : List Char) : TokenKind → Prop
  | .string payload => ∃ units : List StringUnit, payload = units.map StringUnit.char ∧
      text = '\x27' :: (units.flatMap StringUnit.text ++ ['\x27'])
  | .binary payload => payload ≠ [] ∧ (∀ c ∈ payload, isBinaryChar c = true) ∧
      text = '<' :: (payload ++ ['>'])
  | .number => ∃ n : Numeral, text = n.text
  | .operator => text ∈ operators
  | .openParen => text = ['(']
  | .closeParen => text = [')']
  | .comma => text = [',']
  | .placeholder => ∃ (mark : Char) (w : Word), isMark mark = true ∧ text = mark :: w.chars
  | .path segments => ∃ (s : Step) (ss : List Step),
      segments = s.segment :: ss.map Step.segment ∧ text = s.text ++ Step.pointed ss
  | .other => ∃ c, text = [c]

theorem scanWordOrSign_reads {prev : Option Token} {c : Char} {cs rest : List Char}
    {kind : TokenKind} (h : scanWordOrSign prev c cs = .ok (kind, rest)) :
    ∃ text, kind.Reads text ∧ c :: cs = text ++ rest := by
  unfold scanWordOrSign at h
  split at h
  · next hc =>
    cases h
    exact ⟨['('], rfl, by rw [hc]; rfl⟩
  split at h
  · next hc =>
    cases h
    exact ⟨[')'], rfl, by rw [hc]; rfl⟩
  split at h
  · next hc =>
    cases h
    exact ⟨[','], rfl, by rw [hc]; rfl⟩
  split at h
  · next hp =>
    cases h
    obtain ⟨mark, w, hmark, hcs, -⟩ := scanPlaceholder_sound hp
    exact ⟨mark :: w.chars, ⟨mark, w, hmark, rfl⟩, hcs⟩
  split at h
  · split at h
    · next hp =>
      cases h
      obtain ⟨s, ss, hsegments, hcs⟩ := scanPath_sound hp
      exact ⟨_, ⟨s, ss, hsegments, rfl⟩, hcs⟩
    · cases h
  · cases h
    exact ⟨[c], ⟨c, rfl⟩, rfl⟩

/-- What is scanned is a text that its token is read from, and the rest. -/
theorem scanToken_reads {prev : Option Token} {c : Char} {cs rest : List Char}
    {kind : TokenKind} (h : scanToken prev c cs = .ok (kind, rest)) :
    ∃ text, kind.Reads text ∧ c :: cs = text ++ rest := by
  unfold scanToken at h
  split at h
  · next hc =>
    split at h
    · next hs =>
      cases h
      obtain ⟨units, hpayload, hcs⟩ := scanString_sound hs
      refine ⟨_, ⟨units, hpayload, rfl⟩, ?_⟩
      rw [hc, hcs]
      simp
    · cases h
  · split at h
    · next hn =>
      cases h
      obtain ⟨n, hcs⟩ := scanNumberAfter_sound hn
      exact ⟨n.text, ⟨n, rfl⟩, hcs⟩
    · split at h
      · next hb =>
        cases h
        obtain ⟨hne, hbinary, hcs⟩ := scanBinary_sound hb
        refine ⟨_, ⟨hne, hbinary, rfl⟩, ?_⟩
        rw [hcs]
        simp
      · split at h
        · next ho =>
          cases h
          obtain ⟨op, hop, hcs⟩ := scanOperator_sound ho
          exact ⟨op, hop, hcs⟩
        · exact scanWordOrSign_reads h

end ItemStore.Expression
