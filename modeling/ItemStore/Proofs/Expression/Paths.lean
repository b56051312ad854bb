import ItemStore.Expression.Inferred
import ItemStore.Proofs.Text.Classes
import ItemStore.Proofs.Text.Runs

/-
  Attribute paths as they are written. A name is a word, with hyphenated parts behind it, or any
  text between two quotes; a step is a name with list indexes; a path is steps joined by points.
  The types hold well-formed paths only.

  `scanPath_steps`: steps joined by points are scanned from their text exactly, whatever stands
  behind them that does not go on with a path (`continuesPath`). `Path` leaves out what is read
  otherwise at the start of a token: a first step that starts as a number, and a single bare word of
  the language.
-/

namespace ItemStore.Expression

open Text

/-! ## Words and digits -/

/-- Word characters in a row. -/
structure Word where
  chars : List Char
  ne_nil : chars ≠ []
  isWord_of_mem : ∀ c ∈ chars, isWord c = true

/-- Decimal digits in a row. -/
structure Digits where
  chars : List Char
  ne_nil : chars ≠ []
  isDigit_of_mem : ∀ c ∈ chars, isDigit c = true

/-- A word that starts with no digit: it can follow a hyphen. -/
structure HyphenPart extends Word where
  isDigit_head : ∀ c ∈ chars.head?, isDigit c = false

namespace HyphenPart

/-- Hyphenated parts with their hyphens. -/
def text (ps : List HyphenPart) : List Char :=
  ps.flatMap fun p => '-' :: p.chars

end HyphenPart

namespace Digits

/-- A number between brackets. -/
def index (d : Digits) : List Char :=
  '[' :: (d.chars ++ [']'])

/-- List indexes behind each other. -/
def indexes (ds : List Digits) : List Char :=
  ds.flatMap index

theorem indexes_cons_append (d : Digits) (ds : List Digits) (rest : List Char) :
    indexes (d :: ds) ++ rest = d.index ++ (indexes ds ++ rest) := by
  simp [indexes]

end Digits

/-! ## Names, steps and paths -/

/-- A name without quotes. -/
structure PlainName where
  head : Word
  parts : List HyphenPart

/-- A name without quotes as text. -/
def PlainName.text (n : PlainName) : List Char :=
  n.head.chars ++ HyphenPart.text n.parts

/-- A name as it is written. -/
inductive Name where
  | plain (n : PlainName)
  | quoted (mark : Char) (body : List Char) (isMark : isNameQuote mark = true)
      (fresh : mark ∉ body)

namespace Name

/-- The attribute that a name names. -/
def key : Name → List Char
  | .plain n => n.text
  | .quoted _ body _ _ => body

/-- A name as text. -/
def text : Name → List Char
  | .plain n => n.text
  | .quoted mark body _ _ => mark :: (body ++ [mark])

/-- Whether a name is quoted. -/
def isQuoted : Name → Bool
  | .plain _ => false
  | .quoted _ _ _ _ => true

/-- Whether a name goes on over a hyphen. -/
def isHyphenated : Name → Bool
  | .plain n => !n.parts.isEmpty
  | .quoted _ _ _ _ => false

end Name

/-- A name with the list indexes behind it. -/
structure Step where
  name : Name
  indexes : List Digits

namespace Step

/-- A step as text. -/
def text (s : Step) : List Char :=
  s.name.text ++ Digits.indexes s.indexes

/-- The segment that a step is read as. -/
def segment (s : Step) : Segment :=
  ⟨s.name.key, Digits.indexes s.indexes, s.name.isQuoted⟩

/-- Steps, each behind a point. -/
def pointed (ss : List Step) : List Char :=
  ss.flatMap fun s => '.' :: s.text

end Step

/-- A word of the language: a keyword or a literal, in any case. -/
def isReserved (word : List Char) : Bool :=
  (Keyword.ofWord? word).isSome || (Inferred.wordLiteral? word).isSome

/-- Whether a step starts as a number does. -/
def Step.startsNumber (s : Step) : Bool :=
  match s.name with
  | .plain n => n.head.chars.all isDigit
  | .quoted _ _ _ _ => false

/-- Whether a step is a word of the language and nothing else. -/
def Step.isReserved (s : Step) : Bool :=
  match s.name with
  | .plain n => s.indexes.isEmpty && Expression.isReserved n.text
  | .quoted _ _ _ _ => false

/-- An attribute path. -/
structure Path where
  head : Step
  tail : List Step
  notNumber : head.startsNumber = false
  notReserved : tail = [] → head.isReserved = false

namespace Path

/-- A path as text. -/
def text (p : Path) : List Char :=
  p.head.text ++ Step.pointed p.tail

/-- The segments that a path is read as. -/
def segments (p : Path) : List Segment :=
  p.head.segment :: p.tail.map Step.segment

end Path

/-- The name of a function: neither a number nor a word of the language. -/
structure FunctionName where
  name : PlainName
  notNumber : name.head.chars.all isDigit = false
  notReserved : isReserved name.text = false

/-! ## Scanning indexes and hyphenated parts -/

theorem scanIndex_index (d : Digits) (rest : List Char) :
    scanIndex (d.index ++ rest) = some (d.index, rest) := by
  have hstops : Stops isDigit (']' :: rest) := stops_cons.mpr (by decide)
  have htake := takeWhile_run d.isDigit_of_mem hstops
  have hdrop := dropWhile_run d.isDigit_of_mem hstops
  have hcons : d.index ++ rest = '[' :: (d.chars ++ ']' :: rest) := by
    simp [Digits.index]
  rw [hcons, scanIndex, htake, hdrop, Digits.index]
  cases h : d.chars with
  | nil => exact absurd h d.ne_nil
  | cons c cs => rfl

theorem scanIndex_of_stops {rest : List Char} (h : Stops (· == '[') rest) :
    scanIndex rest = none := by
  unfold scanIndex
  split
  · exact absurd (stops_cons.mp h) (by decide)
  · rfl

theorem scanIndexes_of_some {cs l rest : List Char} (h : scanIndex cs = some (l, rest)) :
    scanIndexes cs = (l ++ (scanIndexes rest).1, (scanIndexes rest).2) := by
  rw [scanIndexes]
  split
  · next heq =>
    rw [h] at heq
    cases heq
    rfl
  · next heq =>
    rw [h] at heq
    cases heq

theorem scanIndexes_of_none {cs : List Char} (h : scanIndex cs = none) :
    scanIndexes cs = ([], cs) := by
  rw [scanIndexes]
  split
  · next heq =>
    rw [h] at heq
    cases heq
  · rfl

/-- List indexes are read to the last. -/
theorem scanIndexes_indexes (ds : List Digits) {rest : List Char} (h : Stops (· == '[') rest) :
    scanIndexes (Digits.indexes ds ++ rest) = (Digits.indexes ds, rest) := by
  induction ds with
  | nil => exact scanIndexes_of_none (scanIndex_of_stops h)
  | cons d ds ih =>
    rw [Digits.indexes_cons_append, scanIndexes_of_some (scanIndex_index d _), ih]
    rfl

/-- A hyphen ends a word. -/
theorem stops_hyphenParts (ps : List HyphenPart) : Stops isWord (HyphenPart.text ps) := by
  cases ps with
  | nil => exact stops_nil isWord
  | cons p ps => exact stops_cons.mpr (by decide +kernel)

/-- A bracket ends a name. -/
theorem stops_indexes (ds : List Digits) :
    Stops isWord (Digits.indexes ds) ∧ Stops (· == '-') (Digits.indexes ds) := by
  cases ds with
  | nil => exact ⟨stops_nil _, stops_nil _⟩
  | cons d ds => exact ⟨stops_cons.mpr (by decide +kernel), stops_cons.mpr (by decide)⟩

theorem scanHyphenated_part (p : HyphenPart) {rest : List Char} (h : Stops isWord rest) :
    scanHyphenated ('-' :: p.chars ++ rest) = some ('-' :: p.chars, rest) := by
  have hword := p.isWord_of_mem
  have hdigit := p.isDigit_head
  cases hchars : p.chars with
  | nil => exact absurd hchars p.ne_nil
  | cons c cs =>
    rw [hchars, List.forall_mem_cons] at hword
    rw [hchars] at hdigit
    have hc : (isWord c && !isDigit c) = true := by
      rw [hword.1, hdigit c rfl]
      rfl
    show scanHyphenated ('-' :: c :: (cs ++ rest)) = _
    rw [scanHyphenated, if_pos hc, takeWhile_run hword.2 h, dropWhile_run hword.2 h]

theorem scanHyphenated_of_stops {rest : List Char} (h : Stops (· == '-') rest) :
    scanHyphenated rest = none := by
  unfold scanHyphenated
  split
  · exact absurd (stops_cons.mp h) (by decide)
  · rfl

theorem scanHyphens_of_some {cs l rest : List Char} (h : scanHyphenated cs = some (l, rest)) :
    scanHyphens cs = (l ++ (scanHyphens rest).1, (scanHyphens rest).2) := by
  rw [scanHyphens]
  split
  · next heq =>
    rw [h] at heq
    cases heq
    rfl
  · next heq =>
    rw [h] at heq
    cases heq

theorem scanHyphens_of_none {cs : List Char} (h : scanHyphenated cs = none) :
    scanHyphens cs = ([], cs) := by
  rw [scanHyphens]
  split
  · next heq =>
    rw [h] at heq
    cases heq
  · rfl

/-- Hyphenated parts are read to the last. -/
theorem scanHyphens_text (ps : List HyphenPart) {rest : List Char} (hw : Stops isWord rest)
    (hh : Stops (· == '-') rest) :
    scanHyphens (HyphenPart.text ps ++ rest) = (HyphenPart.text ps, rest) := by
  induction ps with
  | nil => exact scanHyphens_of_none (scanHyphenated_of_stops hh)
  | cons p ps ih =>
    have hcons : HyphenPart.text (p :: ps) ++ rest =
        '-' :: p.chars ++ (HyphenPart.text ps ++ rest) := by
      simp [HyphenPart.text]
    rw [hcons, scanHyphens_of_some (scanHyphenated_part p ((stops_hyphenParts ps).append hw)), ih]
    rfl

/-! ## Scanning names, steps and paths -/

/-- A character that goes on with a segment when it stands behind it. -/
def continuesSegment (c : Char) : Bool :=
  isWord c || c == '-' || c == '['

/-- A character that goes on with a path when it stands behind it. -/
def continuesPath (c : Char) : Bool :=
  continuesSegment c || c == '.'

theorem stops_of_continuesSegment {rest : List Char} (h : Stops continuesSegment rest) :
    Stops isWord rest ∧ Stops (· == '-') rest ∧ Stops (· == '[') rest := by
  refine ⟨h.mono fun c hc => ?_, h.mono fun c hc => ?_, h.mono fun c hc => ?_⟩
  · rw [continuesSegment, hc, Bool.true_or, Bool.true_or]
  · rw [continuesSegment, hc, Bool.or_true, Bool.true_or]
  · rw [continuesSegment, hc, Bool.or_true]

theorem stops_of_continuesPath {rest : List Char} (h : Stops continuesPath rest) :
    Stops continuesSegment rest ∧ Stops (· == '.') rest := by
  refine ⟨h.mono fun c hc => ?_, h.mono fun c hc => ?_⟩
  · rw [continuesPath, hc, Bool.true_or]
  · rw [continuesPath, hc, Bool.or_true]

theorem scanName_plain {hyphens : Bool} (n : PlainName) {rest : List Char}
    (hn : n.parts ≠ [] → hyphens = true) (hw : Stops isWord rest) (hh : Stops (· == '-') rest) :
    scanName hyphens (n.text ++ rest) = .ok (n.text, false, rest) := by
  have hword := n.head.isWord_of_mem
  have hstops : Stops isWord (HyphenPart.text n.parts ++ rest) :=
    (stops_hyphenParts n.parts).append hw
  have hmore : (if hyphens then scanHyphens (HyphenPart.text n.parts ++ rest)
      else ([], HyphenPart.text n.parts ++ rest)) = (HyphenPart.text n.parts, rest) := by
    cases hyphens with
    | true => exact scanHyphens_text n.parts hw hh
    | false =>
      have hnil : n.parts = [] := by
        by_cases hp : n.parts = []
        · exact hp
        · exact absurd (hn hp) Bool.false_ne_true
      rw [hnil]
      rfl
  rw [PlainName.text, List.append_assoc]
  cases hchars : n.head.chars with
  | nil => exact absurd hchars n.head.ne_nil
  | cons c cs =>
    rw [hchars, List.forall_mem_cons] at hword
    have hquote : isNameQuote c = false := by
      rw [← Bool.not_eq_true]
      intro hq
      rw [isNameQuote, Bool.or_eq_true, beq_iff_eq, beq_iff_eq] at hq
      rcases hq with rfl | rfl
      · exact absurd hword.1 (by decide +kernel)
      · exact absurd hword.1 (by decide +kernel)
    rw [List.cons_append, scanName, hquote, if_neg Bool.false_ne_true, if_pos hword.1,
      dropWhile_run hword.2 hstops, takeWhile_run hword.2 hstops]
    dsimp only
    rw [hmore]

theorem scanName_quoted (hyphens : Bool) {mark : Char} {body : List Char}
    (isMark : isNameQuote mark = true) (fresh : mark ∉ body) (rest : List Char) :
    scanName hyphens (mark :: (body ++ [mark]) ++ rest) = .ok (body, true, rest) := by
  have hbody : ∀ c ∈ body, decide (c ≠ mark) = true := by
    intro c hc
    rw [decide_eq_true_eq]
    rintro rfl
    exact fresh hc
  have hstops : Stops (fun c => decide (c ≠ mark)) (mark :: rest) :=
    stops_cons.mpr (decide_eq_false (not_not_intro rfl))
  have hcons : mark :: (body ++ [mark]) ++ rest = mark :: (body ++ mark :: rest) := by
    simp
  rw [hcons, scanName, if_pos isMark, dropWhile_run hbody hstops, takeWhile_run hbody hstops]

/-- A name is read from its text; over its hyphens only where they join names. -/
theorem scanName_text {hyphens : Bool} (n : Name) {rest : List Char}
    (hn : n.isHyphenated = true → hyphens = true) (hw : Stops isWord rest)
    (hh : Stops (· == '-') rest) :
    scanName hyphens (n.text ++ rest) = .ok (n.key, n.isQuoted, rest) := by
  cases n with
  | plain n =>
    refine scanName_plain n (fun hp => hn ?_) hw hh
    show (!n.parts.isEmpty) = true
    rw [List.isEmpty_eq_false_iff.mpr hp]
    rfl
  | quoted mark body isMark fresh => exact scanName_quoted hyphens isMark fresh rest

/-- A segment is a name with the indexes behind it. -/
theorem scanSegment_eq_ok_iff {hyphens : Bool} {cs rest : List Char} {segment : Segment} :
    scanSegment hyphens cs = .ok (segment, rest) ↔
      ∃ name quoted rest', scanName hyphens cs = .ok (name, quoted, rest') ∧
        segment = ⟨name, (scanIndexes rest').1, quoted⟩ ∧ rest = (scanIndexes rest').2 := by
  unfold scanSegment
  cases scanName hyphens cs with
  | error e => exact ⟨nofun, fun ⟨_, _, _, h, _⟩ => nomatch h⟩
  | ok r =>
    constructor
    · intro h
      cases h
      exact ⟨r.1, r.2.1, r.2.2, rfl, rfl, rfl⟩
    · rintro ⟨name, quoted, rest', h, rfl, rfl⟩
      cases h
      rfl

theorem scanSegment_text {hyphens : Bool} (s : Step) {rest : List Char}
    (hn : s.name.isHyphenated = true → hyphens = true) (h : Stops continuesSegment rest) :
    scanSegment hyphens (s.text ++ rest) = .ok (s.segment, rest) := by
  obtain ⟨hw, hh, hi⟩ := stops_of_continuesSegment h
  obtain ⟨hword, hhyphen⟩ := stops_indexes s.indexes
  have hindexes := scanIndexes_indexes s.indexes hi
  have hname := scanName_text s.name hn (hword.append hw) (hhyphen.append hh)
  rw [Step.text, List.append_assoc]
  refine scanSegment_eq_ok_iff.mpr ⟨_, _, _, hname, ?_, ?_⟩
  · rw [hindexes]
    rfl
  · rw [hindexes]

theorem startsSegment_name (n : Name) (rest : List Char) :
    startsSegment (n.text ++ rest) = true := by
  cases n with
  | plain n =>
    show startsSegment (n.head.chars ++ HyphenPart.text n.parts ++ rest) = true
    have hword := n.head.isWord_of_mem
    cases hchars : n.head.chars with
    | nil => exact absurd hchars n.head.ne_nil
    | cons c cs =>
      rw [hchars, List.forall_mem_cons] at hword
      show (isNameQuote c || isWord c) = true
      rw [hword.1, Bool.or_true]
  | quoted mark body isMark fresh =>
    show (isNameQuote mark || isWord mark) = true
    rw [isMark, Bool.true_or]

theorem afterPoint?_pointed (s : Step) (ss : List Step) (rest : List Char) :
    afterPoint? (Step.pointed (s :: ss) ++ rest) =
      some (s.text ++ (Step.pointed ss ++ rest)) := by
  have hcons : Step.pointed (s :: ss) ++ rest = '.' :: (s.text ++ (Step.pointed ss ++ rest)) := by
    simp [Step.pointed]
  rw [hcons, afterPoint?, Step.text, List.append_assoc, startsSegment_name, if_pos rfl]

theorem afterPoint?_of_stops {rest : List Char} (h : Stops (· == '.') rest) :
    afterPoint? rest = none := by
  unfold afterPoint?
  split
  · exact absurd (stops_cons.mp h) (by decide)
  · rfl

/-- A point ends a step. -/
theorem stops_pointed (ss : List Step) : Stops continuesSegment (Step.pointed ss) := by
  cases ss with
  | nil => exact stops_nil continuesSegment
  | cons t ts => exact stops_cons.mpr (by decide +kernel)

/-- A step that no point joins to another is the last. -/
theorem scanPath_of_last {hyphens : Bool} {cs rest : List Char} {segment : Segment}
    (h : scanSegment hyphens cs = .ok (segment, rest)) (hp : afterPoint? rest = none) :
    scanPath hyphens cs = .ok ([segment], rest) := by
  unfold scanPath
  split
  · next heq =>
    rw [h] at heq
    cases heq
  · next heq =>
    rw [h] at heq
    cases heq
    split
    · rfl
    · next heq =>
      rw [hp] at heq
      cases heq

/-- Behind a step with a point the path goes on. -/
theorem scanPath_of_afterPoint {hyphens : Bool} {cs rest more : List Char} {segment : Segment}
    (h : scanSegment hyphens cs = .ok (segment, rest)) (hp : afterPoint? rest = some more) :
    scanPath hyphens cs = (scanPath hyphens more).map fun r => (segment :: r.1, r.2) := by
  rw [scanPath.eq_def]
  split
  · next heq =>
    rw [h] at heq
    cases heq
  · next heq =>
    rw [h] at heq
    cases heq
    split
    · next heq =>
      rw [hp] at heq
      cases heq
    · next heq =>
      rw [hp] at heq
      cases heq
      cases scanPath hyphens more <;> rfl

theorem scanPath_of_point {hyphens : Bool} {cs rest more rest' : List Char} {segment : Segment}
    {segments : List Segment} (h : scanSegment hyphens cs = .ok (segment, rest))
    (hp : afterPoint? rest = some more) (hm : scanPath hyphens more = .ok (segments, rest')) :
    scanPath hyphens cs = .ok (segment :: segments, rest') := by
  rw [scanPath_of_afterPoint h hp, hm]
  rfl

/-- A path is its last step, or a step with a point and a path behind it. -/
theorem scanPath_cases {hyphens : Bool} {cs rest : List Char} {segments : List Segment}
    (h : scanPath hyphens cs = .ok (segments, rest)) :
    ∃ segment rest', scanSegment hyphens cs = .ok (segment, rest') ∧
      (afterPoint? rest' = none ∧ segments = [segment] ∧ rest = rest' ∨
        ∃ more segments', afterPoint? rest' = some more ∧
          scanPath hyphens more = .ok (segments', rest) ∧ segments = segment :: segments') := by
  rw [scanPath.eq_def] at h
  split at h
  · cases h
  · next segment rest' hs =>
    refine ⟨segment, rest', hs, ?_⟩
    split at h
    · next hp =>
      cases h
      exact .inl ⟨hp, rfl, rfl⟩
    · next more hp =>
      dsimp only at h
      split at h
      · cases h
      · next segments' rest'' hm =>
        cases h
        exact .inr ⟨more, segments', hp, hm, rfl⟩

/-- Steps joined by points are read to the last. -/
theorem scanPath_steps {hyphens : Bool} (s : Step) (ss : List Step) {rest : List Char}
    (hn : ∀ t ∈ s :: ss, t.name.isHyphenated = true → hyphens = true)
    (h : Stops continuesPath rest) :
    scanPath hyphens (s.text ++ (Step.pointed ss ++ rest)) =
      .ok (s.segment :: ss.map Step.segment, rest) := by
  obtain ⟨hsegment, hpoint⟩ := stops_of_continuesPath h
  induction ss generalizing s with
  | nil =>
    have hs : scanSegment hyphens (s.text ++ rest) = .ok (s.segment, rest) :=
      scanSegment_text s (hn s List.mem_cons_self) hsegment
    exact scanPath_of_last hs (afterPoint?_of_stops hpoint)
  | cons t ts ih =>
    have hs := scanSegment_text s (hn s List.mem_cons_self)
      ((stops_pointed (t :: ts)).append hsegment)
    exact scanPath_of_point hs (afterPoint?_pointed t ts rest)
      (ih t fun u hu => hn u (List.mem_cons_of_mem s hu))

end ItemStore.Expression
