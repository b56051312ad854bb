import ItemStore.Expression.Fault
import ItemStore.Text.Blank
import ItemStore.Text.Word

/-
  Attribute paths: segments joined by points. A segment is a word, or any text between two
  backticks or two double quotes, with list indexes behind it. Where hyphens are allowed, an
  unquoted name goes on over a hyphen that a word character other than a digit follows.

  Each scanner gives the part it has read and the rest of the text; `scanPath_length` says that
  a path takes at least one character.
-/

namespace ItemStore.Expression

open Text

/-- One step of an attribute path: a name with the list indexes behind it. -/
structure Segment where
  name : List Char
  suffix : List Char
  quoted : Bool
  deriving DecidableEq, Inhabited

/-- A quote around attribute names: a backtick or a double quote. -/
def isNameQuote (c : Char) : Bool :=
  c == '\x60' || c == '\x22'

/-- Whether a text starts with a word character. -/
def startsWord : List Char → Bool
  | [] => false
  | c :: _ => isWord c

/-- Whether a segment starts here. -/
def startsSegment : List Char → Bool
  | [] => false
  | c :: _ => isNameQuote c || isWord c

/-- One list index: digits between brackets. -/
def scanIndex : List Char → Option (List Char × List Char)
  | '[' :: cs =>
    match cs.takeWhile isDigit, cs.dropWhile isDigit with
    | d :: ds, ']' :: rest => some ('[' :: d :: (ds ++ [']']), rest)
    | _, _ => none
  | _ => none

theorem length_dropWhile_le (p : Char → Bool) (cs : List Char) :
    (cs.dropWhile p).length ≤ cs.length :=
  (List.dropWhile_suffix p).length_le

theorem scanIndex_length {cs l rest : List Char} (h : scanIndex cs = some (l, rest)) :
    rest.length < cs.length := by
  unfold scanIndex at h
  split at h
  · next cs' =>
    split at h
    · next d ds rest' _ hd =>
      have := length_dropWhile_le isDigit cs'
      rw [hd] at this
      simp only [Option.some.injEq, Prod.mk.injEq] at h
      rw [← h.2]
      simp only [List.length_cons] at this ⊢
      omega
    · simp at h
  · simp at h

/-- All list indexes that follow each other. -/
def scanIndexes (cs : List Char) : List Char × List Char :=
  match h : scanIndex cs with
  | some (l, rest) =>
    have := scanIndex_length h
    let more := scanIndexes rest
    (l ++ more.1, more.2)
  | none => ([], cs)
termination_by cs.length

theorem scanIndexes_length (cs : List Char) : (scanIndexes cs).2.length ≤ cs.length := by
  fun_induction scanIndexes cs with
  | case1 cs l rest h _ more ih =>
    have := scanIndex_length h
    simp only [more]
    omega
  | case2 => simp

/-- One hyphenated part: a hyphen, a word character other than a digit, more word characters. -/
def scanHyphenated : List Char → Option (List Char × List Char)
  | '-' :: c :: cs =>
    if isWord c && !isDigit c then some ('-' :: c :: cs.takeWhile isWord, cs.dropWhile isWord)
    else none
  | _ => none

theorem scanHyphenated_length {cs l rest : List Char} (h : scanHyphenated cs = some (l, rest)) :
    rest.length < cs.length := by
  unfold scanHyphenated at h
  split at h
  · next c cs' =>
    split at h
    · have := length_dropWhile_le isWord cs'
      simp only [Option.some.injEq, Prod.mk.injEq] at h
      rw [← h.2]
      simp only [List.length_cons]
      omega
    · simp at h
  · simp at h

/-- All hyphenated parts that follow each other. -/
def scanHyphens (cs : List Char) : List Char × List Char :=
  match h : scanHyphenated cs with
  | some (l, rest) =>
    have := scanHyphenated_length h
    let more := scanHyphens rest
    (l ++ more.1, more.2)
  | none => ([], cs)
termination_by cs.length

theorem scanHyphens_length (cs : List Char) : (scanHyphens cs).2.length ≤ cs.length := by
  fun_induction scanHyphens cs with
  | case1 cs l rest h _ more ih =>
    have := scanHyphenated_length h
    simp only [more]
    omega
  | case2 => simp

/-- Where a path cannot be read on: what is wrong, and the text from there on. -/
inductive PathFault where
  | unclosedName
  | missingName
  deriving DecidableEq

/-- A segment without its indexes: the name, whether it is quoted, and the rest. -/
def scanName (hyphens : Bool) : List Char → Except (PathFault × List Char)
    (List Char × Bool × List Char)
  | [] => .error (.missingName, [])
  | c :: cs =>
    if isNameQuote c then
      match cs.dropWhile (· ≠ c) with
      | [] => .error (.unclosedName, c :: cs)
      | _ :: rest => .ok (cs.takeWhile (· ≠ c), true, rest)
    else if isWord c then
      let rest := cs.dropWhile isWord
      let more := if hyphens then scanHyphens rest else ([], rest)
      .ok (c :: cs.takeWhile isWord ++ more.1, false, more.2)
    else .error (.missingName, c :: cs)

theorem scanName_length {hyphens : Bool} {cs name rest : List Char} {quoted : Bool}
    (h : scanName hyphens cs = .ok (name, quoted, rest)) : rest.length < cs.length := by
  unfold scanName at h
  split at h
  · simp at h
  · next c cs' =>
    split at h
    · split at h
      · simp at h
      · next q rest' hd =>
        have := length_dropWhile_le (· ≠ c) cs'
        rw [hd] at this
        simp only [Except.ok.injEq, Prod.mk.injEq] at h
        simp only [List.length_cons] at this ⊢
        rw [← h.2.2]
        omega
    · split at h
      · have h₁ := length_dropWhile_le isWord cs'
        have h₂ := scanHyphens_length (cs'.dropWhile isWord)
        simp only [Except.ok.injEq, Prod.mk.injEq] at h
        rw [← h.2.2]
        simp only [List.length_cons]
        split
        · omega
        · simp only
          omega
      · simp at h

/-- A segment with its indexes, and the rest. -/
def scanSegment (hyphens : Bool) (cs : List Char) : Except (PathFault × List Char)
    (Segment × List Char) :=
  match scanName hyphens cs with
  | .error e => .error e
  | .ok (name, quoted, rest) =>
    let indexes := scanIndexes rest
    .ok (⟨name, indexes.1, quoted⟩, indexes.2)

theorem scanSegment_length {hyphens : Bool} {cs rest : List Char} {segment : Segment}
    (h : scanSegment hyphens cs = .ok (segment, rest)) : rest.length < cs.length := by
  unfold scanSegment at h
  split at h
  · simp at h
  · next name quoted rest' hn =>
    have h₁ := scanName_length hn
    have h₂ := scanIndexes_length rest'
    simp only [Except.ok.injEq, Prod.mk.injEq] at h
    rw [← h.2]
    omega

/-- The text after a point that joins another segment. -/
def afterPoint? : List Char → Option (List Char)
  | '.' :: cs => if startsSegment cs then some cs else none
  | _ => none

theorem afterPoint?_length {cs rest : List Char} (h : afterPoint? cs = some rest) :
    rest.length < cs.length := by
  unfold afterPoint? at h
  split at h
  · split at h
    · simp only [Option.some.injEq] at h
      simp [h]
    · simp at h
  · simp at h

/-- A path: as many segments as points join. -/
def scanPath (hyphens : Bool) (cs : List Char) : Except (PathFault × List Char)
    (List Segment × List Char) :=
  match h : scanSegment hyphens cs with
  | .error e => .error e
  | .ok (segment, rest) =>
    match hp : afterPoint? rest with
    | none => .ok ([segment], rest)
    | some more =>
      have := scanSegment_length h
      have := afterPoint?_length hp
      match scanPath hyphens more with
      | .error e => .error e
      | .ok (segments, rest) => .ok (segment :: segments, rest)
termination_by cs.length

theorem scanPath_length {hyphens : Bool} {cs rest : List Char} {segments : List Segment}
    (h : scanPath hyphens cs = .ok (segments, rest)) : rest.length < cs.length := by
  fun_induction scanPath hyphens cs generalizing segments rest with
  | case1 => simp at h
  | case2 cs segment rest' hs hp =>
    have := scanSegment_length hs
    simp only [Except.ok.injEq, Prod.mk.injEq] at h
    rw [← h.2]
    exact this
  | case3 => simp at h
  | case4 cs segment rest' hs more hp h₁ h₂ segments' rest'' hr ih =>
    have := ih hr
    simp only [Except.ok.injEq, Prod.mk.injEq] at h
    rw [← h.2]
    omega

end ItemStore.Expression
