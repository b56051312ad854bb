import ItemStore.Proofs.Expression.Chunks
import ItemStore.Proofs.Expression.Located
import ItemStore.Proofs.Expression.Lossless

/-
  Path literals are read in one way only. A `Parse` of a text is the steps that it is written from,
  and no text has two of them (`Parse.eq`). A name, indexes and a step each end in one place, since
  none of them goes on with what may stand behind it (`Name.eq_of_append`,
  `Digits.eq_of_append`, `Step.eq_of_append`).

  `pathOf_parses`: a payload is accepted exactly if it has a parse, white space around it apart, and
  is read as that parse. So nothing is lost by a scanner that takes as much as it can. A payload
  without a parse is an error, and so is a source with such a literal behind others, whatever the
  placeholders are numbered from (`compile_of_literal_error`).
-/

namespace ItemStore.Expression

open Text

/-! ## Words and digits -/

theorem Word.eq_of_chars {v w : Word} (h : v.chars = w.chars) : v = w := by
  obtain ⟨cs, _, _⟩ := v
  obtain ⟨ds, _, _⟩ := w
  obtain rfl : cs = ds := h
  rfl

theorem Digits.eq_of_chars {d e : Digits} (h : d.chars = e.chars) : d = e := by
  obtain ⟨cs, _, _⟩ := d
  obtain ⟨ds, _, _⟩ := e
  obtain rfl : cs = ds := h
  rfl

theorem HyphenPart.eq_of_chars {p q : HyphenPart} (h : p.chars = q.chars) : p = q := by
  obtain ⟨v, _⟩ := p
  obtain ⟨w, _⟩ := q
  obtain rfl : v = w := Word.eq_of_chars h
  rfl

/-- Hyphenated parts are told by their text. -/
theorem HyphenPart.text_inj {ps qs : List HyphenPart} (h : text ps = text qs) : ps = qs := by
  induction ps generalizing qs with
  | nil =>
    cases qs with
    | nil => rfl
    | cons q qs => cases h
  | cons p ps ih =>
    cases qs with
    | nil => cases h
    | cons q qs =>
      have htail : p.chars ++ text ps = q.chars ++ text qs := (List.cons.inj h).2
      obtain ⟨hchars, hrest⟩ := run_unique htail p.isWord_of_mem q.isWord_of_mem
        (stops_hyphenParts ps) (stops_hyphenParts qs)
      rw [eq_of_chars hchars, ih hrest]

/-- Indexes end where no bracket follows. -/
theorem Digits.eq_of_append {ds es : List Digits} {rest rest' : List Char}
    (heq : indexes ds ++ rest = indexes es ++ rest') (h : Stops (· == '[') rest)
    (h' : Stops (· == '[') rest') : ds = es ∧ rest = rest' := by
  induction ds generalizing es with
  | nil =>
    cases es with
    | nil => exact ⟨rfl, heq⟩
    | cons e es =>
      obtain rfl : rest = indexes (e :: es) ++ rest' := heq
      exact absurd (stops_cons.mp h) (by decide)
  | cons d ds ih =>
    cases es with
    | nil =>
      obtain rfl : indexes (d :: ds) ++ rest = rest' := heq
      exact absurd (stops_cons.mp h') (by decide)
    | cons e es =>
      have hscan := scanIndex_index d (indexes ds ++ rest)
      rw [← indexes_cons_append, heq, indexes_cons_append, scanIndex_index e] at hscan
      obtain ⟨hindex, hmore⟩ := Prod.mk.inj (Option.some.inj hscan)
      obtain ⟨rfl, hrest⟩ := ih hmore.symm
      have hchars : e.chars = d.chars := List.append_cancel_right (List.cons.inj hindex).2
      exact ⟨by rw [eq_of_chars hchars], hrest⟩

/-! ## Names and steps -/

theorem PlainName.text_inj {m n : PlainName} (h : m.text = n.text) : m = n := by
  obtain ⟨v, ps⟩ := m
  obtain ⟨w, qs⟩ := n
  obtain ⟨hhead, hparts⟩ := run_unique h v.isWord_of_mem w.isWord_of_mem
    (stops_hyphenParts ps) (stops_hyphenParts qs)
  obtain rfl : v = w := Word.eq_of_chars hhead
  obtain rfl : ps = qs := HyphenPart.text_inj hparts
  rfl

/-- A name ends where neither a word nor a hyphen goes on. -/
theorem Name.eq_of_append {m n : Name} {rest rest' : List Char}
    (heq : m.text ++ rest = n.text ++ rest') (hw : Stops isWord rest) (hh : Stops (· == '-') rest)
    (hw' : Stops isWord rest') (hh' : Stops (· == '-') rest') : m = n ∧ rest = rest' := by
  -- the scanner is a function: it finds the same name in both
  have hscan : scanName true (m.text ++ rest) = _ := scanName_text m (fun _ => rfl) hw hh
  rw [heq, scanName_text n (fun _ => rfl) hw' hh'] at hscan
  obtain ⟨hkey, hmore⟩ := Prod.mk.inj (Except.ok.inj hscan)
  obtain ⟨hquoted, rfl⟩ := Prod.mk.inj hmore
  have htext := List.append_cancel_right heq
  refine ⟨?_, rfl⟩
  cases m with
  | plain m =>
    cases n with
    | plain n => rw [PlainName.text_inj htext]
    | quoted => cases hquoted
  | quoted mark body =>
    cases n with
    | plain n => cases hquoted
    | quoted mark' body' =>
      obtain rfl : mark = mark' := (List.cons.inj htext).1
      obtain rfl : body' = body := hkey
      rfl

/-- A step ends where nothing goes on with it. -/
theorem Step.eq_of_append {s t : Step} {rest rest' : List Char}
    (heq : s.text ++ rest = t.text ++ rest') (h : Stops continuesSegment rest)
    (h' : Stops continuesSegment rest') : s = t ∧ rest = rest' := by
  obtain ⟨m, ds⟩ := s
  obtain ⟨n, es⟩ := t
  obtain ⟨hw, hh, hi⟩ := stops_of_continuesSegment h
  obtain ⟨hw', hh', hi'⟩ := stops_of_continuesSegment h'
  have hnames : m.text ++ (Digits.indexes ds ++ rest) = n.text ++ (Digits.indexes es ++ rest') := by
    rw [← List.append_assoc, ← List.append_assoc]
    exact heq
  obtain ⟨rfl, hindexes⟩ := Name.eq_of_append hnames ((stops_indexes ds).1.append hw)
    ((stops_indexes ds).2.append hh) ((stops_indexes es).1.append hw')
    ((stops_indexes es).2.append hh')
  obtain ⟨rfl, hrest⟩ := Digits.eq_of_append hindexes hi hi'
  exact ⟨rfl, hrest⟩

theorem Step.pointed_inj {ss ts : List Step} (h : pointed ss = pointed ts) : ss = ts := by
  induction ss generalizing ts with
  | nil =>
    cases ts with
    | nil => rfl
    | cons t ts => cases h
  | cons s ss ih =>
    cases ts with
    | nil => cases h
    | cons t ts =>
      have htail : s.text ++ pointed ss = t.text ++ pointed ts := (List.cons.inj h).2
      obtain ⟨rfl, hrest⟩ := eq_of_append htail (stops_pointed ss) (stops_pointed ts)
      rw [ih hrest]

namespace Tagged

open Skeleton

/-! ## Parses -/

/-- A text taken apart as a path: steps joined by points. -/
structure Parse (text : List Char) where
  head : Step
  tail : List Step
  text_eq : text = head.text ++ Step.pointed tail

namespace Parse

variable {text : List Char}

/-- The segments of a parsed path, in their order. -/
def segments (p : Parse text) : List Segment :=
  p.head.segment :: p.tail.map Step.segment

/-- A text has one parse at most. -/
theorem eq (p q : Parse text) : p = q := by
  obtain ⟨s, ss, hp⟩ := p
  obtain ⟨t, ts, hq⟩ := q
  obtain ⟨rfl, hrest⟩ := Step.eq_of_append (hp.symm.trans hq) (stops_pointed ss) (stops_pointed ts)
  obtain rfl := Step.pointed_inj hrest
  rfl

/-- The segments are written in the text, with points between them. -/
theorem spells (p : Parse text) :
    ∃ parts, List.Forall₂ Segment.Spells p.segments parts ∧ text = ['.'].intercalate parts := by
  have hreads : (TokenKind.path p.segments).Reads text := ⟨p.head, p.tail, rfl, p.text_eq⟩
  exact hreads.spells.2

end Parse

theorem pathOf_eq_ok_iff_parse {payload source : List Char} {offset : Nat}
    {segments : List Segment} : pathOf payload source offset = .ok segments ↔
      ∃ p : Parse (trim isBlank payload), segments = p.segments := by
  rw [pathOf_eq_ok_iff]
  constructor
  · rintro ⟨s, ss, hsegments, htext⟩
    exact ⟨⟨s, ss, htext⟩, hsegments⟩
  · rintro ⟨⟨s, ss, htext⟩, hsegments⟩
    exact ⟨s, ss, hsegments, htext⟩

theorem exists_pathOf_error {payload : List Char} (h : IsEmpty (Parse (trim isBlank payload)))
    (source : List Char) (offset : Nat) : ∃ e, pathOf payload source offset = .error e := by
  cases hpath : pathOf payload source offset with
  | error e => exact ⟨e, rfl⟩
  | ok segments =>
    obtain ⟨p, -⟩ := pathOf_eq_ok_iff_parse.mp hpath
    exact (h.false p).elim

/-! ## Literals that stand for nothing -/

theorem literal_of_pathOf_error {payload source : List Char} {offset : Nat} {e : Error}
    (h : pathOf payload source offset = .error e) :
    literal .path payload source offset = .error e := by
  rw [literal, h]

/-- A literal that stands for nothing is the error of its source, whatever stands behind it and
with whatever number the placeholders start. -/
theorem compile_of_literal_error (xs : List Chunk) {lead payload after source : List Char}
    {k : Constructor} {e : Error} (hfree : OpenerFree lead) (hends : EndsOutside sticks lead)
    (hb : Balanced payload)
    (hsource : source = xs.flatMap Chunk.text ++ (lead ++ (k.enclose payload ++ after)))
    (hl : literal k payload source (xs.flatMap Chunk.text ++ lead).length = .error e)
    (start : Int) : compile .tagged start (String.ofList source) = .error e := by
  obtain ⟨prev, hprev, hrow⟩ := skeletonFrom_chunks xs (show none.any sticks = false from rfl)
    source 0
  have hskips : Skips prev lead (k.enclose payload ++ after) := hfree.skips (.inr hends) prev
  have hopener := opener?_enclose (any_sticks_of_endsOutside hends hprev) k payload after
  have hrun : skeletonFrom source none 0
      (xs.flatMap Chunk.text ++ (lead ++ (k.enclose payload ++ after))) = .error e := by
    rw [List.length_append, ← Nat.zero_add (xs.flatMap Chunk.text).length] at hl
    rw [hrow, skeletonFrom_of_skips hskips,
      skeletonFrom_of_error hopener (payload?_balanced hb after) hl]
    rfl
  rw [← hsource] at hrun
  rw [compile_tagged, hrun]
  rfl

/-- A payload is read as its one parse, white space around it apart. Its segments are written in it,
in their order and with points between them. If it has no parse, it is an error and has no pieces to
number. So is every source in which it is reached, however many literals stand in front, and with
whatever number the placeholders start. -/
theorem pathOf_parses (payload : List Char) :
    (∀ p q : Parse (trim isBlank payload), p = q) ∧
    (∀ source offset segments, pathOf payload source offset = .ok segments ↔
      ∃ p : Parse (trim isBlank payload), segments = p.segments) ∧
    (∀ p : Parse (trim isBlank payload), ∃ parts,
      List.Forall₂ Segment.Spells p.segments parts ∧
        trim isBlank payload = ['.'].intercalate parts) ∧
    (IsEmpty (Parse (trim isBlank payload)) →
      (∀ source offset, ∃ e, pathOf payload source offset = .error e ∧
        literal .path payload source offset = .error e) ∧
      ∀ (xs : List Chunk) (lead after source : List Char), OpenerFree lead →
        EndsOutside sticks lead → Balanced payload →
        source = xs.flatMap Chunk.text ++ (lead ++ (Constructor.path.enclose payload ++ after)) →
        ∃ e, pathOf payload source (xs.flatMap Chunk.text ++ lead).length = .error e ∧
          ∀ start, compileValue .tagged start (.text (String.ofList source)) =
            .error (.compile e.fault.message (String.ofList e.source) (some e.offset))) := by
  refine ⟨Parse.eq, fun _ _ _ => pathOf_eq_ok_iff_parse, Parse.spells, fun hnone => ?_⟩
  constructor
  · intro source offset
    obtain ⟨e, he⟩ := exists_pathOf_error hnone source offset
    exact ⟨e, he, literal_of_pathOf_error he⟩
  · intro xs lead after source hfree hends hb hsource
    obtain ⟨e, he⟩ := exists_pathOf_error hnone source (xs.flatMap Chunk.text ++ lead).length
    exact ⟨e, he, fun start => compileValue_of_error (compile_of_literal_error xs hfree hends hb
      hsource (literal_of_pathOf_error he) start)⟩

/-- A path over a hyphen, with a quoted name and indexes, is read with the white space around it;
behind a hyphen no point stands, and no name is missing between points. -/
theorem pathOf_parses_quoted :
    (∃ p : Parse (trim isBlank " a-b.\x60c.(d\x60[0][12].\x22e\x22 ".toList), p.segments =
      [⟨"a-b".toList, [], false⟩, ⟨"c.(d".toList, "[0][12]".toList, true⟩,
        ⟨"e".toList, [], true⟩]) ∧
    ∀ payload ∈ ["a-.b".toList, "a..b".toList],
      IsEmpty (Parse (trim isBlank payload)) ∧
      ∃ e : Error, ∀ start, compileValue .tagged start
          (.text (String.ofList (nestedRow.flatMap Chunk.text ++
            (" OR ".toList ++ (Constructor.path.enclose payload ++ " = N(1)".toList))))) =
        .error (.compile e.fault.message (String.ofList e.source) (some e.offset)) := by
  constructor
  · obtain ⟨-, hiff, -⟩ := pathOf_parses " a-b.\x60c.(d\x60[0][12].\x22e\x22 ".toList
    obtain ⟨segments, hok, rfl⟩ := exists_ok_of_any
      (r := pathOf " a-b.\x60c.(d\x60[0][12].\x22e\x22 ".toList [] 0)
      (p := fun segments => segments = [⟨"a-b".toList, [], false⟩,
        ⟨"c.(d".toList, "[0][12]".toList, true⟩, ⟨"e".toList, [], true⟩]) (by decide +kernel)
    obtain ⟨p, hp⟩ := (hiff _ _ _).mp hok
    exact ⟨p, hp.symm⟩
  · intro payload hpayload
    obtain ⟨-, hiff, -, hrejected⟩ := pathOf_parses payload
    have hfails : ∀ p ∈ ["a-.b".toList, "a..b".toList],
        (pathOf p [] 0).toOption = none ∧ Balanced p := by
      decide +kernel
    obtain ⟨hnone, hb⟩ := hfails payload hpayload
    have hempty : IsEmpty (Parse (trim isBlank payload)) := by
      refine ⟨fun p => ?_⟩
      rw [(hiff [] 0 _).mpr ⟨p, rfl⟩] at hnone
      cases hnone
    obtain ⟨-, hrow⟩ := hrejected hempty
    obtain ⟨e, -, he⟩ := hrow nestedRow " OR ".toList " = N(1)".toList _ (by decide +kernel)
      (by decide +kernel) hb rfl
    exact ⟨hempty, e, he⟩

end Tagged

end ItemStore.Expression
