import ItemStore.Proofs.Expression.Chunks
import ItemStore.Proofs.Expression.Condition

/-
  The two grammars agree. A condition is printed with the same spaces for either: `text` is how it
  is written where literal types are inferred, and `taggedText` has a tag around each literal and a
  dollar sign with parentheses around each path.

  `compile_agrees`: both compile, from any start, to the same expression with the same bindings.
  The condition's own skeleton is what both are shown to give; the inferred text by its tokens, the
  tagged text fragment by fragment (`Gives`), since no tag starts in the text between
  literals or at its end.

  Asked for are balanced parentheses in texts, binary texts and quoted names (`IsBalanced`), and
  that the name of no function ends in a tag (`Tagless`). A hyphen is a part of a name where types
  are inferred and the end of one in front of a tag: `not_compile_agrees`.
-/

namespace ItemStore.Expression

open Text

/-! ## What is asked of a condition -/

/-- The parentheses of a name in quotes are balanced. -/
def Path.IsBalanced (p : Path) : Prop :=
  ∀ s ∈ p.head :: p.tail, s.name.isQuoted = true → Balanced s.name.key

instance (p : Path) : Decidable p.IsBalanced :=
  inferInstanceAs (Decidable (∀ s ∈ p.head :: p.tail, s.name.isQuoted = true → Balanced s.name.key))

/-- The parentheses of a text or a binary text are balanced. -/
def Spelling.IsBalanced : Spelling → Prop
  | .string units => Balanced (units.map StringUnit.char)
  | .binary payload _ _ => Balanced payload
  | .number _ => True
  | .word _ => True

instance : (l : Spelling) → Decidable l.IsBalanced
  | .string units => inferInstanceAs (Decidable (Balanced (units.map StringUnit.char)))
  | .binary payload _ _ => inferInstanceAs (Decidable (Balanced payload))
  | .number _ => isTrue trivial
  | .word _ => isTrue trivial

/-- A name is no tag and does not end in one behind a hyphen. -/
def FunctionName.Tagless (f : FunctionName) : Prop :=
  ∀ k : Tagged.Constructor,
    f.name.text ≠ k.text.toList ∧ ∀ front, f.name.text ≠ front ++ '-' :: k.text.toList

namespace Condition

variable (function : FunctionName → Prop) (path : Path → Prop) (literal : Spelling → Prop)

/-- What holds of all functions, paths and literals of a condition. -/
def All : Condition → Prop
  | .compare p _ l => path p ∧ literal l
  | .between p low high => path p ∧ literal low ∧ literal high
  | .among p l ls => path p ∧ literal l ∧ ∀ l ∈ ls, literal l
  | .call f p => function f ∧ path p
  | .callWith f p l => function f ∧ path p ∧ literal l
  | .compareCall f p _ l => function f ∧ path p ∧ literal l
  | .not c => c.All
  | .paren c => c.All
  | .and c d => c.All ∧ d.All
  | .or c d => c.All ∧ d.All

variable [DecidablePred function] [DecidablePred path] [DecidablePred literal]

instance decidableAll : (c : Condition) → Decidable (c.All function path literal)
  | .compare p _ l => inferInstanceAs (Decidable (path p ∧ literal l))
  | .between p low high => inferInstanceAs (Decidable (path p ∧ literal low ∧ literal high))
  | .among p l ls =>
    inferInstanceAs (Decidable (path p ∧ literal l ∧ ∀ l ∈ ls, literal l))
  | .call f p => inferInstanceAs (Decidable (function f ∧ path p))
  | .callWith f p l => inferInstanceAs (Decidable (function f ∧ path p ∧ literal l))
  | .compareCall f p _ l => inferInstanceAs (Decidable (function f ∧ path p ∧ literal l))
  | .not c => decidableAll c
  | .paren c => decidableAll c
  | .and c d => @instDecidableAnd _ _ (decidableAll c) (decidableAll d)
  | .or c d => @instDecidableAnd _ _ (decidableAll c) (decidableAll d)

end Condition

/-! ## Printing with tags -/

/-- A path as text that names its type. -/
def Path.taggedText (p : Path) : List Char :=
  Tagged.Constructor.path.enclose p.text

/-- A literal as text that names its type. -/
def Spelling.taggedText : Spelling → List Char
  | .string units => Tagged.Constructor.string.enclose (units.map StringUnit.char)
  | .number n => Tagged.Constructor.number.enclose n.text
  | .word w =>
    match w.literal with
    | .null => Tagged.Constructor.null.enclose []
    | _ => Tagged.Constructor.boolean.enclose w.chars
  | .binary payload _ _ => Tagged.Constructor.binary.enclose payload

/-- A condition as text whose literals name their types. -/
def Condition.taggedText (c : Condition) : List Char :=
  c.write id Path.taggedText Spelling.taggedText

/-! ## Balanced names and numbers -/

theorem balanced_of_isWord {cs : List Char} (h : ∀ c ∈ cs, isWord c = true) : Balanced cs :=
  balanced_of_forall fun c hc =>
    ⟨ne_of_class (h c hc) (by decide +kernel), ne_of_class (h c hc) (by decide +kernel)⟩

theorem balanced_singleton {c : Char} (ho : c ≠ '(') (hc : c ≠ ')') : Balanced [c] :=
  balanced_of_forall fun d hd => by
    rw [List.mem_singleton.mp hd]
    exact ⟨ho, hc⟩

theorem balanced_plainName (n : PlainName) : Balanced n.text :=
  (balanced_of_isWord n.head.isWord_of_mem).append (balanced_flatMap fun p _ =>
    (balanced_singleton (by decide) (by decide)).append (balanced_of_isWord p.isWord_of_mem))

theorem balanced_digits (d : Digits) : Balanced d.chars :=
  balanced_of_isWord fun c hc => isWord_of_isDigit (d.isDigit_of_mem c hc)

theorem balanced_indexes (ds : List Digits) : Balanced (Digits.indexes ds) :=
  balanced_flatMap fun d _ => (balanced_singleton (by decide) (by decide)).append
    ((balanced_digits d).append (balanced_singleton (by decide) (by decide)))

theorem balanced_step {s : Step} (h : s.name.isQuoted = true → Balanced s.name.key) :
    Balanced s.text := by
  refine Balanced.append ?_ (balanced_indexes s.indexes)
  cases hname : s.name with
  | plain n => exact balanced_plainName n
  | quoted mark body isMark fresh =>
    rw [hname] at h
    have hmark : Balanced [mark] :=
      balanced_singleton (ne_of_class isMark (by decide)) (ne_of_class isMark (by decide))
    exact hmark.append ((h rfl).append hmark)

theorem balanced_path {p : Path} (h : p.IsBalanced) : Balanced p.text := by
  rw [Path.IsBalanced, List.forall_mem_cons] at h
  exact (balanced_step h.1).append (balanced_flatMap fun s hs =>
    (balanced_singleton (by decide) (by decide)).append (balanced_step (h.2 s hs)))

theorem balanced_numeral (n : Numeral) : Balanced n.text := by
  have hunsigned : Balanced n.unsigned := by
    rw [Numeral.unsigned]
    split
    · exact balanced_digits n.whole
    · next f _ =>
      exact (balanced_digits n.whole).append
        ((balanced_singleton (c := '.') (by decide) (by decide)).append (balanced_digits f))
  rw [Numeral.text]
  split
  · exact (balanced_singleton (c := '-') (by decide) (by decide)).append hunsigned
  · exact hunsigned

/-! ## What fragments give -/

namespace Tagged

/-- A text gives pieces wherever a literal can start, and behind it one can start again. -/
def Gives (cs : List Char) (ps : Skeleton) : Prop :=
  ∀ source (prev : Option Char) offset, prev.any sticks = false →
    ∃ prev' : Option Char, prev'.any sticks = false ∧ ∀ rest,
      skeletonFrom source prev offset (cs ++ rest) =
        prepend ps (skeletonFrom source prev' (offset + cs.length) rest)

theorem gives_nil : Gives [] [] :=
  fun _ prev _ hprev => ⟨prev, hprev, fun _ => (prepend_nil _).symm⟩

theorem Gives.append {cs ds : List Char} {ps qs : Skeleton} (hc : Gives cs ps) (hd : Gives ds qs) :
    Gives (cs ++ ds) (ps ++ qs) := by
  intro source prev offset hprev
  obtain ⟨prev₁, hprev₁, hc⟩ := hc source prev offset hprev
  obtain ⟨prev₂, hprev₂, hd⟩ := hd source prev₁ (offset + cs.length) hprev₁
  refine ⟨prev₂, hprev₂, fun rest => ?_⟩
  rw [List.append_assoc, hc, hd, prepend_prepend, List.length_append, Nat.add_assoc]

theorem gives_flatMap {α : Type} {f : α → List Char} {ps : α → Skeleton} {xs : List α}
    (h : ∀ x ∈ xs, Gives (f x) (ps x)) : Gives (xs.flatMap f) (xs.flatMap ps) := by
  induction xs with
  | nil => exact gives_nil
  | cons x xs ih =>
    rw [List.forall_mem_cons] at h
    exact h.1.append (ih h.2)

theorem gives_term (l : Term) : Gives l.text l.pieces :=
  fun source _ offset hprev =>
    ⟨some ')', by decide +kernel, skeletonFrom_term l hprev source offset⟩

theorem gives_verbatim {t : List Char} (hf : OpenerFree t) (he : EndsOutside sticks t) :
    Gives t (Skeleton.verbatim t) := by
  intro source prev offset hprev
  refine ⟨t.getLast?.or prev, any_sticks_of_endsOutside he hprev, fun rest => ?_⟩
  exact skeletonFrom_of_skips (hf.skips (.inr he) prev) source offset

/-- A text that holds no tag gives itself. -/
theorem gives_chars {s : String} (h : OpenerFree s.toList ∧ EndsOutside sticks s.toList) :
    Gives (Condition.chars id s) (Condition.chars .char s) := by
  rw [Condition.chars, List.map_id]
  exact gives_verbatim h.1 h.2

end Tagged

open Tagged

theorem gives_path {p : Path} (h : p.IsBalanced) : Gives p.taggedText p.skeleton := by
  have hreads : Reads .path p.text p.skeleton := by
    have hpath : Reads .path ([] ++ p.text ++ []) _ :=
      .path blank_nil blank_nil p.head p.tail
    rw [List.nil_append, List.append_nil] at hpath
    rw [← ofPath_segments]
    exact hpath
  exact gives_term ⟨.path, p.text, p.skeleton, balanced_path h, hreads⟩

theorem gives_spelling {l : Spelling} (h : l.IsBalanced) :
    Gives l.taggedText [.value l.literal] := by
  cases l with
  | string units => exact gives_term ⟨.string, _, _, h, .string _⟩
  | number n => exact gives_term ⟨.number, n.text, _, balanced_numeral n, .number n.text⟩
  | binary payload => exact gives_term ⟨.binary, payload, _, h, .binary payload⟩
  | word w =>
    have hword : trim isBlank w.chars = w.chars :=
      trim_of_forall_not fun c hc => isBlank_of_isWord (w.word.isWord_of_mem c hc)
    have hbalanced := balanced_of_isWord w.word.isWord_of_mem
    rw [Spelling.taggedText, Spelling.literal]
    rcases w.isLiteral with ⟨-, hl⟩ | ⟨hlower, hl⟩ | ⟨hlower, hl⟩
    · rw [hl]
      exact gives_term ⟨.null, [], _, balanced_nil, .null []⟩
    · rw [hl]
      exact gives_term ⟨.boolean, w.chars, _, hbalanced, .boolean true (by rw [hword, hlower]; rfl)⟩
    · rw [hl]
      exact gives_term
        ⟨.boolean, w.chars, _, hbalanced, .boolean false (by rw [hword, hlower]; rfl)⟩

theorem mem_plainName {n : PlainName} {c : Char} (h : c ∈ n.text) : isWord c = true ∨ c = '-' := by
  rcases List.mem_append.mp h with h | h
  · exact .inl (n.head.isWord_of_mem c h)
  · obtain ⟨p, -, hp⟩ := List.mem_flatMap.mp h
    rcases List.mem_cons.mp hp with rfl | hp
    · exact .inr rfl
    · exact .inl (p.isWord_of_mem c hp)

/-- The name of a function starts no literal with the parenthesis behind it. -/
theorem FunctionName.tagless_iff {f : FunctionName} :
    f.Tagless ↔ OpenerFree (f.name.text ++ ['(']) := by
  constructor
  · intro h front k back htext
    have hback : back = [] := by
      rcases List.eq_nil_or_concat back with hnil | ⟨bs, b, rfl⟩
      · exact hnil
      · rw [List.concat_eq_append, ← List.cons_append, ← List.append_assoc,
          ← List.append_assoc] at htext
        have hname := (List.append_inj' htext rfl).1
        have hmem : '(' ∈ f.name.text := by rw [hname]; simp
        rcases mem_plainName hmem with hw | hm
        · exact absurd hw (by decide +kernel)
        · exact absurd hm (by decide)
    subst hback
    rw [← List.append_assoc] at htext
    have hname := (List.append_inj' htext rfl).1
    rcases List.eq_nil_or_concat front with rfl | ⟨cs, c, rfl⟩
    · exact absurd hname (h k).1
    · rw [List.concat_eq_append] at hname ⊢
      rw [List.getLast?_concat]
      have hmem : c ∈ f.name.text := by rw [hname]; simp
      rcases mem_plainName hmem with hw | rfl
      · show (isWord c || c == '$') = true
        rw [hw, Bool.true_or]
      · rw [List.append_assoc] at hname
        exact absurd hname ((h k).2 cs)
  · intro h k
    constructor
    · intro hname
      exact absurd (h [] k [] (by rw [hname]; rfl)) Bool.false_ne_true
    · intro front hname
      have hsticks := h (front ++ ['-']) k [] (by rw [hname]; simp)
      rw [List.getLast?_concat] at hsticks
      exact absurd hsticks (by decide +kernel)

instance (f : FunctionName) : Decidable f.Tagless :=
  decidable_of_iff _ FunctionName.tagless_iff.symm

theorem gives_call {f : FunctionName} (h : f.Tagless) :
    Gives (f.name.text.map id ++ Condition.chars id "(")
      (f.name.text.map .char ++ Condition.chars .char "(") := by
  have hgives := gives_verbatim (FunctionName.tagless_iff.mp h)
    (endsOutside_concat (by decide +kernel) f.name.text)
  rw [Skeleton.verbatim, List.map_append] at hgives
  rw [List.map_id]
  exact hgives

/-! ## Conditions -/

namespace Condition

/-- The tagged text of a condition gives the condition's skeleton. -/
theorem gives_taggedText {c : Condition}
    (h : c.All FunctionName.Tagless Path.IsBalanced Spelling.IsBalanced) :
    Gives c.taggedText c.skeleton := by
  have hclose : Gives (chars id ")") (chars .char ")") := gives_chars (by decide +kernel)
  have hcomma : Gives (chars id ", ") (chars .char ", ") := gives_chars (by decide +kernel)
  have hcomparison : ∀ op : Comparison, Gives (chars id (" " ++ op.text ++ " "))
      (chars .char (" " ++ op.text ++ " ")) := by
    intro op
    cases op <;> exact gives_chars (by decide +kernel)
  induction c with
  | compare p op l =>
    exact ((gives_path h.1).append (hcomparison op)).append (gives_spelling h.2)
  | between p low high =>
    obtain ⟨hp, hlow, hhigh⟩ := h
    have hbetween : Gives (chars id " BETWEEN ") (chars .char " BETWEEN ") :=
      gives_chars (by decide +kernel)
    have hand : Gives (chars id " AND ") (chars .char " AND ") := gives_chars (by decide +kernel)
    exact ((((gives_path hp).append hbetween).append (gives_spelling hlow)).append hand).append
      (gives_spelling hhigh)
  | among p l ls =>
    obtain ⟨hp, hl, hls⟩ := h
    have hin : Gives (chars id " IN (") (chars .char " IN (") := gives_chars (by decide +kernel)
    have hlisted := gives_flatMap fun l hl => hcomma.append (gives_spelling (hls l hl))
    exact ((((gives_path hp).append hin).append (gives_spelling hl)).append hlisted).append hclose
  | call f p => exact ((gives_call h.1).append (gives_path h.2)).append hclose
  | callWith f p l =>
    obtain ⟨hf, hp, hl⟩ := h
    exact ((((gives_call hf).append (gives_path hp)).append hcomma).append
      (gives_spelling hl)).append hclose
  | compareCall f p op l =>
    obtain ⟨hf, hp, hl⟩ := h
    exact ((((gives_call hf).append (gives_path hp)).append hclose).append
      (hcomparison op)).append (gives_spelling hl)
  | not c ih =>
    have hnot : Gives (chars id "NOT ") (chars .char "NOT ") := gives_chars (by decide +kernel)
    exact hnot.append (ih h)
  | paren c ih =>
    have hopen : Gives (chars id "(") (chars .char "(") := gives_chars (by decide +kernel)
    exact (hopen.append (ih h)).append hclose
  | and c d ihc ihd =>
    have hand : Gives (chars id " AND ") (chars .char " AND ") := gives_chars (by decide +kernel)
    exact ((ihc h.1).append hand).append (ihd h.2)
  | or c d ihc ihd =>
    have hor : Gives (chars id " OR ") (chars .char " OR ") := gives_chars (by decide +kernel)
    exact ((ihc h.1).append hor).append (ihd h.2)

theorem exists_first (c : Condition) :
    ∃ p ps, c.skeleton = p :: ps ∧ Skeleton.isBlankPiece p = false := by
  have hcall : ∀ (f : FunctionName) (qs : Skeleton),
      ∃ p ps, f.name.text.map .char ++ qs = p :: ps ∧ Skeleton.isBlankPiece p = false := by
    intro f qs
    have hword := f.name.head.isWord_of_mem
    rw [PlainName.text]
    cases hchars : f.name.head.chars with
    | nil => exact absurd hchars f.name.head.ne_nil
    | cons d ds =>
      rw [hchars, List.forall_mem_cons] at hword
      exact ⟨.char d, _, rfl, isBlank_of_isWord hword.1⟩
  have happend : ∀ {ps : Skeleton} (qs : Skeleton),
      (∃ p rs, ps = p :: rs ∧ Skeleton.isBlankPiece p = false) →
        ∃ p rs, ps ++ qs = p :: rs ∧ Skeleton.isBlankPiece p = false := by
    rintro ps qs ⟨p, rs, rfl, hp⟩
    exact ⟨p, rs ++ qs, rfl, hp⟩
  induction c with
  | compare p op l => exact ⟨.name p.head.name.key, _, rfl, rfl⟩
  | between p low high => exact ⟨.name p.head.name.key, _, rfl, rfl⟩
  | among p l ls => exact ⟨.name p.head.name.key, _, rfl, rfl⟩
  | call f p => exact happend _ (happend _ (hcall f _))
  | callWith f p l => exact happend _ (happend _ (happend _ (happend _ (hcall f _))))
  | compareCall f p op l => exact happend _ (happend _ (happend _ (happend _ (hcall f _))))
  | not c ih => exact ⟨.char 'N', _, rfl, by decide⟩
  | paren c ih => exact ⟨.char '(', _, rfl, by decide⟩
  | and c d ihc ihd => exact happend _ (happend _ ihc)
  | or c d ihc ihd => exact happend _ (happend _ ihc)

theorem exists_last_piece (c : Condition) :
    ∃ ps p, c.skeleton = ps ++ [p] ∧ Skeleton.isBlankPiece p = false := by
  have happend : ∀ {ps : Skeleton} (qs : Skeleton),
      (∃ rs p, ps = rs ++ [p] ∧ Skeleton.isBlankPiece p = false) →
        ∃ rs p, qs ++ ps = rs ++ [p] ∧ Skeleton.isBlankPiece p = false := by
    rintro ps qs ⟨rs, p, rfl, hp⟩
    exact ⟨qs ++ rs, p, (List.append_assoc _ _ _).symm, hp⟩
  induction c with
  | compare p op l => exact ⟨_, .value l.literal, rfl, rfl⟩
  | between p low high => exact ⟨_, .value high.literal, rfl, rfl⟩
  | among p l ls => exact ⟨_, .char ')', rfl, by decide⟩
  | call f p => exact ⟨_, .char ')', rfl, by decide⟩
  | callWith f p l => exact ⟨_, .char ')', rfl, by decide⟩
  | compareCall f p op l => exact ⟨_, .value l.literal, rfl, rfl⟩
  | not c ih => exact happend _ ih
  | paren c ih => exact ⟨_, .char ')', rfl, by decide⟩
  | and c d ihc ihd => exact happend _ ihd
  | or c d ihc ihd => exact happend _ ihd

/-- A condition starts and ends in no white space. -/
theorem trim_skeleton (c : Condition) : c.skeleton.trim = c.skeleton := by
  have hstops : Stops Skeleton.isBlankPiece c.skeleton := by
    obtain ⟨p, ps, hskeleton, hp⟩ := exists_first c
    rw [hskeleton]
    exact stops_cons.mpr hp
  have hends : EndsOutside Skeleton.isBlankPiece c.skeleton := by
    obtain ⟨ps, p, hskeleton, hp⟩ := exists_last_piece c
    rw [hskeleton]
    exact endsOutside_concat hp ps
  rw [Skeleton.trim, Text.trim, dropWhile_of_stops hstops, trimEnd_of_endsOutside hends]

/-- Both grammars compile a condition, each as it is written there, to the same expression with the
same bindings. -/
theorem compile_agrees {c : Condition}
    (h : c.All FunctionName.Tagless Path.IsBalanced Spelling.IsBalanced) (start : Int) :
    ∃ compiled, compile .inferred start (String.ofList c.text) = .ok compiled ∧
      compile .tagged start (String.ofList c.taggedText) = .ok compiled := by
  refine ⟨c.skeleton.fill start, ?_, ?_⟩
  · rw [compile, String.toList_ofList, skeleton_text]
  · obtain ⟨prev, -, hgives⟩ := gives_taggedText h c.taggedText none 0 rfl
    have hall := hgives []
    rw [List.append_nil] at hall
    rw [compile_tagged, hall, skeletonFrom]
    show Except.ok (Skeleton.fill start (Skeleton.trim (c.skeleton ++ []))) = _
    rw [List.append_nil, trim_skeleton]

/-- A condition with a quoted name, an index, a hyphen, parentheses in a text and in a binary text,
and a function whose name ends in a tag behind a letter. -/
def mixed : Condition :=
  .and
    (.compareCall ⟨⟨⟨"sizeS".toList, nofun, forall_mem_of_all (by decide +kernel)⟩, []⟩,
        by decide +kernel, by decide +kernel⟩
      ⟨⟨.quoted '\x60' "x (y)".toList (by decide) (by decide),
        [⟨['0'], nofun, forall_mem_of_all (by decide)⟩]⟩, [], rfl, fun _ => rfl⟩
      .gt (.number ⟨true, ⟨['5'], nofun, forall_mem_of_all (by decide)⟩, none⟩))
    (.paren (.not (.among
      ⟨⟨.plain ⟨⟨['a'], nofun, forall_mem_of_all (by decide +kernel)⟩,
        [⟨⟨['b'], nofun, forall_mem_of_all (by decide +kernel)⟩,
          stops_cons.mpr (by decide +kernel)⟩]⟩, []⟩, [],
        by decide +kernel, fun _ => by decide +kernel⟩
      (.string [.escaped '\x27', .plain '(' (by decide), .plain ')' (by decide)])
      [.word ⟨"Null".toList, .null, .inl ⟨by decide, rfl⟩⟩,
        .word ⟨"TRUE".toList, .boolean true, .inr (.inl ⟨by decide, rfl⟩)⟩,
        .binary "(=)".toList nofun (forall_mem_of_all (by decide))])))

theorem compile_agrees_mixed :
    mixed.text =
      "sizeS(\x60x (y)\x60[0]) > -5 AND (NOT a-b IN ('\\'()', Null, TRUE, <(=)>))".toList ∧
    mixed.taggedText = ("sizeS($(\x60x (y)\x60[0])) > N(-5) AND " ++
      "(NOT $(a-b) IN (S('()), NULL(), BOOL(TRUE), B((=))))").toList ∧
    ∃ compiled, compile .inferred 4 (String.ofList mixed.text) = .ok compiled ∧
      compile .tagged 4 (String.ofList mixed.taggedText) = .ok compiled ∧
      compiled.expression = "sizeS(#V4[0]) > :V5 AND (NOT #V6 IN (:V7, :V8, :V9, :V10))" := by
  have hall : mixed.All FunctionName.Tagless Path.IsBalanced Spelling.IsBalanced := by
    decide +kernel
  refine ⟨by decide +kernel, by decide +kernel, ?_⟩
  obtain ⟨compiled, hinferred, htagged⟩ := compile_agrees hall 4
  refine ⟨compiled, hinferred, htagged, ?_⟩
  have hexpression : ((compile .inferred 4 (String.ofList mixed.text)).toOption.map
      (·.expression)) = some "sizeS(#V4[0]) > :V5 AND (NOT #V6 IN (:V7, :V8, :V9, :V10))" := by
    decide +kernel
  rw [hinferred] at hexpression
  exact Option.some.inj hexpression

/-- A function's name that ends in a tag behind a hyphen is a name in one grammar, and in the other
a literal starts in it. -/
theorem not_compile_agrees :
    ∃ c : Condition,
      c.All (fun f => ∀ k : Tagged.Constructor, f.name.text ≠ k.text.toList) Path.IsBalanced
        Spelling.IsBalanced ∧
      (∃ compiled, compile .inferred 1 (String.ofList c.text) = .ok compiled ∧
        compiled.expression = "my-S(#V1)") ∧
      ∃ compiled, compile .tagged 1 (String.ofList c.taggedText) = .ok compiled ∧
        compiled.expression = "my-:V1" := by
  refine ⟨.call ⟨⟨⟨"my".toList, nofun, forall_mem_of_all (by decide +kernel)⟩,
      [⟨⟨['S'], nofun, forall_mem_of_all (by decide +kernel)⟩,
        stops_cons.mpr (by decide +kernel)⟩]⟩,
      by decide +kernel, by decide +kernel⟩
    ⟨⟨.plain ⟨⟨['a'], nofun, forall_mem_of_all (by decide +kernel)⟩, []⟩, []⟩, [],
      by decide +kernel, fun _ => by decide +kernel⟩, ⟨?_, ?_⟩, ?_, ?_⟩
  · intro k
    cases k <;> decide
  · decide
  · exact exists_ok_of_any (by decide +kernel)
  · exact exists_ok_of_any (by decide +kernel)

end Condition

end ItemStore.Expression
