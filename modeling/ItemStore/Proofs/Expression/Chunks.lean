import ItemStore.Expression.Compile
import ItemStore.Proofs.Expression.Numbering
import ItemStore.Proofs.Expression.Parentheses
import ItemStore.Proofs.Expression.Payloads
import ItemStore.Proofs.Number.Integers

/-
  Literals that name their types, in a row with the text between them. A `Term` is a tag with a
  payload in balanced parentheses that stands for something, and a `Chunk` is a term with the text
  in front of it. Such text holds no tag with a parenthesis (`OpenerFree`) and does not end in a
  character that a tag would stick to (`sticks`): the tag behind it would be the end of a word. The
  text behind the last term may end in anything.

  `compile_chunks`: a row of chunks is compiled chunk by chunk, the text kept and the terms
  replaced, whatever the payloads hold; and where a literal behind the chunks has no end, that is
  an error at the place where the literal starts. The scanner sees the character in front
  and resumes behind each literal, so what is carried from chunk to chunk is that this character
  lets a tag start (`skeletonFrom_chunks`).
-/

namespace ItemStore.Expression

open Text

/-! ## White space around a skeleton -/

namespace Skeleton

theorem forall_mem_placeholder (index : Int) :
    (∀ c ∈ namePlaceholder index, isBlank c = false) ∧
      ∀ c ∈ valuePlaceholder index, isBlank c = false := by
  have hall : ∀ c ∈ '#' :: ':' :: 'V' :: Number.integerChars, isBlank c = false :=
    forall_mem_of_all (by decide)
  have hnumber : ∀ c ∈ Number.intText index, isBlank c = false := fun c hc =>
    hall c (by simp [Number.mem_integerChars_of_mem_intText hc])
  refine ⟨List.forall_mem_cons.mpr ⟨hall _ (by decide), ?_⟩,
    List.forall_mem_cons.mpr ⟨hall _ (by decide), ?_⟩⟩
  all_goals exact List.forall_mem_cons.mpr ⟨hall _ (by decide), hnumber⟩

theorem text_ne_nil (start : Int) (p : Piece) (ps : Skeleton) : text start (p :: ps) ≠ [] := by
  cases p <;> exact List.cons_ne_nil _ _

theorem trimEnd_append_of_forall_not {front : List Char} (h : ∀ c ∈ front, isBlank c = false)
    (cs : List Char) : trimEnd isBlank (front ++ cs) = front ++ trimEnd isBlank cs := by
  induction front with
  | nil => rfl
  | cons c front ih =>
    rw [List.forall_mem_cons] at h
    rw [List.cons_append, trimEnd_cons_of_not h.1, ih h.2]
    rfl

theorem text_trimEnd (start : Int) (ps : Skeleton) :
    text start (trimEnd isBlankPiece ps) = trimEnd isBlank (text start ps) := by
  induction ps generalizing start with
  | nil => rfl
  | cons p ps ih =>
    cases p with
    | char c =>
      rw [trimEnd, text, trimEnd, ← ih]
      cases trimEnd isBlankPiece ps with
      | nil =>
        show text start (if isBlank c then [] else [.char c]) = if isBlank c then [] else [c]
        split <;> rfl
      | cons q qs =>
        dsimp only
        rw [text]
        split
        · next hnil => exact absurd hnil (text_ne_nil start q qs)
        · rfl
    | name key =>
      rw [trimEnd_cons_of_not (show isBlankPiece (.name key) = false from rfl), text, text, ih,
        trimEnd_append_of_forall_not (forall_mem_placeholder start).1]
    | value l =>
      rw [trimEnd_cons_of_not (show isBlankPiece (.value l) = false from rfl), text, text, ih,
        trimEnd_append_of_forall_not (forall_mem_placeholder start).2]

theorem text_dropWhile (start : Int) (ps : Skeleton) :
    text start (ps.dropWhile isBlankPiece) = (text start ps).dropWhile isBlank := by
  induction ps with
  | nil => rfl
  | cons p ps ih =>
    cases p with
    | char c =>
      rw [List.dropWhile_cons, text, List.dropWhile_cons, ← ih]
      show text start (if isBlank c then _ else _) = _
      split <;> rfl
    | name key => rfl
    | value l => rfl

/-- White space at the ends of a skeleton is that at the ends of its text. -/
theorem text_trim (start : Int) (ps : Skeleton) :
    text start ps.trim = Text.trim isBlank (text start ps) := by
  rw [trim, Text.trim, text_trimEnd, text_dropWhile, Text.trim]

theorem holes_append (ps qs : Skeleton) : holes (ps ++ qs) = holes ps ++ holes qs := by
  induction ps with
  | nil => rfl
  | cons p ps ih => cases p <;> simp [holes, ih]

theorem holes_of_blank {ps : Skeleton} (h : ∀ p ∈ ps, isBlankPiece p = true) : holes ps = [] := by
  induction ps with
  | nil => rfl
  | cons p ps ih =>
    rw [List.forall_mem_cons] at h
    cases p with
    | char c => exact ih h.2
    | name key => cases h.1
    | value l => cases h.1

theorem holes_trim (ps : Skeleton) : ps.trim.holes = ps.holes := by
  obtain ⟨front, back, hfront, hback, hps⟩ := exists_trim isBlankPiece ps
  calc ps.trim.holes
      = holes (front ++ ps.trim ++ back) := by
        rw [holes_append, holes_append, holes_of_blank hfront, holes_of_blank hback,
          List.nil_append, List.append_nil]
    _ = ps.holes := congrArg holes hps.symm

theorem names_trim (start : Int) (ps : Skeleton) : names start ps.trim = names start ps := by
  rw [names_eq_boundNames, names_eq_boundNames, boundNames, boundNames, holes_trim]

theorem values_trim (start : Int) (ps : Skeleton) : values start ps.trim = values start ps := by
  rw [values_eq_boundValues, values_eq_boundValues, boundValues, boundValues, holes_trim]

theorem text_verbatim (start : Int) (cs : List Char) : text start (verbatim cs) = cs := by
  induction cs with
  | nil => rfl
  | cons c cs ih => exact congrArg (c :: ·) ih

theorem names_verbatim (start : Int) (cs : List Char) : names start (verbatim cs) = [] := by
  induction cs with
  | nil => rfl
  | cons c cs ih => exact ih

/-- A hole for a value is bound. -/
theorem values_ne_nil {l : Literal} {ps : Skeleton} (h : Piece.value l ∈ ps) (start : Int) :
    values start ps ≠ [] := by
  induction ps generalizing start with
  | nil => cases h
  | cons p ps ih =>
    rcases List.mem_cons.mp h with rfl | hmem
    · exact List.cons_ne_nil _ _
    · cases p with
      | char c => exact ih hmem start
      | name key => exact ih hmem (start + 1)
      | value l' => exact List.cons_ne_nil _ _

theorem values_verbatim (start : Int) (cs : List Char) : values start (verbatim cs) = [] := by
  induction cs with
  | nil => rfl
  | cons c cs ih => exact ih

end Skeleton

namespace Tagged

open Skeleton

/-! ## Where a literal starts -/

/-- A character that a tag sticks to: behind it, a tag is the end of a word. -/
def sticks (c : Char) : Bool :=
  isWord c || c == '$'

theorem opener?_tag {prev : Option Char} (hprev : prev.any sticks = false) (k : Constructor)
    (rest : List Char) : opener? prev (k.text.toList ++ '(' :: rest) = some (k, rest) := by
  show (if prev.any sticks then none else _) = _
  rw [hprev, if_neg Bool.false_ne_true]
  cases k <;> rfl

theorem eq_tag_of_opener? {prev : Option Char} {k : Constructor} {cs rest : List Char}
    (h : opener? prev cs = some (k, rest)) :
    prev.any sticks = false ∧ k.text.toList ++ '(' :: rest = cs := by
  change (if prev.any sticks then none else _) = _ at h
  split at h
  · cases h
  · next hprev =>
    obtain ⟨k', -, hk⟩ := List.exists_of_findSome?_eq_some h
    obtain ⟨r, hr, he⟩ := Option.map_eq_some_iff.mp hk
    cases he
    have happend := append_eq_of_after? hr
    rw [List.append_assoc] at happend
    exact ⟨Bool.not_eq_true _ ▸ hprev, happend⟩

theorem sticks_of_mem_tag (k : Constructor) : ∀ c ∈ k.text.toList, sticks c = true := by
  cases k <;> exact forall_mem_of_all (by decide +kernel)

/-! ## One step of the scanner -/

/-- Pieces in front of a skeleton, if there is one. -/
def prepend (ps : Skeleton) (r : Except Error Skeleton) : Except Error Skeleton :=
  r.map (ps ++ ·)

theorem prepend_nil (r : Except Error Skeleton) : prepend [] r = r := by
  cases r <;> rfl

theorem prepend_prepend (ps qs : Skeleton) (r : Except Error Skeleton) :
    prepend ps (prepend qs r) = prepend (ps ++ qs) r := by
  cases r with
  | error e => rfl
  | ok rs => exact congrArg Except.ok (List.append_assoc ps qs rs).symm

section Step

variable {source cs inner payload rest : List Char} {prev : Option Char} {offset : Nat}
  {k : Constructor}

theorem skeletonFrom_of_none {c : Char} (ho : opener? prev (c :: cs) = none) :
    skeletonFrom source prev offset (c :: cs) =
      prepend [.char c] (skeletonFrom source (some c) (offset + 1) cs) := by
  rw [skeletonFrom]
  split
  · cases skeletonFrom source (some c) (offset + 1) cs <;> rfl
  · next heq =>
    rw [ho] at heq
    cases heq

/-- A literal decides what comes of the text from it on. -/
theorem skeletonFrom_of_payload (ho : opener? prev cs = some (k, inner))
    (hp : payload? 0 inner = some (payload, rest)) :
    skeletonFrom source prev offset cs = (literal k payload source offset).bind fun ps =>
      prepend ps (skeletonFrom source (some ')') (offset + (cs.length - rest.length)) rest) := by
  cases cs with
  | nil =>
    obtain ⟨-, heq⟩ := eq_tag_of_opener? ho
    exact absurd heq (List.append_ne_nil_of_right_ne_nil _ (List.cons_ne_nil _ _))
  | cons c cs =>
    rw [skeletonFrom]
    split
    · next heq =>
      rw [ho] at heq
      cases heq
    · next heq =>
      rw [ho] at heq
      cases heq
      split
      · next heq =>
        rw [hp] at heq
        cases heq
      · next heq =>
        rw [hp] at heq
        cases heq
        cases literal k payload source offset with
        | error e => rfl
        | ok ps =>
          dsimp only
          cases skeletonFrom source (some ')') (offset + ((c :: cs).length - rest.length)) rest <;>
            rfl

theorem skeletonFrom_of_some {ps : Skeleton} (ho : opener? prev cs = some (k, inner))
    (hp : payload? 0 inner = some (payload, rest))
    (hl : literal k payload source offset = .ok ps) :
    skeletonFrom source prev offset cs =
      prepend ps (skeletonFrom source (some ')') (offset + (cs.length - rest.length)) rest) := by
  rw [skeletonFrom_of_payload ho hp, hl]
  rfl

theorem skeletonFrom_of_error {e : Error} (ho : opener? prev cs = some (k, inner))
    (hp : payload? 0 inner = some (payload, rest))
    (hl : literal k payload source offset = .error e) :
    skeletonFrom source prev offset cs = .error e := by
  rw [skeletonFrom_of_payload ho hp, hl]
  rfl

theorem skeletonFrom_of_unclosed (ho : opener? prev cs = some (k, inner))
    (hp : payload? 0 inner = none) :
    skeletonFrom source prev offset cs = .error ⟨.unclosedLiteral, source, offset⟩ := by
  cases cs with
  | nil =>
    obtain ⟨-, heq⟩ := eq_tag_of_opener? ho
    exact absurd heq (List.append_ne_nil_of_right_ne_nil _ (List.cons_ne_nil _ _))
  | cons c cs =>
    rw [skeletonFrom]
    split
    · next heq =>
      rw [ho] at heq
      cases heq
    · next heq =>
      rw [ho] at heq
      cases heq
      split
      · rfl
      · next heq =>
        rw [hp] at heq
        cases heq

end Step

/-! ## Text without literals -/

/-- No literal starts in a text that stands behind a character and in front of a rest. -/
def Skips (prev : Option Char) (t rest : List Char) : Prop :=
  ∀ front c back, t = front ++ c :: back →
    opener? (front.getLast?.or prev) (c :: back ++ rest) = none

theorem Skips.tail {prev : Option Char} {c : Char} {t rest : List Char}
    (h : Skips prev (c :: t) rest) : Skips (some c) t rest := by
  intro front d back ht
  have hskip := h (c :: front) d back (by rw [ht]; rfl)
  rw [List.getLast?_cons] at hskip
  rw [← hskip]
  cases front.getLast? <;> rfl

/-- What is skipped is kept as it is. -/
theorem skeletonFrom_of_skips {t rest : List Char} {prev : Option Char} (h : Skips prev t rest)
    (source : List Char) (offset : Nat) :
    skeletonFrom source prev offset (t ++ rest) =
      prepend (verbatim t) (skeletonFrom source (t.getLast?.or prev) (offset + t.length) rest) := by
  induction t generalizing prev offset with
  | nil => exact (prepend_nil _).symm
  | cons c t ih =>
    have hlast : t.getLast?.or (some c) = (c :: t).getLast?.or prev := by
      rw [List.getLast?_cons]
      cases t.getLast? <;> rfl
    have hstep : skeletonFrom source prev offset (c :: (t ++ rest)) = _ :=
      skeletonFrom_of_none (h [] c t rfl)
    rw [List.cons_append, hstep, ih h.tail, hlast, prepend_prepend, List.length_cons,
      Nat.add_assoc, Nat.add_comm 1]
    rfl

/-- No literal starts within a text. -/
def OpenerFree (t : List Char) : Prop :=
  ∀ (front : List Char) (k : Constructor) (back : List Char),
    t = front ++ (k.text.toList ++ '(' :: back) → front.getLast?.any sticks = true

instance (t : List Char) : Decidable (OpenerFree t) :=
  decidable_of_iff (∀ i ∈ List.range (t.length + 1), ∀ k ∈ Constructor.all,
      k.text.toList ++ ['('] <+: t.drop i → (t.take i).getLast?.any sticks = true) <| by
    constructor
    · intro h front k back ht
      have htake : t.take front.length = front := by rw [ht, List.take_left]
      rw [← htake]
      refine h _ (List.mem_range.mpr ?_) k (by cases k <;> decide) ⟨back, ?_⟩
      · rw [ht, List.length_append]
        omega
      · rw [ht, List.drop_left, List.append_assoc]
        rfl
    · rintro h i - k - ⟨back, hback⟩
      refine h (t.take i) k back ?_
      calc t
          = t.take i ++ t.drop i := (List.take_append_drop i t).symm
        _ = t.take i ++ (k.text.toList ++ '(' :: back) := by
            rw [← hback, List.append_assoc]
            rfl

/-- A text in which no literal starts is skipped, if no tag starts at its end and goes on behind
it. -/
theorem OpenerFree.skips {t rest : List Char} (h : OpenerFree t)
    (hr : rest = [] ∨ EndsOutside sticks t) (prev : Option Char) : Skips prev t rest := by
  intro front c back ht
  cases ho : opener? (front.getLast?.or prev) (c :: back ++ rest) with
  | none => rfl
  | some r =>
    exfalso
    obtain ⟨k, inner⟩ := r
    obtain ⟨hprev, heq⟩ := eq_tag_of_opener? ho
    -- the end of the text is no part of the tag
    have hcross : (∀ d ∈ c :: back, d ∈ k.text.toList) → rest ≠ [] → False := by
      intro hmem hrest
      have hends := hr.resolve_left hrest ((c :: back).getLast (List.cons_ne_nil c back)) (by
        rw [ht, List.getLast?_append, List.getLast?_eq_some_getLast (List.cons_ne_nil c back)]
        rfl)
      have hsticks := sticks_of_mem_tag k _ (hmem _ (List.getLast_mem (List.cons_ne_nil c back)))
      rw [hends] at hsticks
      cases hsticks
    rcases List.append_eq_append_iff.mp heq with ⟨as, hback, hinner⟩ | ⟨as, htag, hrest⟩
    · cases as with
      | nil =>
        rw [List.append_nil] at hback
        refine hcross (fun d hd => hback ▸ hd) ?_
        rw [← List.nil_append rest, ← hinner]
        exact List.cons_ne_nil _ _
      | cons a as =>
        obtain ⟨rfl, -⟩ := List.cons.inj hinner
        have hfree := h front k as (by rw [ht, hback])
        cases hlast : front.getLast? with
        | none =>
          rw [hlast] at hfree
          cases hfree
        | some d =>
          rw [hlast] at hfree hprev
          exact Bool.false_ne_true (hprev.symm.trans hfree)
    · refine hcross (fun d hd => htag ▸ List.mem_append_left as hd) ?_
      rw [hrest]
      exact List.append_ne_nil_of_right_ne_nil _ (List.cons_ne_nil _ _)

/-! ## Terms and chunks -/

/-- A literal as it is written: a tag with a payload that stands for something. -/
structure Term where
  tag : Constructor
  payload : List Char
  pieces : Skeleton
  balanced : Balanced payload
  reads : Reads tag payload pieces

/-- A payload in parentheses behind a tag. -/
def Constructor.enclose (k : Constructor) (payload : List Char) : List Char :=
  k.text.toList ++ '(' :: (payload ++ [')'])

theorem Constructor.enclose_append (k : Constructor) (payload rest : List Char) :
    k.enclose payload ++ rest = k.text.toList ++ '(' :: (payload ++ ')' :: rest) := by
  simp [enclose]

theorem opener?_enclose {prev : Option Char} (hprev : prev.any sticks = false) (k : Constructor)
    (payload rest : List Char) :
    opener? prev (k.enclose payload ++ rest) = some (k, payload ++ ')' :: rest) := by
  rw [k.enclose_append]
  exact opener?_tag hprev k _

/-- A literal as text. -/
def Term.text (l : Term) : List Char :=
  l.tag.enclose l.payload

/-- A literal with the text in front of it. -/
structure Chunk where
  lead : List Char
  term : Term
  openerFree : OpenerFree lead
  endsOutside : EndsOutside sticks lead

namespace Chunk

/-- A chunk as text. -/
def text (x : Chunk) : List Char :=
  x.lead ++ x.term.text

/-- What a chunk is compiled to. -/
def pieces (x : Chunk) : Skeleton :=
  verbatim x.lead ++ x.term.pieces

end Chunk

/-- A literal is read to the parenthesis that closes it. -/
theorem skeletonFrom_term (l : Term) {prev : Option Char} (hprev : prev.any sticks = false)
    (source : List Char) (offset : Nat) (rest : List Char) :
    skeletonFrom source prev offset (l.text ++ rest) =
      prepend l.pieces (skeletonFrom source (some ')') (offset + l.text.length) rest) := by
  have hopener : opener? prev (l.text ++ rest) = some (l.tag, l.payload ++ ')' :: rest) :=
    opener?_enclose hprev l.tag l.payload rest
  rw [skeletonFrom_of_some hopener (payload?_balanced l.balanced rest)
    (literal_eq_ok_iff.mpr l.reads), List.length_append, Nat.add_sub_cancel]

theorem any_sticks_of_endsOutside {t : List Char} (h : EndsOutside sticks t) {prev : Option Char}
    (hprev : prev.any sticks = false) : (t.getLast?.or prev).any sticks = false := by
  cases hlast : t.getLast? with
  | none => exact hprev
  | some c => exact h c hlast

/-- A chunk is read to its end. -/
theorem skeletonFrom_chunk (x : Chunk) {prev : Option Char} (hprev : prev.any sticks = false)
    (source : List Char) (offset : Nat) (rest : List Char) :
    skeletonFrom source prev offset (x.text ++ rest) =
      prepend x.pieces (skeletonFrom source (some ')') (offset + x.text.length) rest) := by
  have hskips : Skips prev x.lead (x.term.text ++ rest) :=
    x.openerFree.skips (.inr x.endsOutside) prev
  rw [Chunk.text, List.append_assoc, skeletonFrom_of_skips hskips,
    skeletonFrom_term x.term (any_sticks_of_endsOutside x.endsOutside hprev), prepend_prepend,
    List.length_append, Nat.add_assoc]
  rfl

/-- A row of chunks is read chunk by chunk. Behind it a literal can start. -/
theorem skeletonFrom_chunks (xs : List Chunk) {prev : Option Char}
    (hprev : prev.any sticks = false) (source : List Char) (offset : Nat) :
    ∃ prev' : Option Char, prev'.any sticks = false ∧
      ∀ rest, skeletonFrom source prev offset (xs.flatMap Chunk.text ++ rest) =
        prepend (xs.flatMap Chunk.pieces)
          (skeletonFrom source prev' (offset + (xs.flatMap Chunk.text).length) rest) := by
  induction xs generalizing prev offset with
  | nil => exact ⟨prev, hprev, fun rest => (prepend_nil _).symm⟩
  | cons x xs ih =>
    have hclose : (some ')').any sticks = false := by decide +kernel
    obtain ⟨prev', hprev', hrest⟩ := ih hclose (offset + x.text.length)
    refine ⟨prev', hprev', fun rest => ?_⟩
    rw [List.flatMap_cons, List.append_assoc, skeletonFrom_chunk x hprev, hrest, prepend_prepend,
      List.length_append, Nat.add_assoc, List.flatMap_cons]

/-! ## Compiled chunks -/

/-- Text without literals is its own skeleton. -/
theorem skeletonFrom_openerFree {t : List Char} (h : OpenerFree t) (source : List Char)
    (prev : Option Char) (offset : Nat) :
    skeletonFrom source prev offset t = .ok (verbatim t) := by
  have hskips := skeletonFrom_of_skips (h.skips (.inl rfl) prev) source offset
  rw [List.append_nil, skeletonFrom] at hskips
  rw [hskips]
  exact congrArg Except.ok (List.append_nil _)

/-- A blank source needs no case of its own. -/
theorem skeleton_tagged (source : List Char) :
    Expression.skeleton .tagged source = skeleton source := by
  rw [Expression.skeleton]
  split
  · next hblank =>
    rw [List.all_eq_true] at hblank
    have hfree : OpenerFree source := by
      intro front k back hsource
      have hopen := hblank '(' (by rw [hsource]; simp)
      exact absurd hopen (by decide)
    have hpieces : ∀ p ∈ verbatim source, isBlankPiece p = true := by
      intro p hp
      obtain ⟨c, hc, rfl⟩ := List.mem_map.mp hp
      exact hblank c hc
    rw [skeleton, skeletonFrom_openerFree hfree]
    show Except.ok [] = Except.ok (trimEnd isBlankPiece (List.dropWhile isBlankPiece _))
    rw [dropWhile_all hpieces]
    rfl
  · rfl

theorem compile_tagged (start : Int) (source : List Char) :
    compile .tagged start (String.ofList source) =
      (skeletonFrom source none 0 source).map fun ps => ps.trim.fill start := by
  rw [compile, String.toList_ofList, skeleton_tagged, skeleton]
  cases skeletonFrom source none 0 source <;> rfl

/-- A row of literals with text between them, which no tag sticks to, is compiled to the text
with placeholders for the literals, without the white space around it. A literal behind them that
has no end is an error at its own offset. -/
theorem compile_chunks (xs : List Chunk) :
    (∀ last start, OpenerFree last →
      compile .tagged start (String.ofList (xs.flatMap Chunk.text ++ last)) =
        .ok { expression := String.ofList
                (Text.trim isBlank (text start (xs.flatMap Chunk.pieces ++ verbatim last)))
              names := names start (xs.flatMap Chunk.pieces)
              values := values start (xs.flatMap Chunk.pieces) }) ∧
    ∀ (lead body : List Char) (k : Constructor) (start : Int), OpenerFree lead →
      EndsOutside sticks lead → Within 0 body →
        compile .tagged start (String.ofList (xs.flatMap Chunk.text ++
            (lead ++ (k.text.toList ++ '(' :: body)))) =
          .error { fault := .unclosedLiteral
                   source := xs.flatMap Chunk.text ++ (lead ++ (k.text.toList ++ '(' :: body))
                   offset := (xs.flatMap Chunk.text ++ lead).length } := by
  constructor
  · intro last start hlast
    obtain ⟨prev, -, hrow⟩ := skeletonFrom_chunks xs (show none.any sticks = false from rfl)
      (xs.flatMap Chunk.text ++ last) 0
    rw [compile_tagged, hrow, skeletonFrom_openerFree hlast]
    show Except.ok (Skeleton.fill start (Skeleton.trim _)) = _
    rw [fill, text_trim, names_trim, values_trim, names_append, values_append, names_verbatim,
      values_verbatim, List.append_nil, List.append_nil]
  · intro lead body k start hfree hends hbody
    obtain ⟨prev, hprev, hrow⟩ := skeletonFrom_chunks xs (show none.any sticks = false from rfl)
      (xs.flatMap Chunk.text ++ (lead ++ (k.text.toList ++ '(' :: body))) 0
    have hskips : Skips prev lead (k.text.toList ++ '(' :: body) :=
      hfree.skips (.inr hends) prev
    rw [compile_tagged, hrow, skeletonFrom_of_skips hskips,
      skeletonFrom_of_unclosed (opener?_tag (any_sticks_of_endsOutside hends hprev) k body)
        (payload?_of_within hbody), Nat.zero_add, List.length_append]
    rfl

/-- A row with a path over a hyphen and with a quoted name, a payload with a literal in it, a word
that ends in a tag, a set with an empty part and a boolean with white space. -/
def nestedRow : List Chunk :=
  [{ lead := [' ']
     term :=
      { tag := .path
        payload := "a-b.\x60c (d)\x60[0] ".toList
        pieces := [.name "a-b".toList, .char '.', .name "c (d)".toList] ++ verbatim "[0]".toList
        balanced := by decide +kernel
        reads := by decide +kernel }
     openerFree := by decide +kernel
     endsOutside := by decide +kernel },
   { lead := " = ".toList
     term :=
      { tag := .string
        payload := "x N(1)(".toList ++ ")".toList
        pieces := [.value (.string "x N(1)()".toList)]
        balanced := by decide +kernel
        reads := by decide +kernel }
     openerFree := by decide +kernel
     endsOutside := by decide +kernel },
   { lead := " AND isS(m) IN (".toList
     term :=
      { tag := .numbers
        payload := " 1, ,2".toList
        pieces := [.value (.numbers ["1".toList, "2".toList])]
        balanced := by decide +kernel
        reads := by decide +kernel }
     openerFree := by decide +kernel
     endsOutside := by decide +kernel },
   { lead := ", ".toList
     term :=
      { tag := .boolean
        payload := " True ".toList
        pieces := [.value (.boolean true)]
        balanced := by decide +kernel
        reads := by decide +kernel }
     openerFree := by decide +kernel
     endsOutside := by decide +kernel }]

/-- The row with text behind it, and with a literal behind it that has no end. -/
theorem compile_nestedRow :
    compile .tagged 7
        " $(a-b.\x60c (d)\x60[0] ) = S(x N(1)()) AND isS(m) IN (NS( 1, ,2), BOOL( True )) N" =
      .ok { expression := "#V7.#V8[0] = :V9 AND isS(m) IN (:V10, :V11) N"
            names := [("#V7", "a-b"), ("#V8", "c (d)")]
            values := [(":V9", Wire.tagged .s (.text "x N(1)()")),
              (":V10", Wire.tagged .ns (.list [.text "1", .text "2"])),
              (":V11", Wire.tagged .bool (.bool true))] } ∧
    (compile .tagged 7 (String.ofList (nestedRow.flatMap Chunk.text ++ ") OR B(a(b)".toList))) =
      .error { fault := .unclosedLiteral
               source := nestedRow.flatMap Chunk.text ++ ") OR B(a(b)".toList
               offset := 78 } := by
  constructor
  · have h := (compile_chunks nestedRow).1 ") N".toList 7 (by decide +kernel)
    have hsource : String.ofList (nestedRow.flatMap Chunk.text ++ ") N".toList) =
        " $(a-b.\x60c (d)\x60[0] ) = S(x N(1)()) AND isS(m) IN (NS( 1, ,2), BOOL( True )) N" := by
      decide +kernel
    rw [hsource] at h
    rw [h]
    refine congrArg Except.ok ?_
    rw [Compiled.mk.injEq]
    refine ⟨by decide +kernel, by decide +kernel, ?_⟩
    with_unfolding_all rfl
  · have h := (compile_chunks nestedRow).2 ") OR ".toList "a(b)".toList .binary 7
      (by decide +kernel) (by decide +kernel) (by decide +kernel)
    have hoffset : (nestedRow.flatMap Chunk.text ++ ") OR ".toList).length = 78 := by
      decide +kernel
    rw [hoffset] at h
    exact h

end Tagged

end ItemStore.Expression
