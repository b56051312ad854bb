import ItemStore.Proofs.Expression.Numbering
import ItemStore.Proofs.Expression.Scanners

/-
  Placeholders as they are found in a text: a hash or a colon with the word characters behind it
  (`placeholdersIn`). In a skeleton that is filled they are the placeholders of its holes, in
  their order, between those that the skeleton has outside its holes (`interleave_placeholdersIn`).

  A word character directly behind a hole would go on with the hole's placeholder and make another
  one of it, so this asks for skeletons that have none there (`isSeparated`). In front of a hole
  nothing is asked for: the mark that a placeholder starts with ends whatever word stands there.
-/

namespace ItemStore.Expression

open Text

/-! ## Interleaving -/

/-- A list holds the elements of two others, each in their order, and nothing else. -/
inductive Interleave {α : Type} : List α → List α → List α → Prop
  | nil : Interleave [] [] []
  | left {x : α} {xs ys zs : List α} : Interleave xs ys zs → Interleave (x :: xs) ys (x :: zs)
  | right {y : α} {xs ys zs : List α} : Interleave xs ys zs → Interleave xs (y :: ys) (y :: zs)

/-- A class that holds all elements of the one list and none of the other picks out the one. -/
theorem Interleave.filter_eq {α : Type} {p : α → Bool} {xs ys zs : List α}
    (h : Interleave xs ys zs) (hx : ∀ x ∈ xs, p x = true) (hy : ∀ y ∈ ys, p y = false) :
    zs.filter p = xs := by
  induction h with
  | nil => rfl
  | left _ ih =>
    rw [List.forall_mem_cons] at hx
    rw [List.filter_cons_of_pos hx.1, ih hx.2 hy]
  | right _ ih =>
    rw [List.forall_mem_cons] at hy
    rw [List.filter_cons_of_neg (by rw [hy.1]; exact Bool.false_ne_true), ih hx hy.2]

/-! ## Placeholders in a text -/

/-- The placeholders in a text, from left to right: each mark that a word character follows, with
all the word characters behind it. A mark is no word character, so none stands within another. -/
def placeholdersIn : List Char → List String
  | [] => []
  | c :: cs =>
    if isMark c && startsWord cs then String.ofList (c :: cs.takeWhile isWord) :: placeholdersIn cs
    else placeholdersIn cs

/-- A class without the two marks has no mark. -/
theorem isMark_of_class {p : Char → Bool} (hhash : p '#' = false) (hcolon : p ':' = false)
    {c : Char} (h : p c = true) : isMark c = false := by
  rw [isMark, Bool.or_eq_false_iff, beq_eq_false_iff_ne, beq_eq_false_iff_ne]
  exact ⟨ne_of_class h hhash, ne_of_class h hcolon⟩

theorem isMark_of_isWord {c : Char} (h : isWord c = true) : isMark c = false :=
  isMark_of_class (by decide +kernel) (by decide +kernel) h

theorem isMark_of_isBlank {c : Char} (h : isBlank c = true) : isMark c = false :=
  isMark_of_class (by decide +kernel) (by decide +kernel) h

theorem startsWord_eq (cs : List Char) : startsWord cs = !(cs.takeWhile isWord).isEmpty := by
  rw [Bool.eq_iff_iff, startsWord_iff, Bool.not_eq_true', List.isEmpty_eq_false_iff]

theorem placeholdersIn_cons_of_not_mark {c : Char} (h : isMark c = false) (cs : List Char) :
    placeholdersIn (c :: cs) = placeholdersIn cs := by
  rw [placeholdersIn, h]
  rfl

/-- No character of a text is a mark. -/
def Markless (cs : List Char) : Prop :=
  ∀ c ∈ cs, isMark c = false

theorem markless_cons {c : Char} {cs : List Char} :
    Markless (c :: cs) ↔ isMark c = false ∧ Markless cs :=
  List.forall_mem_cons

theorem markless_word (w : Word) : Markless w.chars :=
  fun c hc => isMark_of_isWord (w.isWord_of_mem c hc)

/-- What has no mark in it has no placeholder in it. -/
theorem Markless.placeholdersIn_append {xs : List Char} (h : Markless xs) (cs : List Char) :
    placeholdersIn (xs ++ cs) = placeholdersIn cs := by
  induction xs with
  | nil => rfl
  | cons x xs ih =>
    obtain ⟨hx, hxs⟩ := markless_cons.mp h
    rw [List.cons_append, placeholdersIn_cons_of_not_mark hx, ih hxs]

/-- A text that goes on with no word leaves the placeholders in front of it as they are. -/
theorem placeholdersIn_append {ds : List Char} (h : Stops isWord ds) (cs : List Char) :
    placeholdersIn (cs ++ ds) = placeholdersIn cs ++ placeholdersIn ds := by
  induction cs with
  | nil => rfl
  | cons c cs ih =>
    rw [List.cons_append, placeholdersIn, placeholdersIn, startsWord_eq, startsWord_eq,
      takeWhile_append_of_stops h, ih]
    split <;> rfl

/-- A mark with a word behind it is a placeholder if the word ends there. -/
theorem placeholdersIn_mark {mark : Char} (hm : isMark mark = true) (w : Word) {rest : List Char}
    (h : Stops isWord rest) : placeholdersIn (mark :: (w.chars ++ rest)) =
      String.ofList (mark :: w.chars) :: placeholdersIn rest := by
  have htake := takeWhile_run w.isWord_of_mem h
  have hstarts : startsWord (w.chars ++ rest) = true := by
    rw [startsWord_iff, htake]
    exact w.ne_nil
  rw [placeholdersIn, hm, hstarts, htake, Bool.and_true, if_pos rfl,
    (markless_word w).placeholdersIn_append]

/-- The placeholders of the end of a text are among those of the whole. -/
theorem sublist_placeholdersIn {cs ds : List Char} (h : cs <:+ ds) :
    (placeholdersIn cs).Sublist (placeholdersIn ds) := by
  obtain ⟨xs, rfl⟩ := h
  induction xs with
  | nil => exact List.Sublist.refl _
  | cons x xs ih =>
    rw [List.cons_append, placeholdersIn]
    split
    · exact ih.cons _
    · exact ih

/-! ## Placeholders in a skeleton -/

namespace Skeleton

/-- The word that a skeleton starts with, up to the first hole. -/
def word : Skeleton → List Char
  | .char c :: ps => if isWord c then c :: word ps else []
  | _ => []

/-- The placeholders that a skeleton has outside its holes. -/
def written : Skeleton → List String
  | [] => []
  | .char c :: ps =>
    if isMark c && !(word ps).isEmpty then String.ofList (c :: word ps) :: written ps
    else written ps
  | .name _ :: ps => written ps
  | .value _ :: ps => written ps

/-- No hole has a word character directly behind it. -/
def isSeparated : Skeleton → Bool
  | [] => true
  | .char _ :: ps => isSeparated ps
  | .name _ :: ps => (word ps).isEmpty && isSeparated ps
  | .value _ :: ps => (word ps).isEmpty && isSeparated ps

/-- No character outside the holes is a mark. -/
def Unmarked (ps : Skeleton) : Prop :=
  ∀ c, Piece.char c ∈ ps → isMark c = false

theorem Unmarked.append {ps qs : Skeleton} (hp : Unmarked ps) (hq : Unmarked qs) :
    Unmarked (ps ++ qs) := by
  intro c h
  rcases List.mem_append.mp h with h | h
  · exact hp c h
  · exact hq c h

theorem unmarked_verbatim {cs : List Char} (h : Markless cs) : Unmarked (verbatim cs) := by
  intro c hc
  obtain ⟨d, hd, he⟩ := List.mem_map.mp hc
  rw [← Piece.char.inj he]
  exact h d hd

/-- Pieces without a mark add nothing in front of others. -/
theorem Unmarked.written_append {ps : Skeleton} (h : Unmarked ps) (qs : Skeleton) :
    written (ps ++ qs) = written qs := by
  induction ps with
  | nil => rfl
  | cons p ps ih =>
    have hps : Unmarked ps := fun c hc => h c (List.mem_cons_of_mem _ hc)
    cases p with
    | char c =>
      rw [List.cons_append, written, h c List.mem_cons_self, Bool.false_and, ih hps]
      rfl
    | name key => exact ih hps
    | value l => exact ih hps

theorem word_append {qs : Skeleton} (h : word qs = []) (ps : Skeleton) :
    word (ps ++ qs) = word ps := by
  induction ps with
  | nil => exact h
  | cons p ps ih =>
    cases p with
    | char c => rw [List.cons_append, word, word, ih]
    | name key => rfl
    | value l => rfl

/-- Pieces that go on with no word leave the placeholders in front of them as they are. -/
theorem written_append {qs : Skeleton} (h : word qs = []) (ps : Skeleton) :
    written (ps ++ qs) = written ps ++ written qs := by
  induction ps with
  | nil => rfl
  | cons p ps ih =>
    cases p with
    | char c =>
      rw [List.cons_append, written, written, word_append h, ih]
      split <;> rfl
    | name key => exact ih
    | value l => exact ih

theorem word_verbatim (cs : List Char) : word (verbatim cs) = cs.takeWhile isWord := by
  induction cs with
  | nil => rfl
  | cons c cs ih =>
    show (if isWord c then c :: word (verbatim cs) else []) = _
    rw [ih, List.takeWhile_cons]

theorem written_verbatim (cs : List Char) : written (verbatim cs) = placeholdersIn cs := by
  induction cs with
  | nil => rfl
  | cons c cs ih =>
    show (if isMark c && !(word (verbatim cs)).isEmpty then
      String.ofList (c :: word (verbatim cs)) :: written (verbatim cs)
      else written (verbatim cs)) = _
    rw [ih, word_verbatim, placeholdersIn, startsWord_eq]

/-- A hole that is filled starts with a mark, so it goes on with no word in front of it. -/
theorem takeWhile_text (start : Int) (ps : Skeleton) :
    (text start ps).takeWhile isWord = word ps := by
  induction ps with
  | nil => rfl
  | cons p ps ih =>
    cases p with
    | char c => rw [text, word, List.takeWhile_cons, ih]
    | name key => exact takeWhile_of_stops (stops_cons.mpr (by decide +kernel))
    | value l => exact takeWhile_of_stops (stops_cons.mpr (by decide +kernel))

theorem stops_text {ps : Skeleton} (h : word ps = []) (start : Int) :
    Stops isWord (text start ps) := by
  have htake := takeWhile_text start ps
  rw [h] at htake
  exact stops_of_takeWhile htake

/-- What stands behind the mark of a numbered placeholder. -/
def indexWord {index : Int} (h : 0 ≤ index) : Word where
  chars := 'V' :: Number.intText index
  ne_nil := List.cons_ne_nil _ _
  isWord_of_mem := by
    rw [Number.intText_of_nonneg h, List.forall_mem_cons]
    exact ⟨by decide +kernel, fun c hc => isWord_of_isDigit (Number.isDigit_of_mem_digits hc)⟩

/-- A numbered placeholder is found if no word goes on behind it. -/
theorem placeholdersIn_placeholder {index : Int} (hi : 0 ≤ index) (h : Hole) {rest : List Char}
    (hr : Stops isWord rest) : placeholdersIn (h.placeholder index ++ rest) =
      String.ofList (h.placeholder index) :: placeholdersIn rest := by
  cases h with
  | name key => exact placeholdersIn_mark rfl (indexWord hi) hr
  | value l => exact placeholdersIn_mark rfl (indexWord hi) hr

/-- Placeholders that are numbered one behind the other grow in their numbers. -/
theorem pairwise_placeholderTexts {start : Int} (hs : 0 ≤ start) (hs' : List Hole) :
    (placeholderTexts start hs').Pairwise (Compiled.indexOf · < Compiled.indexOf ·) := by
  induction hs' generalizing start with
  | nil => exact .nil
  | cons h hs' ih =>
    rw [placeholderTexts_cons, List.pairwise_cons]
    refine ⟨?_, ih (by omega)⟩
    intro p hp
    obtain ⟨⟨i, h'⟩, hi, rfl⟩ := List.mem_map.mp hp
    have hle := (exists_mem_numbered.mp ⟨h', hi⟩).1
    have hfirst := indexOf_placeholder hs h
    have hlater := indexOf_placeholder (show 0 ≤ i by omega) h'
    dsimp only at *
    omega

/-- The placeholders in a filled skeleton are those of its holes between those outside. -/
theorem interleave_placeholdersIn {start : Int} (hs : 0 ≤ start) {ps : Skeleton}
    (h : ps.isSeparated = true) :
    Interleave (placeholderTexts start ps.holes) ps.written (placeholdersIn (text start ps)) := by
  induction ps generalizing start with
  | nil => exact .nil
  | cons p ps ih =>
    cases p with
    | char c =>
      rw [holes, written, text, placeholdersIn, startsWord_eq, takeWhile_text]
      split
      · exact (ih hs h).right
      · exact ih hs h
    | name key =>
      obtain ⟨hword, hrest⟩ := Bool.and_eq_true_iff.mp h
      have hfound := placeholdersIn_placeholder hs (.name key)
        (stops_text (List.isEmpty_iff.mp hword) (start + 1))
      rw [holes, written, placeholderTexts_cons]
      exact hfound ▸ (ih (by omega) hrest).left
    | value l =>
      obtain ⟨hword, hrest⟩ := Bool.and_eq_true_iff.mp h
      have hfound := placeholdersIn_placeholder hs (.value l)
        (stops_text (List.isEmpty_iff.mp hword) (start + 1))
      rw [holes, written, placeholderTexts_cons]
      exact hfound ▸ (ih (by omega) hrest).left

end Skeleton

end ItemStore.Expression
