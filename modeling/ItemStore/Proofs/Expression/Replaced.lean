import ItemStore.Proofs.Expression.Chunks
import ItemStore.Proofs.Expression.Fragments

/-
  Expressions whose names and values are placeholders already: rows of fragments with white space
  between them, each ending in front of what stands behind it, with their parentheses matched. The
  normal form of such a row has a single space for each gap and none behind an opening parenthesis
  or in front of a closing one or a comma; nothing but white space is left out (`filter_normal`). A
  call is a word with a parenthesis directly behind it, as everywhere in the language.

  `compile_replaced`: a row compiles to its normal form and binds nothing exactly if it has no index
  and no comparison in it is read as a binary literal. The scanner knows no path behind a
  placeholder, so the digits of an index are a number; and an angle bracket starts a binary literal
  wherever another one closes it before any white space. Leaving white space out can bring two
  brackets together, so the normal form is asked for itself. `not_compile_replaced` has a row for
  each.

  A row without those is legible and sent as it is, fragment by fragment (`legible_lexemes`,
  `skeletonFrom_lexemes`). In any other row, the scanner gets through the fragments in front, and
  what it meets then leaves a hole (`exists_value_of_tokensFrom`, by induction on the row for every
  context that the fragments in front can leave).
-/

namespace ItemStore.Expression

open Text Lexeme Inferred

/-! ## Rows of fragments -/

/-- A fragment with the white space in front of it. -/
structure Spaced where
  gap : List Char
  fragment : Fragment
  blank : ∀ c ∈ gap, isBlank c = true

namespace Spaced

/-- Fragments as text, with a text behind them. -/
def write (tail : List Char) : List Spaced → List Char
  | [] => tail
  | x :: xs => x.gap ++ (x.fragment.text ++ write tail xs)

/-- Whether each fragment ends in front of what stands behind it. -/
def areSeparate (tail : List Char) : List Spaced → Bool
  | [] => true
  | x :: xs =>
    (write tail xs).head?.all (fun c => x.fragment.endsBefore c) && areSeparate tail xs

/-- Whether a fragment is read as a binary literal with what stands behind it. -/
def readsBinary (tail : List Char) : List Spaced → Bool
  | [] => false
  | x :: xs => (scanBinary (x.fragment.text ++ write tail xs)).isSome || readsBinary tail xs

/-- How many parentheses are open after fragments. -/
def depthAfter (depth : Nat) : List Spaced → Option Nat
  | [] => some depth
  | x :: xs => (x.fragment.depthStep depth).bind fun d => depthAfter d xs

/-- Fragments with what is left of the white space between them. -/
def respaced (prev : Option Fragment) : List Spaced → List Spaced
  | [] => []
  | x :: xs =>
    ⟨Fragment.gapAfter prev x.gap x.fragment, x.fragment, Fragment.blank_gapAfter _ _ _⟩ ::
      respaced (some x.fragment) xs

theorem write_respaced (tail : List Char) (prev : Option Fragment) (x : Spaced) (xs : List Spaced) :
    write tail (respaced prev (x :: xs)) = Fragment.gapAfter prev x.gap x.fragment ++
      (x.fragment.text ++ write tail (respaced (some x.fragment) xs)) :=
  rfl

/-- Fragments as lexemes. -/
def lexemes (xs : List Spaced) : List Lexeme :=
  xs.flatMap fun x => x.fragment.lexemes x.gap

theorem print_lexemes (xs : List Spaced) (tail : List Char) :
    print (lexemes xs) ++ tail = write tail xs := by
  induction xs with
  | nil => rfl
  | cons x xs ih =>
    rw [lexemes, List.flatMap_cons, print_append, ← lexemes, Fragment.print_lexemes, write, ← ih]
    simp only [List.append_assoc]

theorem depthAfter_lexemes (depth : Nat) (xs : List Spaced) :
    Lexeme.depthAfter depth (lexemes xs) = depthAfter depth xs := by
  induction xs generalizing depth with
  | nil => rfl
  | cons x xs ih =>
    rw [lexemes, List.flatMap_cons, ← lexemes, Fragment.depthAfter_lexemes, depthAfter]
    exact congrArg _ (funext fun d => ih d)

/-- Fragments are legible in front of a text when none is read as a binary literal. -/
theorem legible_lexemes {tail : List Char} {xs : List Spaced} (prev : Option TokenKind)
    (hbinary : readsBinary tail xs = false) (hs : areSeparate tail xs = true) :
    Legible prev tail (lexemes xs) := by
  induction xs generalizing prev with
  | nil => trivial
  | cons x xs ih =>
    rw [readsBinary, Bool.or_eq_false_iff, Option.isSome_eq_false_iff, Option.isNone_iff_eq_none]
      at hbinary
    rw [areSeparate, Bool.and_eq_true, Option.all_eq_true] at hs
    rw [lexemes, List.flatMap_cons, ← lexemes, legible_append, print_lexemes]
    exact ⟨x.fragment.legible_lexemes prev x.blank hs.1 hbinary.1, ih _ hbinary.2 hs.2⟩

/-- Fragments are sent as they are, with what is left of the white space between them. -/
theorem skeletonFrom_lexemes {xs : List Spaced}
    (hindex : xs.any (fun x => x.fragment.isIndex) = false) {prev : Option Fragment}
    {ctx : Context} (hfits : Fragment.Fits prev ctx) (offset : Nat) :
    skeletonFrom ctx (place offset (lexemes xs)) =
      Skeleton.verbatim (write [] (respaced prev xs)) := by
  induction xs generalizing prev ctx offset with
  | nil => rfl
  | cons x xs ih =>
    rw [List.any_cons, Bool.or_eq_false_iff] at hindex
    rw [lexemes, List.flatMap_cons, ← lexemes, place_append,
      Fragment.yields_lexemes hindex.1 hfits x.gap offset,
      ih hindex.2 (Fragment.fits_lexemes hindex.1 ctx x.gap offset) _, write_respaced]
    simp only [Skeleton.verbatim, List.map_append, List.append_assoc]

/-! ## What is bound -/

theorem mem_skeletonFrom_append {p : Piece} {ctx : Context} (ts : List Token) {us : List Token}
    (h : p ∈ skeletonFrom (ts.foldl Context.after ctx) us) : p ∈ skeletonFrom ctx (ts ++ us) := by
  induction ts generalizing ctx with
  | nil => exact h
  | cons t ts ih => exact List.mem_append_right _ (ih h)

theorem prev_foldl_after (ctx : Context) (ts : List Token) :
    (ts.foldl Context.after ctx).prev = lastToken ctx.prev ts := by
  induction ts generalizing ctx with
  | nil => rfl
  | cons t ts ih => exact ih (ctx.after t)

theorem exists_append_of_map {ε α : Type} {r : Except ε (List α)} {xs ys : List α}
    (h : r.map (xs ++ ·) = .ok ys) : ∃ more, r = .ok more ∧ ys = xs ++ more := by
  cases r with
  | error e => cases h
  | ok more => exact ⟨more, rfl, (Except.ok.inj h).symm⟩

/-- The digits of an index are bound as a number. -/
theorem exists_value_of_isIndex {f : Fragment} (h : f.isIndex = true) (ctx : Context)
    (gap : List Char) (offset : Nat) (us : List Token) :
    ∃ l, Piece.value l ∈ skeletonFrom ctx (place offset (f.lexemes gap) ++ us) := by
  cases f with
  | index d =>
    refine ⟨.number d.chars, ?_⟩
    refine List.mem_append_right _ (List.mem_append_left _ (List.mem_append_right _ ?_))
    exact List.mem_singleton.mpr rfl
  | _ => cases h

section Run

variable {ctx : Context} {opened : List Nat} {offset : Nat} {tokens : List Token} {f : Fragment}
  {gap rest : List Char}

/-- What is read as a binary literal is bound. -/
theorem exists_value_of_scanBinary (hgap : ∀ c ∈ gap, isBlank c = true)
    (hb : (scanBinary (f.text ++ rest)).isSome = true)
    (h : tokensFrom ctx.prev opened false offset (gap ++ (f.text ++ rest)) = .ok tokens) :
    ∃ l, Piece.value l ∈ skeletonFrom ctx tokens := by
  obtain ⟨⟨payload, after⟩, hscan⟩ := Option.isSome_iff_exists.mp hb
  obtain ⟨hne, hp, hcons⟩ := scanBinary_sound hscan
  have hlegible : Legible (ctx.prev.map Token.kind) after
      [(Spelling.binary payload hne hp).lexeme gap] :=
    ⟨hgap, scans_binary gap hne hp after, trivial⟩
  have hprint : print [(Spelling.binary payload hne hp).lexeme gap] ++ after =
      gap ++ (f.text ++ rest) := by
    rw [hcons]
    simp [print, Spelling.lexeme, Spelling.text]
  obtain ⟨opened', -, hrun⟩ := tokensFrom_print_append ctx.prev opened offset hlegible rfl
  rw [← hprint, hrun] at h
  obtain ⟨more, -, rfl⟩ := exists_append_of_map h
  exact ⟨.binary payload,
    List.mem_append_left _ (List.mem_append_right _ (List.mem_singleton.mpr rfl))⟩

/-- Any other fragment is read up to where it ends. -/
theorem exists_tokens_of_fragment {depth : Nat} (hgap : ∀ c ∈ gap, isBlank c = true)
    (hends : ∀ c ∈ rest.head?, f.endsBefore c = true) (hb : scanBinary (f.text ++ rest) = none)
    (hd : f.depthStep opened.length = some depth)
    (h : tokensFrom ctx.prev opened false offset (gap ++ (f.text ++ rest)) = .ok tokens) :
    ∃ opened' offset' more, opened'.length = depth ∧ tokens = place offset (f.lexemes gap) ++ more ∧
      tokensFrom ((place offset (f.lexemes gap)).foldl Context.after ctx).prev opened' false offset'
        rest = .ok more := by
  have hlegible := f.legible_lexemes (ctx.prev.map Token.kind) hgap hends hb
  have hdepth := f.depthAfter_lexemes gap opened.length []
  rw [List.append_nil, hd] at hdepth
  obtain ⟨opened', hlength, hrun⟩ := tokensFrom_print_append ctx.prev opened offset hlegible hdepth
  rw [← List.append_assoc, ← Fragment.print_lexemes, hrun] at h
  obtain ⟨more, hmore, rfl⟩ := exists_append_of_map h
  rw [← prev_foldl_after] at hmore
  exact ⟨opened', _, more, hlength, rfl, hmore⟩

/-- Where a fragment is an index or read as a binary literal, something is bound. -/
theorem exists_value_of_tokensFrom {tail : List Char} {xs : List Spaced}
    (h : xs.any (fun x => x.fragment.isIndex) = true ∨ readsBinary tail xs = true)
    (hs : areSeparate tail xs = true) (hd : depthAfter opened.length xs = some 0)
    (htokens : tokensFrom ctx.prev opened false offset (write tail xs) = .ok tokens) :
    ∃ l, Piece.value l ∈ skeletonFrom ctx tokens := by
  induction xs generalizing ctx opened offset tokens with
  | nil => rcases h with h | h <;> cases h
  | cons x xs ih =>
    obtain ⟨depth, hstep, hdepth⟩ := Option.bind_eq_some_iff.mp hd
    rw [areSeparate, Bool.and_eq_true, Option.all_eq_true] at hs
    rw [List.any_cons, readsBinary] at h
    cases hb : scanBinary (x.fragment.text ++ write tail xs) with
    | some r => exact exists_value_of_scanBinary x.blank (by rw [hb]; rfl) htokens
    | none =>
      obtain ⟨opened', offset', more, rfl, rfl, hmore⟩ :=
        exists_tokens_of_fragment x.blank hs.1 hb hstep htokens
      cases hindex : x.fragment.isIndex with
      | true => exact exists_value_of_isIndex hindex ctx x.gap offset more
      | false =>
        rw [hindex, Bool.false_or, hb, Option.isSome_none, Bool.false_or] at h
        obtain ⟨l, hl⟩ := ih h hs.2 hdepth hmore
        exact ⟨l, mem_skeletonFrom_append _ hl⟩

end Run

/-! ## White space -/

theorem respaced_respaced (prev : Option Fragment) (xs : List Spaced) :
    respaced prev (respaced prev xs) = respaced prev xs := by
  induction xs generalizing prev with
  | nil => rfl
  | cons x xs ih =>
    rw [respaced, respaced, ih]
    simp only [Fragment.gapAfter_gapAfter]

theorem depthAfter_respaced (depth : Nat) (prev : Option Fragment) (xs : List Spaced) :
    depthAfter depth (respaced prev xs) = depthAfter depth xs := by
  induction xs generalizing depth prev with
  | nil => rfl
  | cons x xs ih =>
    rw [respaced, depthAfter, depthAfter]
    exact congrArg _ (funext fun d => ih d _)

theorem any_respaced (p : Fragment → Bool) (prev : Option Fragment) (xs : List Spaced) :
    (respaced prev xs).any (fun x => p x.fragment) = xs.any fun x => p x.fragment := by
  induction xs generalizing prev with
  | nil => rfl
  | cons x xs ih => rw [respaced, List.any_cons, List.any_cons, ih]

/-- What a fragment ends in front of it ends in front of also when white space is left out. -/
theorem endsBefore_respaced {f : Fragment} {tail : List Char} {xs : List Spaced}
    (h : (write tail xs).head?.all (fun c => f.endsBefore c) = true) :
    (write [] (respaced (some f) xs)).head?.all (fun c => f.endsBefore c) = true := by
  cases xs with
  | nil => rfl
  | cons x xs =>
    obtain ⟨c, cs, htext⟩ := List.exists_cons_of_ne_nil x.fragment.text_ne_nil
    rw [write, htext] at h
    rw [write_respaced]
    rcases Fragment.gapAfter_cases f x.gap x.fragment with hgap | ⟨hgap, hnone⟩
    · rw [hgap]
      exact f.endsBefore_space
    · rw [hgap, htext]
      rcases hnone with hopens | hnil | hcloses
      · exact Fragment.endsBefore_of_opens hopens c
      · rw [hnil] at h
        exact h
      · exact Fragment.endsBefore_of_closes hcloses f c (by rw [htext]; rfl)

theorem areSeparate_respaced {tail : List Char} {xs : List Spaced} (prev : Option Fragment)
    (h : areSeparate tail xs = true) : areSeparate [] (respaced prev xs) = true := by
  induction xs generalizing prev with
  | nil => rfl
  | cons x xs ih =>
    rw [areSeparate, Bool.and_eq_true] at h
    rw [respaced, areSeparate, Bool.and_eq_true]
    exact ⟨endsBefore_respaced h.1, ih _ h.2⟩

/-- Nothing but white space is left out. -/
theorem filter_respaced {tail : List Char} (ht : ∀ c ∈ tail, isBlank c = true)
    (prev : Option Fragment) (xs : List Spaced) :
    (write [] (respaced prev xs)).filter (fun c => !isBlank c) =
      (write tail xs).filter fun c => !isBlank c := by
  have hblank : ∀ cs : List Char, (∀ c ∈ cs, isBlank c = true) →
      cs.filter (fun c => !isBlank c) = [] := by
    intro cs hcs
    rw [List.filter_eq_nil_iff]
    intro c hc
    rw [hcs c hc]
    decide
  induction xs generalizing prev with
  | nil => exact (hblank tail ht).symm
  | cons x xs ih =>
    rw [write_respaced, write]
    simp only [List.filter_append, hblank _ x.blank, hblank _ (Fragment.blank_gapAfter _ _ _), ih]

end Spaced

/-! ## Replaced expressions -/

/-- An expression whose names and values are placeholders, with white space at its end. -/
structure Replaced where
  parts : List Spaced
  tail : List Char
  blank : ∀ c ∈ tail, isBlank c = true
  areSeparate : Spaced.areSeparate tail parts = true
  balanced : Spaced.depthAfter 0 parts = some 0

namespace Replaced

/-- A replaced expression as text. -/
def text (e : Replaced) : List Char :=
  Spaced.write e.tail e.parts

/-- Whether there is an index in an expression. -/
def hasIndex (e : Replaced) : Bool :=
  e.parts.any fun x => x.fragment.isIndex

/-- Whether a comparison in an expression is read as a binary literal. -/
def readsBinary (e : Replaced) : Bool :=
  Spaced.readsBinary e.tail e.parts

/-- A replaced expression with its white space normalised. -/
def normal (e : Replaced) : Replaced where
  parts := Spaced.respaced none e.parts
  tail := []
  blank := blank_nil
  areSeparate := Spaced.areSeparate_respaced none e.areSeparate
  balanced := (Spaced.depthAfter_respaced 0 none e.parts).trans e.balanced

theorem normal_normal (e : Replaced) : e.normal.normal = e.normal := by
  simp only [normal, Spaced.respaced_respaced]

theorem hasIndex_normal (e : Replaced) : e.normal.hasIndex = e.hasIndex :=
  Spaced.any_respaced Fragment.isIndex none e.parts

/-- Normalising leaves out nothing but white space. -/
theorem filter_normal (e : Replaced) :
    e.normal.text.filter (fun c => !isBlank c) = e.text.filter fun c => !isBlank c :=
  Spaced.filter_respaced e.blank none e.parts

/-! ## Rows as they are written -/

/-- A word of one character. -/
def letter (c : Char) (h : isWord c = true) : Word :=
  ⟨[c], List.cons_ne_nil _ _, List.forall_mem_singleton.mpr h⟩

/-- A fragment directly behind what stands in front. -/
def tight (f : Fragment) : Spaced :=
  ⟨[], f, blank_nil⟩

/-- A fragment with a space in front. -/
def loose (f : Fragment) : Spaced :=
  ⟨[' '], f, blank_space⟩

/-- The function that tells the size of an attribute. -/
def size : PlainFunction where
  name := ⟨⟨"size".toList, by decide, forall_mem_of_all (by decide +kernel)⟩, []⟩
  notNumber := by decide +kernel
  notReserved := by decide +kernel
  notHyphenated := rfl

/-- A keyword in small letters, calls, a path of two names and a list of values, with white space
that is not regular. -/
def nested : Replaced where
  parts := [
    tight (.keyword ⟨⟨"not".toList, by decide, forall_mem_of_all (by decide +kernel)⟩, .not,
      by decide⟩),
    tight .openParen, loose (.call size), tight (.name (letter 'a' (by decide +kernel))),
    tight .point, tight (.name (letter 'b' (by decide +kernel))), loose .closeParen,
    tight (.comparison .ge), tight (.value (letter 'v' (by decide +kernel))), loose .comma,
    ⟨[' ', '\n'], .value (letter 'w' (by decide +kernel)), forall_mem_of_all (by decide)⟩,
    loose .closeParen]
  tail := [' ']
  blank := blank_space
  areSeparate := by decide +kernel
  balanced := by decide +kernel

/-- A path with an index in front of a placeholder for a value. -/
def indexed : Replaced where
  parts := [
    tight (.name (letter 'a' (by decide +kernel))),
    tight (.index ⟨"0".toList, by decide, forall_mem_of_all (by decide +kernel)⟩),
    loose (.comparison .eq), loose (.value (letter 'v' (by decide +kernel)))]
  tail := []
  blank := blank_nil
  areSeparate := by decide +kernel
  balanced := by decide +kernel

/-- Two comparisons that have no white space between them. -/
def reaching : Replaced where
  parts := [
    tight .openParen, tight (.name (letter 'a' (by decide +kernel))), tight (.comparison .lt),
    tight (.value (letter 'v' (by decide +kernel))), tight .closeParen,
    tight (.keyword ⟨⟨"AND".toList, by decide, forall_mem_of_all (by decide +kernel)⟩, .and,
      by decide⟩),
    tight .openParen, tight (.name (letter 'b' (by decide +kernel))), tight (.comparison .gt),
    tight (.value (letter 'w' (by decide +kernel))), tight .closeParen]
  tail := []
  blank := blank_nil
  areSeparate := by decide +kernel
  balanced := by decide +kernel

/-- Two comparisons with white space between them only behind the parenthesis of a call. -/
def settling : Replaced where
  parts := [
    tight .openParen, tight (.name (letter 'a' (by decide +kernel))), loose (.comparison .lt),
    tight (.call size), loose (.name (letter 'b' (by decide +kernel))), tight .closeParen,
    tight .closeParen,
    tight (.keyword ⟨⟨"AND".toList, by decide, forall_mem_of_all (by decide +kernel)⟩, .and,
      by decide⟩),
    tight .openParen, tight (.name (letter 'c' (by decide +kernel))), tight (.comparison .gt),
    tight (.value (letter 'd' (by decide +kernel))), tight .closeParen]
  tail := []
  blank := blank_nil
  areSeparate := by decide +kernel
  balanced := by decide +kernel

/-! ## Replaced expressions compiled -/

/-- Without indexes, and with no comparison read as a binary literal, a replaced expression is its
own skeleton up to white space. -/
theorem skeleton_text {e : Replaced} (hindex : e.hasIndex = false)
    (hbinary : e.readsBinary = false) :
    Expression.skeleton .inferred e.text = .ok (Skeleton.verbatim e.normal.text) := by
  have hlegible := Spaced.legible_lexemes none hbinary e.areSeparate
  have hdepth := (Spaced.depthAfter_lexemes 0 e.parts).trans e.balanced
  have hfits : Fragment.Fits none {} := rfl
  rw [text, ← Spaced.print_lexemes, skeleton_print e.blank hlegible hdepth,
    Spaced.skeletonFrom_lexemes hindex hfits]
  rfl

/-- An index, or a comparison that is read as a binary literal, leaves a hole. -/
theorem exists_value_of_skeleton {e : Replaced} {ps : Skeleton}
    (hps : Expression.skeleton .inferred e.text = .ok ps)
    (h : e.hasIndex = true ∨ e.readsBinary = true) : ∃ l, Piece.value l ∈ ps := by
  rw [skeleton_inferred, tokenize] at hps
  cases htokens : tokensFrom none [] false 0 e.text with
  | error =>
    rw [htokens] at hps
    cases hps
  | ok tokens =>
    rw [htokens] at hps
    cases hps
    have hprev : tokensFrom ({} : Context).prev [] false 0 e.text = .ok tokens := htokens
    have hdepth : Spaced.depthAfter ([] : List Nat).length e.parts = some 0 := e.balanced
    exact Spaced.exists_value_of_tokensFrom h e.areSeparate hdepth hprev

theorem compile_eq_normal_iff (e : Replaced) (start : Int) :
    compile .inferred start (String.ofList e.text) = .ok ⟨String.ofList e.normal.text, [], []⟩ ↔
      e.hasIndex = false ∧ e.readsBinary = false := by
  rw [compile, String.toList_ofList]
  constructor
  · intro h
    split at h
    · next ps hps =>
      have hvalues : ps.values start = [] := congrArg Compiled.values (Except.ok.inj h)
      have hnone : ¬(e.hasIndex = true ∨ e.readsBinary = true) := by
        intro hsome
        obtain ⟨l, hl⟩ := exists_value_of_skeleton hps hsome
        exact Skeleton.values_ne_nil hl start hvalues
      rw [not_or, Bool.not_eq_true, Bool.not_eq_true] at hnone
      exact hnone
    · cases h
  · rintro ⟨hindex, hbinary⟩
    rw [skeleton_text hindex hbinary]
    dsimp only
    rw [Skeleton.fill, Skeleton.names_verbatim, Skeleton.values_verbatim, Skeleton.text_verbatim]

/-- Placeholders pass through: a replaced expression compiles to itself up to white space and binds
nothing, whatever the start, exactly if it has no index and no comparison in it is read as a binary
literal. What it compiles to is then compiled to itself, exactly if no comparison in that is read as
a binary literal. Nothing but white space is left out. -/
theorem compile_replaced (e : Replaced) (start : Int) :
    (compile .inferred start (String.ofList e.text) = .ok ⟨String.ofList e.normal.text, [], []⟩ ↔
        e.hasIndex = false ∧ e.readsBinary = false) ∧
      (compile .inferred start (String.ofList e.normal.text) =
          .ok ⟨String.ofList e.normal.text, [], []⟩ ↔
        e.hasIndex = false ∧ e.normal.readsBinary = false) ∧
      e.normal.text.filter (fun c => !isBlank c) = e.text.filter fun c => !isBlank c := by
  have hagain := compile_eq_normal_iff e.normal start
  rw [normal_normal, hasIndex_normal] at hagain
  exact ⟨compile_eq_normal_iff e start, hagain, filter_normal e⟩

theorem compile_replaced_nested :
    nested.text = "not( size(#a.#b )>=:v , \n:w ) ".toList ∧
      compile .inferred 7 (String.ofList nested.text) =
        .ok ⟨String.ofList "not(size(#a.#b)>=:v, :w)".toList, [], []⟩ ∧
      compile .inferred 7 (String.ofList nested.normal.text) =
        .ok ⟨String.ofList nested.normal.text, [], []⟩ := by
  have hnormal : nested.normal.text = "not(size(#a.#b)>=:v, :w)".toList := by decide +kernel
  have hiff := compile_replaced nested 7
  have hindex : nested.hasIndex = false := by decide
  refine ⟨by decide +kernel, ?_, hiff.2.1.mpr ⟨hindex, by decide +kernel⟩⟩
  rw [← hnormal]
  exact hiff.1.mpr ⟨hindex, by decide +kernel⟩

/-- The digits of an index are bound as a number, and what stands between two angle brackets is
bound as a binary literal, also where the brackets are brought together by normalising. -/
theorem not_compile_replaced :
    (indexed.text = "#a[0] = :v".toList ∧
      ∃ c, compile .inferred 1 (String.ofList indexed.text) = .ok c ∧
        c.expression = "#a[:V1] = :v" ∧ c.placeholders = [":V1"]) ∧
    (reaching.text = "(#a<:v)AND(#b>:w)".toList ∧
      ∃ c, compile .inferred 1 (String.ofList reaching.text) = .ok c ∧
        c.expression = "(#a:V1:w)" ∧ c.placeholders = [":V1"]) ∧
    (settling.text = "(#a <size( #b))AND(#c>:d)".toList ∧
      (∃ c, compile .inferred 1 (String.ofList settling.text) = .ok c ∧
        c.expression = String.ofList settling.normal.text ∧ c.placeholders = []) ∧
      ∃ c, compile .inferred 1 (String.ofList settling.normal.text) = .ok c ∧
        c.expression = "(#a :V1:d)" ∧ c.placeholders = [":V1"]) :=
  ⟨⟨by decide +kernel, exists_ok_of_any (by decide +kernel)⟩,
    ⟨by decide +kernel, exists_ok_of_any (by decide +kernel)⟩,
    by decide +kernel, exists_ok_of_any (by decide +kernel), exists_ok_of_any (by decide +kernel)⟩

end Replaced

end ItemStore.Expression
