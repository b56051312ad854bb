import ItemStore.Proofs.Expression.Enclosed
import ItemStore.Proofs.Expression.Pieces

/-
  White space between tokens counts only by being there, where literal types are inferred. Another
  source with the same tokens, white space between the same ones of them and any white space around
  them (`Respells`) compiles to the same for every start, and what is compiled has its own white
  space in normal form (`Tidy`): single spaces, each between two characters, none behind an opening
  parenthesis or in front of a closing one or a comma (`compile_respaced`).

  The scan of a token sees what stands behind it up to the first white space and no further: white
  space seals what stands in front of it, even an angle bracket. Up to there the two sources have
  the same text (`exists_common`). The grammar asks of white space only whether it stands in front
  of a token, and for the first token not even that (`skeletonFrom_start`).

  For the normal form, a token is sent as one run of characters that are no white space
  (`IsRun`), and the space in front of it is the only one.
-/

namespace ItemStore.Expression

open Text Lexeme Inferred

/-! ## Other white space -/

namespace Lexeme

/-- A lexeme is a token with some white space in front, or with none, as the token has. -/
structure Spells (t : Token) (x : Lexeme) : Prop where
  kind_eq : x.kind = t.kind
  text_eq : x.text = t.text
  blank : ∀ c ∈ x.gap, isBlank c = true
  isEmpty_eq : x.gap.isEmpty = !t.spaced

/-- Lexemes are tokens with white space between the same ones of them, and any in front. -/
inductive Respells : List Token → List Lexeme → Prop
  | nil : Respells [] []
  | cons {t : Token} {x : Lexeme} {ts : List Token} {xs : List Lexeme} (kind_eq : x.kind = t.kind)
      (text_eq : x.text = t.text) (blank : ∀ c ∈ x.gap, isBlank c = true)
      (rest : List.Forall₂ Spells ts xs) : Respells (t :: ts) (x :: xs)

theorem Spells.token_eq {t : Token} {x : Lexeme} (h : Spells t x) : x.token t.offset = t := by
  rw [token, h.kind_eq, h.text_eq, h.isEmpty_eq, Bool.not_not]

/-- Legible lexemes spell their own tokens. -/
theorem spells_place {prev : Option TokenKind} {rest : List Char} {xs : List Lexeme}
    (h : Legible prev rest xs) (offset : Nat) : List.Forall₂ Spells (place offset xs) xs := by
  induction xs generalizing prev offset with
  | nil => exact .nil
  | cons x xs ih =>
    obtain ⟨hgap, -, hrest⟩ := h
    exact .cons ⟨rfl, rfl, hgap, (Bool.not_not _).symm⟩ (ih hrest _)

theorem respells_place {prev : Option TokenKind} {rest : List Char} {xs : List Lexeme}
    (h : Legible prev rest xs) (offset : Nat) : Respells (place offset xs) xs := by
  have hspells := spells_place h offset
  cases xs with
  | nil => exact .nil
  | cons x xs =>
    cases hspells with
    | cons hx hxs => exact .cons hx.kind_eq hx.text_eq hx.blank hxs

/-! ## Scanning -/

theorem seals_of_blank {z : List Char} (h : ∀ c ∈ z.head?, isBlank c = true) : Seals z := by
  refine ⟨fun c hc => ?_, unclosed_of_blank h⟩
  rw [isBarrier, isBoundary, h c hc]
  rfl

theorem seals_blank {z : List Char} (h : ∀ c ∈ z, isBlank c = true) : Seals z :=
  seals_of_blank fun c hc => h c (List.mem_of_mem_head? hc)

theorem seals_blank_append {z : List Char} (h : ∀ c ∈ z, isBlank c = true) (hne : z ≠ [])
    (rest : List Char) : Seals (z ++ rest) := by
  obtain ⟨d, ds, rfl⟩ := List.exists_cons_of_ne_nil hne
  refine seals_of_blank fun c hc => ?_
  rw [← Option.some.inj (show some d = some c from hc)]
  exact h d List.mem_cons_self

variable {tail tail' : List Char} {ts : List Token} {xs ys : List Lexeme}

/-- Up to the first white space behind the first of them, two spellings of tokens are the same. -/
theorem exists_common (ht : ∀ c ∈ tail, isBlank c = true) (ht' : ∀ c ∈ tail', isBlank c = true)
    (hx : List.Forall₂ Spells ts xs) (hy : List.Forall₂ Spells ts ys) :
    ∃ u z z', Seals z ∧ Seals z' ∧ print xs ++ tail = u ++ z ∧ print ys ++ tail' = u ++ z' := by
  induction hx generalizing ys with
  | nil =>
    cases hy
    exact ⟨[], tail, tail', seals_blank ht, seals_blank ht', rfl, rfl⟩
  | @cons t x ts xs htx _ ih =>
    cases hy with
    | @cons _ y _ ys hty hys =>
      cases hspaced : t.spaced with
      | false =>
        -- no white space in front of the token: both go on with its text
        obtain ⟨u, z, z', hz, hz', hu, hu'⟩ := ih hys
        have hgap := htx.isEmpty_eq
        have hgap' := hty.isEmpty_eq
        rw [hspaced, Bool.not_false, List.isEmpty_iff] at hgap hgap'
        rw [print, print, htx.text_eq, hty.text_eq, hgap, hgap']
        refine ⟨t.text ++ u, z, z', hz, hz', ?_, ?_⟩
        · rw [List.nil_append, List.append_assoc, hu, List.append_assoc]
        · rw [List.nil_append, List.append_assoc, hu', List.append_assoc]
      | true =>
        have hgap := htx.isEmpty_eq
        have hgap' := hty.isEmpty_eq
        rw [hspaced, Bool.not_true, List.isEmpty_eq_false_iff] at hgap hgap'
        rw [print, print]
        simp only [List.append_assoc]
        exact ⟨[], _, _, seals_blank_append htx.blank hgap _,
          seals_blank_append hty.blank hgap' _, rfl, rfl⟩

/-- A token is scanned in front of another spelling of the tokens behind it. -/
theorem Scans.respell (ht : ∀ c ∈ tail, isBlank c = true) (ht' : ∀ c ∈ tail', isBlank c = true)
    (hx : List.Forall₂ Spells ts xs) (hy : List.Forall₂ Spells ts ys) {prev : Option TokenKind}
    {x y : Lexeme} (hkind : y.kind = x.kind) (htext : y.text = x.text)
    (hs : Scans prev x (print xs ++ tail)) : Scans prev y (print ys ++ tail') := by
  obtain ⟨u, z, z', hz, hz', hu, hu'⟩ := exists_common ht ht' hx hy
  rw [hu, scans_append_iff hz] at hs
  rw [hu', scans_append_iff hz']
  obtain ⟨c, cs, hcons, hblank, hscan⟩ := hs
  exact ⟨c, cs, htext.trans hcons, hblank, hkind ▸ hscan⟩

theorem Legible.respell (ht : ∀ c ∈ tail, isBlank c = true) (ht' : ∀ c ∈ tail', isBlank c = true)
    (hx : List.Forall₂ Spells ts xs) (hy : List.Forall₂ Spells ts ys) {prev : Option TokenKind}
    (hl : Legible prev tail xs) : Legible prev tail' ys := by
  induction hx generalizing ys prev with
  | nil =>
    cases hy
    trivial
  | cons htx hxs ih =>
    cases hy with
    | cons hty hys =>
      obtain ⟨-, hscans, hrest⟩ := hl
      have hkind := hty.kind_eq.trans htx.kind_eq.symm
      have htext := hty.text_eq.trans htx.text_eq.symm
      refine ⟨hty.blank, hscans.respell ht ht' hxs hys hkind htext, ?_⟩
      rw [hkind]
      exact ih hys hrest

/-- Lexemes with other white space between and around them are legible too. -/
theorem Respells.legible (ht : ∀ c ∈ tail, isBlank c = true) (ht' : ∀ c ∈ tail', isBlank c = true)
    {prev : Option TokenKind} {offset : Nat} (hl : Legible prev tail xs)
    (h : Respells (place offset xs) ys) : Legible prev tail' ys := by
  cases xs with
  | nil =>
    cases h
    trivial
  | cons x xs =>
    obtain ⟨-, hscans, hrest⟩ := hl
    cases h with
    | cons hkind htext hblank hys =>
      have hxs := spells_place hrest (offset + x.gap.length + x.text.length)
      refine ⟨hblank, hscans.respell ht ht' hxs hys hkind htext, ?_⟩
      rw [hkind]
      exact hrest.respell ht ht' hxs hys

theorem depthAfter_of_kinds (h : ys.map kind = xs.map kind) (depth : Nat) :
    depthAfter depth ys = depthAfter depth xs := by
  have hmap : ∀ zs : List Lexeme, depthAfter depth zs = (zs.map kind).foldlM depthStep depth := by
    intro zs
    rw [List.foldlM_map, depthAfter]
  rw [hmap, hmap, h]

theorem Respells.kinds_eq (h : Respells ts xs) : xs.map kind = ts.map Token.kind := by
  cases h with
  | nil => rfl
  | cons hkind _ _ hrest =>
    rw [List.map_cons, List.map_cons, hkind]
    refine congrArg _ ?_
    induction hrest with
    | nil => rfl
    | cons hx _ ih => rw [List.map_cons, List.map_cons, hx.kind_eq, ih]

theorem kinds_place (offset : Nat) (xs : List Lexeme) :
    (place offset xs).map Token.kind = xs.map kind := by
  induction xs generalizing offset with
  | nil => rfl
  | cons x xs ih => rw [place, List.map_cons, List.map_cons, ih, token]

end Lexeme

/-! ## What is sent -/

theorem skeletonFrom_spelled {ts : List Token} {xs : List Lexeme} (h : List.Forall₂ Spells ts xs)
    {ctx ctx' : Context} (hctx : ctx.Alike ctx') (offset : Nat) :
    skeletonFrom ctx ts = skeletonFrom ctx' (place offset xs) := by
  induction h generalizing ctx ctx' offset with
  | nil => rfl
  | @cons t x ts xs htx hrest ih =>
    have hx := Alike.lexeme x t.offset (offset + x.gap.length)
    have hnext : Option.Rel Alike ts.head?
        (place (offset + x.gap.length + x.text.length) xs).head? := by
      cases hrest with
      | nil => exact .none
      | @cons u y _ _ huy _ =>
        rw [place, ← huy.token_eq]
        exact .some (.lexeme y _ _)
    rw [← htx.token_eq, place, skeletonFrom, skeletonFrom, gap_of_alike hctx.prev hx,
      pieces_of_alike hctx x _ _ hnext, ih (hctx.after hx)]

/-- White space in front of the first token is not sent, and no other token asks for it. -/
theorem skeletonFrom_start (kind : TokenKind) (text : List Char) (offset : Nat)
    (spaced spaced' : Bool) (us : List Token) :
    skeletonFrom {} (⟨kind, text, offset, spaced⟩ :: us) =
      skeletonFrom {} (⟨kind, text, offset, spaced'⟩ :: us) := by
  cases us with
  | nil => rfl
  | cons u us =>
    cases us with
    | nil => rfl
    | cons v us => rfl

theorem skeletonFrom_respelled {ts : List Token} {xs : List Lexeme} (h : Respells ts xs)
    (offset : Nat) : skeletonFrom {} ts = skeletonFrom {} (place offset xs) := by
  cases h with
  | nil => rfl
  | @cons t x ts xs hkind htext _ hrest =>
    obtain ⟨kind, text, start, spaced⟩ := t
    obtain ⟨gap, kind', text'⟩ := x
    obtain rfl : kind' = kind := hkind
    obtain rfl : text' = text := htext
    have hspelled : List.Forall₂ Spells (⟨kind', text', start, false⟩ :: ts)
        (⟨[], kind', text'⟩ :: xs) := .cons ⟨rfl, rfl, nofun, rfl⟩ hrest
    calc skeletonFrom {} (⟨kind', text', start, spaced⟩ :: ts)
        = skeletonFrom {} (⟨kind', text', start, false⟩ :: ts) := skeletonFrom_start _ _ _ _ _ _
      _ = skeletonFrom {} (place (offset + gap.length) (⟨[], kind', text'⟩ :: xs)) :=
          skeletonFrom_spelled hspelled (.refl {}) _
      _ = skeletonFrom {} (place offset (⟨gap, kind', text'⟩ :: xs)) :=
          skeletonFrom_start _ _ _ _ _ _

/-! ## Normal form -/

/-- White space in normal form: single spaces, each between two characters, none behind an opening
parenthesis or in front of a closing one or a comma. -/
def Tidy (cs : List Char) : Prop :=
  ∀ front c back, cs = front ++ c :: back → isBlank c = true →
    c = ' ' ∧ (∃ d ∈ front.getLast?, isBlank d = false ∧ d ≠ '(') ∧
      ∃ d ∈ back.head?, isBlank d = false ∧ d ≠ ')' ∧ d ≠ ','

/-- White space is in normal form behind a character. -/
def TidyAfter (prev : Option Char) : List Char → Prop
  | [] => True
  | c :: cs =>
    (isBlank c = true → c = ' ' ∧ (∃ d ∈ prev, isBlank d = false ∧ d ≠ '(') ∧
      ∃ d ∈ cs.head?, isBlank d = false ∧ d ≠ ')' ∧ d ≠ ',') ∧
    TidyAfter (some c) cs

theorem getLast?_cons_or (c : Char) (cs : List Char) (prev : Option Char) :
    (c :: cs).getLast?.or prev = cs.getLast?.or (some c) := by
  rw [List.getLast?_cons]
  cases cs.getLast? <;> rfl

theorem TidyAfter.tidy {cs : List Char} (h : TidyAfter none cs) : Tidy cs := by
  have key : ∀ (front back : List Char) (c : Char) (prev : Option Char),
      TidyAfter prev (front ++ c :: back) → isBlank c = true →
        c = ' ' ∧ (∃ d ∈ front.getLast?.or prev, isBlank d = false ∧ d ≠ '(') ∧
          ∃ d ∈ back.head?, isBlank d = false ∧ d ≠ ')' ∧ d ≠ ',' := by
    intro front back c
    induction front with
    | nil => exact fun prev h hc => h.1 hc
    | cons f front ih =>
      intro prev h hc
      rw [getLast?_cons_or]
      exact ih (some f) h.2 hc
  rintro front c back rfl hc
  have hkey := key front back c none h hc
  rwa [Option.or_none] at hkey

/-- The text of a token of a kind where it is sent: no white space, and no parenthesis or comma of
another kind. -/
structure IsRun (kind : TokenKind) (cs : List Char) : Prop where
  ne_nil : cs ≠ []
  isBlank_of_mem : ∀ c ∈ cs, isBlank c = false
  not_open : kind ≠ .openParen → '(' ∉ cs
  not_close : takesSpace kind = true → ')' ∉ cs ∧ ',' ∉ cs

/-- A space may stand behind the last character of a run, unless it is an opening parenthesis. -/
theorem IsRun.exists_last {kind : TokenKind} {cs : List Char} (h : IsRun kind cs) :
    ∃ d, cs.getLast? = some d ∧ isBlank d = false ∧ (kind ≠ .openParen → d ≠ '(') := by
  obtain ⟨d, hd⟩ := Option.isSome_iff_exists.mp (List.getLast?_isSome.mpr h.ne_nil)
  have hmem := List.mem_of_getLast? hd
  refine ⟨d, hd, h.isBlank_of_mem d hmem, fun hkind => ?_⟩
  rintro rfl
  exact h.not_open hkind hmem

/-- A space may stand in front of the first, unless it closes a parenthesis or is a comma. -/
theorem IsRun.exists_head {kind : TokenKind} {cs : List Char} (h : IsRun kind cs)
    (hspace : takesSpace kind = true) (rest : List Char) :
    ∃ d ∈ (cs ++ rest).head?, isBlank d = false ∧ d ≠ ')' ∧ d ≠ ',' := by
  obtain ⟨hclose, hcomma⟩ := h.not_close hspace
  obtain ⟨d, ds, rfl⟩ := List.exists_cons_of_ne_nil h.ne_nil
  refine ⟨d, rfl, h.isBlank_of_mem d List.mem_cons_self, ?_, ?_⟩
  · rintro rfl
    exact hclose List.mem_cons_self
  · rintro rfl
    exact hcomma List.mem_cons_self

theorem isRun_of_isInk {cs : List Char} (hne : cs ≠ []) (h : ∀ c ∈ cs, isInk c = true)
    (kind : TokenKind) : IsRun kind cs := by
  have hsign : ∀ d, isInk d = false → d ∉ cs := fun d hd hmem => ne_of_class (h d hmem) hd rfl
  refine ⟨hne, fun c hc => ?_, fun _ => hsign '(' (by decide +kernel),
    fun _ => ⟨hsign ')' (by decide +kernel), hsign ',' (by decide +kernel)⟩⟩
  rw [← Bool.not_eq_true]
  intro hblank
  have hbarrier := (isInk_eq_true_iff.mp (h c hc)).1
  rw [isBarrier, isBoundary, hblank] at hbarrier
  cases hbarrier

theorem text_ne_nil {ps : Skeleton} (h : ps ≠ []) (start : Int) : ps.text start ≠ [] := by
  cases ps with
  | nil => exact absurd rfl h
  | cons p ps => cases p <;> exact List.cons_ne_nil _ _

theorem isRun_sign {s : TokenKind × Char} (hs : s ∈ signs) : IsRun s.1 [s.2] := by
  have hblank : ∀ s ∈ signs, isBlank s.2 = false := forall_mem_of_all (by decide +kernel)
  refine ⟨List.cons_ne_nil _ _, List.forall_mem_singleton.mpr (hblank s hs), ?_, ?_⟩
  all_goals
    simp only [signs, List.mem_cons, List.not_mem_nil, or_false] at hs
    rcases hs with rfl | rfl | rfl
  · exact fun h => absurd rfl h
  · exact fun _ => by decide
  · exact fun _ => by decide
  · exact fun _ => by decide
  · exact nofun
  · exact nofun

theorem isRun_pieces {prev : Option TokenKind} {x : Lexeme} {rest : List Char}
    (h : Scans prev x rest) (ctx : Context) (offset : Nat) (next : Option Token) (start : Int) :
    IsRun x.kind ((pieces ctx (x.token offset) next).text start) := by
  rcases inked_pieces h ctx offset next with hink | ⟨s, hs, hkind, hpieces⟩
  · refine isRun_of_isInk (text_ne_nil (pieces_ne_nil h ctx offset next) start) ?_ x.kind
    exact fun c hc => (isInk_of_mem_text hc).elim (hink c) id
  · rw [hpieces, hkind]
    exact isRun_sign hs

theorem TidyAfter.append {run cs : List Char} (hr : ∀ c ∈ run, isBlank c = false)
    {prev : Option Char} (h : TidyAfter (run.getLast?.or prev) cs) :
    TidyAfter prev (run ++ cs) := by
  induction run generalizing prev with
  | nil => exact h
  | cons c run ih =>
    rw [List.forall_mem_cons] at hr
    refine ⟨fun hc => ?_, ih hr.2 ?_⟩
    · rw [hr.1] at hc
      cases hc
    · rwa [getLast?_cons_or] at h

/-- Tokens are sent in normal form: where a space may stand in front of one, the character that is
sent before it may have a space behind it. -/
theorem tidyAfter_text {prev : Option TokenKind} {tail : List Char} {xs : List Lexeme}
    (hl : Legible prev tail xs) (ctx : Context) (offset : Nat) (start : Int) (last : Option Char)
    (hlast : ctx.prev.any (fun p => p.kind != .openParen) = true →
      ∃ d ∈ last, isBlank d = false ∧ d ≠ '(') :
    TidyAfter last ((skeletonFrom ctx (place offset xs)).text start) := by
  induction xs generalizing prev ctx offset start last with
  | nil => trivial
  | cons x xs ih =>
    obtain ⟨-, hscans, hrest⟩ := hl
    rw [place, skeletonFrom, List.append_assoc, Skeleton.text_append, Skeleton.text_append]
    generalize ht : x.token (offset + x.gap.length) = t
    generalize hts : place (offset + x.gap.length + x.text.length) xs = ts
    generalize start + ((gap ctx.prev t).holes.length : Int) = index
    have hrun : IsRun x.kind ((pieces ctx t ts.head?).text index) :=
      ht ▸ isRun_pieces hscans ctx _ _ index
    obtain ⟨d, hd, hblank, hopen⟩ := hrun.exists_last
    have hbehind : ∀ last, TidyAfter last ((pieces ctx t ts.head?).text index ++
        (skeletonFrom (ctx.after t) ts).text (index + (pieces ctx t ts.head?).holes.length)) := by
      intro last
      refine .append hrun.isBlank_of_mem ?_
      rw [hd, ← hts]
      refine ih hrest _ _ _ _ fun hprev => ⟨d, rfl, hblank, hopen ?_⟩
      rw [← ht] at hprev
      exact bne_iff_ne.mp hprev
    rw [Inferred.gap]
    split
    · next hgap =>
      simp only [Bool.and_eq_true] at hgap
      obtain ⟨⟨⟨hprev, -⟩, hclose⟩, hcomma⟩ := hgap
      have hspace : takesSpace x.kind = true := by
        rw [← ht] at hclose hcomma
        exact Bool.and_eq_true_iff.mpr ⟨hclose, hcomma⟩
      exact ⟨fun _ => ⟨rfl, hlast hprev, hrun.exists_head hspace _⟩, hbehind (some ' ')⟩
    · exact hbehind last

/-! ## Compiled expressions -/

/-- A source that compiles is its tokens with white space between and around them. With other white
space, in the same places between them and in any around them, it compiles to the same for every
start; and the white space of what is compiled is in normal form. -/
theorem compile_respaced {source : String} {start : Int} {c : Compiled}
    (h : compile .inferred start source = .ok c) :
    Tidy c.expression.toList ∧ ∃ tokens, tokenize source.toList = .ok tokens ∧
      (∃ xs tail, Respells tokens xs ∧ (∀ d ∈ tail, isBlank d = true) ∧
        source.toList = print xs ++ tail) ∧
      ∀ ys tail', Respells tokens ys → (∀ d ∈ tail', isBlank d = true) → ∀ start',
        ∃ c', compile .inferred start' source = .ok c' ∧
          compile .inferred start' (String.ofList (print ys ++ tail')) = .ok c' := by
  obtain ⟨tokens, htokens, rfl⟩ := exists_tokens h
  obtain ⟨xs, tail, htail, hlegible, hdepth, hsource, rfl⟩ := tokenize_eq_ok_iff.mp htokens
  refine ⟨?_, _, htokens, ⟨xs, tail, respells_place hlegible 0, htail, hsource⟩,
    fun ys tail' hys htail' start' => ⟨(skeletonFrom {} (place 0 xs)).fill start', ?_, ?_⟩⟩
  · rw [Skeleton.fill, String.toList_ofList]
    have hfirst : ({} : Context).prev.any (fun p => p.kind != .openParen) = true →
        ∃ d ∈ (none : Option Char), isBlank d = false ∧ d ≠ '(' :=
      fun h => absurd h Bool.false_ne_true
    exact (tidyAfter_text hlegible {} 0 start none hfirst).tidy
  · rw [compile, hsource, skeleton_print htail hlegible hdepth]
  · have hdepth' : depthAfter 0 ys = some 0 :=
      (depthAfter_of_kinds (hys.kinds_eq.trans (kinds_place 0 xs)) 0).trans hdepth
    rw [compile, String.toList_ofList,
      skeleton_print htail' (hys.legible htail htail' hlegible) hdepth',
      ← skeletonFrom_respelled hys 0]

/-- White space of several kinds in and around a comparison. -/
theorem compile_respaced_comparison :
    ∃ c, compile .inferred 1 "a >= 1" = .ok c ∧ Tidy c.expression.toList ∧
      compile .inferred 1 "\u2003a\n\u00a0>=\x1c\t1 " = .ok c := by
  have htokens : tokenize "a >= 1".toList = .ok [⟨.path [⟨['a'], [], false⟩], ['a'], 0, false⟩,
      ⟨.operator, ['>', '='], 2, true⟩, ⟨.number, ['1'], 5, true⟩] :=
    eq_ok_of_toOption (by decide +kernel)
  obtain ⟨c, hc, -⟩ : ∃ c, compile .inferred 1 "a >= 1" = .ok c ∧ c.expression = "#V1 >= :V2" :=
    exists_ok_of_any (by decide +kernel)
  obtain ⟨htidy, tokens, htokens', -, hrespaced⟩ := compile_respaced hc
  rw [htokens] at htokens'
  cases htokens'
  have hspells : Respells [⟨.path [⟨['a'], [], false⟩], ['a'], 0, false⟩,
      ⟨.operator, ['>', '='], 2, true⟩, ⟨.number, ['1'], 5, true⟩]
      [⟨"\u2003".toList, .path [⟨['a'], [], false⟩], ['a']⟩,
        ⟨"\n\u00a0".toList, .operator, ['>', '=']⟩, ⟨"\x1c\t".toList, .number, ['1']⟩] :=
    .cons rfl rfl (forall_mem_of_all (by decide +kernel))
      (.cons ⟨rfl, rfl, forall_mem_of_all (by decide +kernel), by decide +kernel⟩
        (.cons ⟨rfl, rfl, forall_mem_of_all (by decide +kernel), by decide +kernel⟩ .nil))
  obtain ⟨c', hc', hsame⟩ := hrespaced _ [' '] hspells (forall_mem_of_all (by decide +kernel)) 1
  rw [hc] at hc'
  cases hc'
  exact ⟨c, hc, htidy, hsame⟩

end ItemStore.Expression
