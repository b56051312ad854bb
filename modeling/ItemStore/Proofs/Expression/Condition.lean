import ItemStore.Proofs.Expression.Naming
import ItemStore.Proofs.Expression.Numbering

/-
  Conditions as they are written where literal types are inferred: a path or a call compared with
  a literal, a path between two literals or among some, a call, and these under NOT, AND, OR and
  parentheses, to any depth. `write` prints a condition with single spaces; `text` and `skeleton`
  are its two instances, with paths and literals as they are written and as holes.

  `compile_text`: the text of a condition compiles to its skeleton, with the holes numbered from
  one on. By induction on the condition its lexemes are legible, keep the depth of parentheses
  and yield the skeleton, in any context that a condition can stand in.

  Not covered: a path that starts as a number, and a path or function that is a bare keyword or
  literal word. They are read as something else.
-/

namespace ItemStore.Expression

open Text Lexeme Inferred

/-- A condition. -/
inductive Condition where
  | compare (p : Path) (op : Comparison) (l : Spelling)
  | between (p : Path) (low high : Spelling)
  | among (p : Path) (l : Spelling) (ls : List Spelling)
  | call (f : FunctionName) (p : Path)
  | callWith (f : FunctionName) (p : Path) (l : Spelling)
  | compareCall (f : FunctionName) (p : Path) (op : Comparison) (l : Spelling)
  | not (c : Condition)
  | paren (c : Condition)
  | and (c d : Condition)
  | or (c d : Condition)

namespace Condition

section Printing

variable {α : Type} (char : Char → α) (path : Path → List α) (literal : Spelling → List α)

/-- Characters as they are printed. -/
def chars (s : String) : List α :=
  s.toList.map char

/-- A condition printed with single spaces, its paths and literals in a given way. -/
def write : Condition → List α
  | .compare p op l => path p ++ chars char (" " ++ op.text ++ " ") ++ literal l
  | .between p low high =>
    path p ++ chars char " BETWEEN " ++ literal low ++ chars char " AND " ++ literal high
  | .among p l ls =>
    path p ++ chars char " IN (" ++ literal l ++
      ls.flatMap (fun l => chars char ", " ++ literal l) ++ chars char ")"
  | .call f p => f.name.text.map char ++ chars char "(" ++ path p ++ chars char ")"
  | .callWith f p l =>
    f.name.text.map char ++ chars char "(" ++ path p ++ chars char ", " ++ literal l ++
      chars char ")"
  | .compareCall f p op l =>
    f.name.text.map char ++ chars char "(" ++ path p ++ chars char ")" ++
      chars char (" " ++ op.text ++ " ") ++ literal l
  | .not c => chars char "NOT " ++ c.write
  | .paren c => chars char "(" ++ c.write ++ chars char ")"
  | .and c d => c.write ++ chars char " AND " ++ d.write
  | .or c d => c.write ++ chars char " OR " ++ d.write

end Printing

/-- A condition as text. -/
def text (c : Condition) : List Char :=
  c.write id Path.text Spelling.text

/-- The text of a condition with a hole for each segment of a path and for each literal. -/
def skeleton (c : Condition) : Skeleton :=
  c.write Piece.char Path.skeleton fun l => [.value l.literal]

/-! ## Lexemes -/

/-- Literals of a list behind the first. -/
def listed (ls : List Spelling) : List Lexeme :=
  ls.flatMap fun l => [comma, l.lexeme [' ']]

/-- The lexemes of a condition with a gap in front. -/
def lexemes (space : List Char) : Condition → List Lexeme
  | .compare p op l => [p.lexeme space, op.lexeme, l.lexeme [' ']]
  | .between p low high =>
    [p.lexeme space, Keyword.between.lexeme [' '], low.lexeme [' '], Keyword.and.lexeme [' '],
      high.lexeme [' ']]
  | .among p l ls =>
    p.lexeme space :: Keyword.in.lexeme [' '] :: openParen [' '] :: l.lexeme [] ::
      (listed ls ++ [closeParen])
  | .call f p => [f.lexeme space, openParen [], p.lexeme [], closeParen]
  | .callWith f p l =>
    [f.lexeme space, openParen [], p.lexeme [], comma, l.lexeme [' '], closeParen]
  | .compareCall f p op l =>
    [f.lexeme space, openParen [], p.lexeme [], closeParen, op.lexeme, l.lexeme [' ']]
  | .not c => Keyword.not.lexeme space :: c.lexemes [' ']
  | .paren c => openParen space :: (c.lexemes [] ++ [closeParen])
  | .and c d => c.lexemes space ++ Keyword.and.lexeme [' '] :: d.lexemes [' ']
  | .or c d => c.lexemes space ++ Keyword.or.lexeme [' '] :: d.lexemes [' ']

theorem print_listed (ls : List Spelling) :
    print (listed ls) = ls.flatMap fun l => ", ".toList ++ l.text := by
  rw [listed, print_flatMap]
  simp [print, comma, Spelling.lexeme]

/-- The lexemes of a condition print its text. -/
theorem print_lexemes (c : Condition) (space : List Char) :
    print (c.lexemes space) = space ++ c.text := by
  induction c generalizing space with
  | compare p op l =>
    simp [lexemes, text, write, chars, print, Path.lexeme, Comparison.lexeme, Spelling.lexeme]
  | between p low high =>
    simp [lexemes, text, write, chars, print, Path.lexeme, Keyword.lexeme, PlainName.lexeme,
      text_keyword, Keyword.text, Spelling.lexeme]
  | among p l ls =>
    simp [lexemes, text, write, chars, print, print_append, print_listed, Path.lexeme,
      Keyword.lexeme, PlainName.lexeme, text_keyword, Keyword.text, openParen, closeParen,
      Spelling.lexeme]
  | call f p =>
    simp [lexemes, text, write, chars, print, Path.lexeme, FunctionName.lexeme, PlainName.lexeme,
      openParen, closeParen]
  | callWith f p l =>
    simp [lexemes, text, write, chars, print, Path.lexeme, FunctionName.lexeme, PlainName.lexeme,
      openParen, closeParen, comma, Spelling.lexeme]
  | compareCall f p op l =>
    simp [lexemes, text, write, chars, print, Path.lexeme, FunctionName.lexeme, PlainName.lexeme,
      openParen, closeParen, Comparison.lexeme, Spelling.lexeme]
  | not c ih =>
    rw [lexemes, print, ih]
    simp [text, write, chars, Keyword.lexeme, PlainName.lexeme, text_keyword, Keyword.text]
  | paren c ih =>
    rw [lexemes, print, print_append, ih]
    simp [text, write, chars, print, openParen, closeParen]
  | and c d ihc ihd =>
    rw [lexemes, print_append, print, ihc, ihd]
    simp [text, write, chars, Keyword.lexeme, PlainName.lexeme, text_keyword, Keyword.text]
  | or c d ihc ihd =>
    rw [lexemes, print_append, print, ihc, ihd]
    simp [text, write, chars, Keyword.lexeme, PlainName.lexeme, text_keyword, Keyword.text]

/-! ## Reading -/

/-- The literals of a list are legible in front of what may follow a literal. -/
theorem legible_listed (prev : Option TokenKind) (ls : List Spelling) {rest : List Char}
    (h : Boundary rest) : Legible prev rest (listed ls) ∧ Boundary (print (listed ls) ++ rest) := by
  refine legible_flatMap (f := fun l => [comma, l.lexeme [' ']]) ?_ prev ls h
  intro l prev rest hrest
  exact ⟨⟨blank_nil, scans_comma _ _, blank_space, scans_spelling l rfl hrest, trivial⟩,
    boundary_cons.mpr rfl⟩

/-- The lexemes of a condition are legible where hyphens join names, in front of what may follow
a literal. -/
theorem legible_lexemes (c : Condition) {space rest : List Char} {prev : Option TokenKind}
    (hspace : ∀ c ∈ space, isBlank c = true) (hjoins : joinsNames (before prev) = true)
    (h : Boundary rest) : Legible prev rest (c.lexemes space) := by
  induction c generalizing space rest prev with
  | compare p op l =>
    exact ⟨hspace, scans_path p hjoins (boundary_cons.mpr rfl), blank_space,
      scans_comparison _ op _, blank_space, scans_spelling l rfl h, trivial⟩
  | between p low high =>
    exact ⟨hspace, scans_path p hjoins (boundary_cons.mpr rfl), blank_space,
      scans_keyword .between (boundary_cons.mpr rfl), blank_space,
      scans_spelling low (valueExpected_keyword .between) (boundary_cons.mpr rfl), blank_space,
      scans_keyword .and (boundary_cons.mpr rfl), blank_space,
      scans_spelling high (valueExpected_keyword .and) h, trivial⟩
  | among p l ls =>
    have hclose : Boundary (print [closeParen] ++ rest) := boundary_cons.mpr rfl
    have hlisted := legible_listed (some l.kind) ls hclose
    refine ⟨hspace, scans_path p hjoins (boundary_cons.mpr rfl), blank_space,
      scans_keyword .in (boundary_cons.mpr rfl), blank_space, scans_openParen _ _ _, blank_nil,
      scans_spelling l rfl ?_, ?_⟩
    · rw [print_append, List.append_assoc]
      exact hlisted.2
    · exact legible_append.mpr ⟨hlisted.1, blank_nil, scans_closeParen _ _, trivial⟩
  | call f p =>
    exact ⟨hspace, scans_functionName f hjoins (boundary_cons.mpr rfl), blank_nil,
      scans_openParen _ _ _, blank_nil, scans_path p rfl (boundary_cons.mpr rfl), blank_nil,
      scans_closeParen _ _, trivial⟩
  | callWith f p l =>
    exact ⟨hspace, scans_functionName f hjoins (boundary_cons.mpr rfl), blank_nil,
      scans_openParen _ _ _, blank_nil, scans_path p rfl (boundary_cons.mpr rfl), blank_nil,
      scans_comma _ _, blank_space, scans_spelling l rfl (boundary_cons.mpr rfl), blank_nil,
      scans_closeParen _ _, trivial⟩
  | compareCall f p op l =>
    exact ⟨hspace, scans_functionName f hjoins (boundary_cons.mpr rfl), blank_nil,
      scans_openParen _ _ _, blank_nil, scans_path p rfl (boundary_cons.mpr rfl), blank_nil,
      scans_closeParen _ _, blank_space, scans_comparison _ op _, blank_space,
      scans_spelling l rfl h, trivial⟩
  | not c ih =>
    refine ⟨hspace, scans_keyword .not ?_, ih blank_space rfl h⟩
    rw [print_lexemes]
    exact boundary_cons.mpr rfl
  | paren c ih =>
    have hclose : Boundary (print [closeParen] ++ rest) := boundary_cons.mpr rfl
    exact ⟨hspace, scans_openParen _ _ _, legible_append.mpr
      ⟨ih blank_nil rfl hclose, blank_nil, scans_closeParen _ _, trivial⟩⟩
  | and c d ihc ihd =>
    refine legible_append.mpr ⟨ihc hspace hjoins (boundary_cons.mpr rfl), blank_space,
      scans_keyword .and ?_, ihd blank_space rfl h⟩
    rw [print_lexemes]
    exact boundary_cons.mpr rfl
  | or c d ihc ihd =>
    refine legible_append.mpr ⟨ihc hspace hjoins (boundary_cons.mpr rfl), blank_space,
      scans_keyword .or ?_, ihd blank_space rfl h⟩
    rw [print_lexemes]
    exact boundary_cons.mpr rfl

theorem depthAfter_listed (depth : Nat) (ls : List Spelling) :
    depthAfter depth (listed ls) = some depth :=
  depthAfter_flatMap (fun l depth => depthAfter_cons rfl
    (depthAfter_cons (depthStep_spelling l depth) rfl)) depth ls

/-- A condition closes the parentheses that it opens. -/
theorem depthAfter_lexemes (c : Condition) (space : List Char) (depth : Nat) :
    depthAfter depth (c.lexemes space) = some depth := by
  induction c generalizing space depth with
  | compare p op l =>
    exact depthAfter_cons rfl (depthAfter_cons rfl (depthAfter_cons (depthStep_spelling l _) rfl))
  | between p low high =>
    exact depthAfter_cons rfl (depthAfter_cons rfl (depthAfter_cons (depthStep_spelling low _)
      (depthAfter_cons rfl (depthAfter_cons (depthStep_spelling high _) rfl))))
  | among p l ls =>
    refine depthAfter_cons rfl (depthAfter_cons rfl (depthAfter_cons rfl
      (depthAfter_cons (depthStep_spelling l _) ?_)))
    rw [depthAfter_append _ (depthAfter_listed _ ls)]
    rfl
  | call f p => rfl
  | callWith f p l =>
    exact depthAfter_cons rfl (depthAfter_cons rfl (depthAfter_cons rfl (depthAfter_cons rfl
      (depthAfter_cons (depthStep_spelling l _) rfl))))
  | compareCall f p op l =>
    exact depthAfter_cons rfl (depthAfter_cons rfl (depthAfter_cons rfl (depthAfter_cons rfl
      (depthAfter_cons rfl (depthAfter_cons (depthStep_spelling l _) rfl)))))
  | not c ih => exact depthAfter_cons rfl (ih _ _)
  | paren c ih =>
    refine depthAfter_cons rfl ?_
    rw [depthAfter_append _ (ih _ _)]
    rfl
  | and c d ihc ihd =>
    rw [lexemes, depthAfter_append _ (ihc _ _)]
    exact depthAfter_cons rfl (ihd _ _)
  | or c d ihc ihd =>
    rw [lexemes, depthAfter_append _ (ihc _ _)]
    exact depthAfter_cons rfl (ihd _ _)

/-! ## Naming -/

/-- A condition ends in a literal or a closing parenthesis. -/
theorem exists_last (c : Condition) (space : List Char) :
    ∃ xs x, c.lexemes space = xs ++ [x] ∧ (x.kind != .openParen) = true := by
  induction c generalizing space with
  | compare p op l =>
    exact ⟨[p.lexeme space, op.lexeme], l.lexeme [' '], rfl, not_openParen_spelling l⟩
  | between p low high =>
    exact ⟨[p.lexeme space, Keyword.between.lexeme [' '], low.lexeme [' '],
      Keyword.and.lexeme [' ']], high.lexeme [' '], rfl, not_openParen_spelling high⟩
  | among p l ls =>
    exact ⟨p.lexeme space :: Keyword.in.lexeme [' '] :: openParen [' '] :: l.lexeme [] :: listed ls,
      closeParen, rfl, rfl⟩
  | call f p => exact ⟨[f.lexeme space, openParen [], p.lexeme []], closeParen, rfl, rfl⟩
  | callWith f p l =>
    exact ⟨[f.lexeme space, openParen [], p.lexeme [], comma, l.lexeme [' ']], closeParen, rfl, rfl⟩
  | compareCall f p op l =>
    exact ⟨[f.lexeme space, openParen [], p.lexeme [], closeParen, op.lexeme], l.lexeme [' '], rfl,
      not_openParen_spelling l⟩
  | not c ih =>
    obtain ⟨xs, x, hlast, hx⟩ := ih [' ']
    exact ⟨Keyword.not.lexeme space :: xs, x, congrArg _ hlast, hx⟩
  | paren c ih => exact ⟨openParen space :: c.lexemes [], closeParen, rfl, rfl⟩
  | and c d ihc ihd =>
    obtain ⟨xs, x, hlast, hx⟩ := ihd [' ']
    refine ⟨c.lexemes space ++ Keyword.and.lexeme [' '] :: xs, x, ?_, hx⟩
    rw [lexemes, hlast, List.append_assoc]
    rfl
  | or c d ihc ihd =>
    obtain ⟨xs, x, hlast, hx⟩ := ihd [' ']
    refine ⟨c.lexemes space ++ Keyword.or.lexeme [' '] :: xs, x, ?_, hx⟩
    rw [lexemes, hlast, List.append_assoc]
    rfl

/-- After a condition a space may stand. -/
theorem prev_after_lexemes (c : Condition) (ctx : Context) (space : List Char) (offset : Nat) :
    ((place offset (c.lexemes space)).foldl Context.after ctx).prev.any
      (fun p => p.kind != .openParen) = true := by
  obtain ⟨xs, x, hlast, hx⟩ := exists_last c space
  obtain ⟨offset', hprev⟩ := prev_after_place ctx xs x offset
  rw [hlast, hprev]
  exact hx

theorem yields_listed {ctx : Context} (ls : List Spelling) {xs : List Lexeme} {qs : Skeleton}
    (offset : Nat)
    (h : ∀ ctx offset, Yields ctx (place offset xs) qs) :
    Yields ctx (place offset (listed ls ++ xs))
      (ls.flatMap (fun l => Skeleton.verbatim ", ".toList ++ [.value l.literal]) ++ qs) := by
  induction ls generalizing ctx offset with
  | nil => exact h ctx offset
  | cons l ls ih => exact yields_comma (yields_spelling rfl rfl (ih _))

/-- The lexemes of a condition yield its skeleton in any context. -/
theorem yields_lexemes (c : Condition) (ctx : Context) (space : List Char) (offset : Nat) :
    Yields ctx (place offset (c.lexemes space)) (lead ctx.prev space ++ c.skeleton) := by
  induction c generalizing ctx space offset with
  | compare p op l =>
    have h := yields_lexeme_before ctx (p.lexeme space) offset rfl
      (pieces_path (isNamePosition_of_operator rfl)) (yields_comparison op l _ rfl)
    refine h.of_eq ?_
    simp [skeleton, write, chars, Skeleton.verbatim, Path.lexeme]
  | between p low high =>
    have hrest : ∀ ctx offset, ctx.prev.any (fun p => p.kind != .openParen) = true →
        Yields ctx (place offset [Keyword.between.lexeme [' '], low.lexeme [' '],
          Keyword.and.lexeme [' '], high.lexeme [' ']]) _ :=
      fun ctx offset hp => yields_keyword .between offset hp
        (yields_spelling (expectsValue_keyword _ _ _) rfl
          (yields_keyword .and _ (not_openParen_spelling low)
            (yields_spelling (expectsValue_keyword _ _ _) rfl (yields_nil _))))
    have h := yields_lexeme_before ctx (p.lexeme space) offset rfl
      (pieces_path (isNamePosition_of_isRange rfl [' '] _)) (hrest _ _ rfl)
    refine h.of_eq ?_
    simp [skeleton, write, chars, Skeleton.verbatim, Path.lexeme, Keyword.text]
  | among p l ls =>
    have hlist : ∀ ctx offset, Yields ctx (place offset (listed ls ++ [closeParen]))
        (ls.flatMap (fun l => Skeleton.verbatim ", ".toList ++ [.value l.literal]) ++
          Skeleton.verbatim [')']) :=
      fun _ offset => yields_listed ls offset fun _ _ => yields_closeParen (yields_nil _)
    have hfirst := fun (ctx : Context) offset =>
      yields_lexeme (ctx.after ((openParen [' ']).token (offset + 1))) (l.lexeme [])
        (offset + 1 + 1) (takesSpace_spelling l) (pieces_spelling rfl l [] _) (hlist _ _)
    have hopen := fun (ctx : Context) offset =>
      yields_lexeme ctx (openParen [' ']) offset rfl (pieces_openParen ctx [' '] _)
        (hfirst ctx offset)
    have h := yields_lexeme_before ctx (p.lexeme space) offset rfl
      (pieces_path (isNamePosition_of_isRange rfl [' '] _))
      (yields_keyword .in _ rfl (hopen _ _))
    refine h.of_eq ?_
    rw [show (l.lexeme []).gap = [] from rfl, lead_nil, show (openParen [' ']).gap = [' '] from rfl,
      lead_space rfl]
    simp [skeleton, write, chars, Skeleton.verbatim, Path.lexeme, Keyword.text]
  | call f p =>
    have hrest : ∀ ctx offset, Yields ctx (place offset [closeParen]) (Skeleton.verbatim [')']) :=
      fun _ _ => yields_closeParen (yields_nil _)
    refine (yields_call f p offset rfl hrest).of_eq ?_
    simp [skeleton, write, chars, Skeleton.verbatim]
  | callWith f p l =>
    have hrest : ∀ ctx offset, Yields ctx (place offset [comma, l.lexeme [' '], closeParen])
        (Skeleton.verbatim [','] ++ .char ' ' :: .value l.literal :: Skeleton.verbatim [')']) :=
      fun _ _ => yields_comma (yields_spelling rfl rfl (yields_closeParen (yields_nil _)))
    refine (yields_call f p offset rfl hrest).of_eq ?_
    simp [skeleton, write, chars, Skeleton.verbatim]
  | compareCall f p op l =>
    have hrest : ∀ ctx offset, Yields ctx (place offset [closeParen, op.lexeme, l.lexeme [' ']])
        (Skeleton.verbatim [')'] ++ .char ' ' ::
          (Skeleton.verbatim op.text.toList ++ [.char ' ', .value l.literal])) :=
      fun _ _ => yields_closeParen (yields_comparison op l _ rfl)
    refine (yields_call f p offset rfl hrest).of_eq ?_
    simp [skeleton, write, chars, Skeleton.verbatim]
  | not c ih =>
    have h := yields_lexeme ctx (Keyword.not.lexeme space) offset rfl
      (pieces_keyword ctx .not space _) (ih _ [' '] _)
    refine h.of_eq ?_
    rw [lead_space rfl]
    simp [skeleton, write, chars, Skeleton.verbatim, Keyword.text, Keyword.lexeme, PlainName.lexeme]
  | paren c ih =>
    have hinner : ∀ ctx offset, Yields ctx (place offset (c.lexemes [] ++ [closeParen]))
        (lead ctx.prev [] ++ c.skeleton ++ Skeleton.verbatim [')']) := by
      intro ctx offset
      rw [place_append]
      exact (ih ctx [] offset).append (yields_closeParen (yields_nil _))
    have h := yields_lexeme ctx (openParen space) offset rfl
      (pieces_openParen ctx space _) (hinner _ _)
    refine h.of_eq ?_
    rw [lead_nil]
    simp [skeleton, write, chars, Skeleton.verbatim, openParen]
  | and c d ihc ihd =>
    have hd := yields_keyword .and (offset + (print (c.lexemes space)).length)
      (prev_after_lexemes c ctx space offset) (ihd _ [' '] _)
    have h := (ihc ctx space offset).append hd
    rw [lexemes, place_append]
    refine h.of_eq ?_
    rw [lead_space rfl]
    simp [skeleton, write, chars, Skeleton.verbatim, Keyword.text]
  | or c d ihc ihd =>
    have hd := yields_keyword .or (offset + (print (c.lexemes space)).length)
      (prev_after_lexemes c ctx space offset) (ihd _ [' '] _)
    have h := (ihc ctx space offset).append hd
    rw [lexemes, place_append]
    refine h.of_eq ?_
    rw [lead_space rfl]
    simp [skeleton, write, chars, Skeleton.verbatim, Keyword.text]

/-! ## Conditions compiled -/

/-- The text of a condition has the condition's skeleton. -/
theorem skeleton_text (c : Condition) :
    Expression.skeleton .inferred c.text = .ok c.skeleton := by
  have hlegible : Legible none [] (c.lexemes []) := legible_lexemes c blank_nil rfl boundary_nil
  have hprint := skeleton_print blank_nil hlegible (depthAfter_lexemes c [] 0)
  have hyields := yields_lexemes c {} [] 0 []
  rw [List.append_nil, lead_nil] at hyields
  rw [print_lexemes, List.nil_append, List.append_nil, hyields] at hprint
  rw [hprint]
  exact congrArg _ (List.append_nil _)

/-- The text of a condition compiles to the same text with a name for each segment of its paths
and a value for each of its literals, numbered from one on, from left to right. -/
theorem compile_text (c : Condition) :
    ∃ compiled, compile .inferred 1 (String.ofList c.text) = .ok compiled ∧
      Skeleton.Numbered 1 c.skeleton compiled := by
  refine ⟨c.skeleton.fill 1, ?_, Skeleton.fill_numbered 1 c.skeleton (by decide)⟩
  rw [compile, String.toList_ofList, skeleton_text]

/-- A quoted name with an index, among a number with a sign and a literal word. -/
example :
    (among ⟨⟨.quoted '\x60' "x.y".toList (by decide) (by decide),
        [⟨['0'], nofun, forall_mem_of_all (by decide)⟩]⟩, [], rfl, fun _ => rfl⟩
      (.number ⟨true, ⟨['5'], nofun, forall_mem_of_all (by decide)⟩, none⟩)
      [.word ⟨"Null".toList, .null, .inl ⟨by decide, rfl⟩⟩]).text =
        "\x60x.y\x60[0] IN (-5, Null)".toList := by
  decide +kernel

end Condition

end ItemStore.Expression
