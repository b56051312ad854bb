import ItemStore.Proofs.Expression.Condition

/-
  Updates as they are written where literal types are inferred: clauses in any order and number,
  SET with assignments, REMOVE with paths, ADD and DELETE with changes, each with its items
  between commas. `write` prints an update with single spaces; `text` and `skeleton` are its two
  instances, with paths and literals as they are written and as holes.

  `compile_update`: the text of an update compiles to its skeleton, with the holes numbered from
  one on. The kinds of items differ in what stands in them, not in how a clause lists them:
  `IsItem` says what a clause asks of its items, and clauses and updates need no more than that.

  Not covered: what is not covered of conditions, and an unquoted hyphen in the first name behind
  an equals sign. There it is read as a subtraction.
-/

namespace ItemStore.Expression

open Text Lexeme Inferred Condition

/-- What a path is set to. -/
inductive Term where
  | literal (l : Spelling)
  | shifted (q : PlainPath) (op : Arithmetic) (l : Spelling)
  | call (f : PlainFunction) (q : Path) (l : Spelling)
  | shiftedCall (f : PlainFunction) (q : Path) (l : Spelling) (op : Arithmetic) (m : Spelling)

/-- An item of SET. -/
structure Assignment where
  target : Path
  term : Term

/-- An item of ADD and of DELETE. -/
structure Change where
  target : Path
  operand : Operand

/-- A clause of an update. -/
inductive Clause where
  | set (x : Assignment) (xs : List Assignment)
  | remove (p : Path) (ps : List Path)
  | add (x : Change) (xs : List Change)
  | delete (x : Change) (xs : List Change)

/-- An update: clauses, at least one. -/
structure Update where
  first : Clause
  rest : List Clause

section Printing

variable {α : Type} (char : Char → α) (path : Path → List α) (literal : Spelling → List α)

/-- A call printed with its two arguments. -/
def Term.writeCall (f : PlainFunction) (q : Path) (l : Spelling) : List α :=
  f.name.text.map char ++ chars char "(" ++ path q ++ chars char ", " ++ literal l ++
    chars char ")"

/-- A term printed with single spaces. -/
def Term.write : Term → List α
  | .literal l => literal l
  | .shifted q op l => path q.toPath ++ chars char (" " ++ op.text ++ " ") ++ literal l
  | .call f q l => writeCall char path literal f q l
  | .shiftedCall f q l op m =>
    writeCall char path literal f q l ++ chars char (" " ++ op.text ++ " ") ++ literal m

/-- An assignment printed with single spaces. -/
def Assignment.write (x : Assignment) : List α :=
  path x.target ++ chars char " = " ++ x.term.write char path literal

/-- A change printed with single spaces. -/
def Change.write (x : Change) : List α :=
  path x.target ++ chars char " " ++ literal x.operand.literal

namespace Clause

/-- Items behind a keyword, between commas. -/
def writeItems {β : Type} (k : Keyword) (item : β → List α) (y : β) (ys : List β) : List α :=
  chars char (k.text ++ " ") ++ item y ++ ys.flatMap fun y => chars char ", " ++ item y

/-- A clause printed with single spaces. -/
def write : Clause → List α
  | .set x xs => writeItems char .set (Assignment.write char path literal) x xs
  | .remove p ps => writeItems char .remove path p ps
  | .add x xs => writeItems char .add (Change.write char path literal) x xs
  | .delete x xs => writeItems char .delete (Change.write char path literal) x xs

end Clause

/-- An update printed with single spaces. -/
def Update.write (u : Update) : List α :=
  u.first.write char path literal ++
    u.rest.flatMap fun c => chars char " " ++ c.write char path literal

end Printing

/-! ## Items -/

/-- An item of a clause can start here: the clause is open at this depth, and its keyword or a
comma stands in front. -/
structure StartsItem (k : Keyword) (ctx : Context) : Prop where
  isOpen : ctx.place.clause = some (k, ctx.place.depth)
  follows : ∃ t, ctx.prev = some t ∧ (t.kind = .comma ∨ t.keyword? = some k)

/-- An item of a clause can end here. -/
structure EndsItem (k : Keyword) (ctx : Context) : Prop where
  isOpen : ctx.place.clause = some (k, ctx.place.depth)
  closed : ctx.prev.any (fun p => p.kind != .openParen) = true

/-- What a clause asks of its items: they are printed as their text with a space in front, legible
where hyphens join names, keep the depth of parentheses, and yield their skeleton in the clause. -/
structure IsItem {β : Type} (k : Keyword) (item : β → List Lexeme) (text : β → List Char)
    (skeleton : β → Skeleton) : Prop where
  print_eq : ∀ y, print (item y) = ' ' :: text y
  legible : ∀ y prev rest, joinsNames (before prev) = true → Boundary rest →
    Legible prev rest (item y)
  depth_eq : ∀ y depth, depthAfter depth (item y) = some depth
  yields : ∀ ctx y offset, StartsItem k ctx →
    YieldsApart ctx (place offset (item y)) (.char ' ' :: skeleton y)
  ends : ∀ ctx y offset, StartsItem k ctx →
    EndsItem k ((place offset (item y)).foldl Context.after ctx)

theorem StartsItem.closed {k : Keyword} {ctx : Context} (h : StartsItem k ctx) :
    ctx.prev.any (fun p => p.kind != .openParen) = true := by
  obtain ⟨-, t, hprev, ht⟩ := h
  rw [hprev, Option.any_some]
  rcases ht with hcomma | hkeyword
  · rw [hcomma]
    rfl
  · -- a keyword is a path
    rw [bne_iff_ne]
    intro hparen
    rw [Token.keyword?, Token.bareWord?, hparen] at hkeyword
    cases hkeyword

theorem StartsItem.startsOperand {k : Keyword} {ctx : Context} (h : StartsItem k ctx)
    (hk : k.takesOperands = true) : startsOperand ctx = true := by
  obtain ⟨hopen, t, hprev, ht⟩ := h
  rw [Expression.startsOperand, hprev, Option.any_some, Option.any_some]
  rcases ht with hcomma | hkeyword
  · rw [separatesOperands, hopen, hcomma]
    simp [hk]
  · rw [Token.isKeyword, hkeyword, Option.any_some, hk, Bool.true_or]

/-! ## Places -/

theorem place_foldl_after (ctx : Context) (ts : List Token) :
    (ts.foldl Context.after ctx).place = ts.foldl Place.after ctx.place := by
  induction ts generalizing ctx with
  | nil => rfl
  | cons t ts ih => exact ih (ctx.after t)

/-- What is neither a parenthesis nor a keyword leaves the place as it is. -/
theorem place_after_eq {p : Place} {t : Token} (hopen : t.kind ≠ .openParen)
    (hclose : t.kind ≠ .closeParen) (hkeyword : t.keyword? = none) : p.after t = p := by
  unfold Place.after
  split
  · next h => exact absurd h hopen
  · next h => exact absurd h hclose
  · rw [hkeyword]

theorem place_after_path (p : Place) (q : Path) (space : List Char) (offset : Nat) :
    p.after ((q.lexeme space).token offset) = p :=
  place_after_eq nofun nofun (keyword?_of_not_reserved fun _ => isReserved_of_bareWord? q)

theorem place_after_spelling (p : Place) (l : Spelling) (space : List Char) (offset : Nat) :
    p.after ((l.lexeme space).token offset) = p := by
  cases l with
  | word w => exact place_after_eq nofun nofun (ofWord?_of_isLiteralWord w.isLiteral)
  | _ => rfl

theorem place_after_functionName (p : Place) (f : FunctionName) (space : List Char)
    (offset : Nat) : p.after ((f.lexeme space).token offset) = p := by
  refine place_after_eq nofun nofun (keyword?_of_not_reserved fun word hword => ?_)
  rw [← Option.some.inj (show some f.name.text = some word from hword)]
  exact f.notReserved

/-- A keyword of a clause opens it at its place. -/
theorem startsItem_after_keyword {k : Keyword} (hk : k.opensClause = true) (ctx : Context)
    (space : List Char) (offset : Nat) :
    StartsItem k (ctx.after ((k.lexeme space).token offset)) := by
  have hkeyword := keyword?_keyword k space offset
  have hplace : ctx.place.after ((k.lexeme space).token offset) =
      { ctx.place with clause := some (k, ctx.place.depth) } := by
    unfold Place.after
    rw [hkeyword]
    exact if_pos hk
  refine ⟨?_, _, rfl, .inr hkeyword⟩
  rw [Context.after, hplace]

/-- What leaves the place as it is and opens nothing can end an item. -/
theorem StartsItem.ends {k : Keyword} {ctx : Context} {ts : List Token} (h : StartsItem k ctx)
    (hplace : ts.foldl Place.after ctx.place = ctx.place)
    (hclosed : (ts.foldl Context.after ctx).prev.any (fun p => p.kind != .openParen) = true) :
    EndsItem k (ts.foldl Context.after ctx) := by
  refine ⟨?_, hclosed⟩
  rw [place_foldl_after, hplace]
  exact h.isOpen

/-- A comma behind an item stands in front of the next. -/
theorem EndsItem.comma {k : Keyword} {ctx : Context} (h : EndsItem k ctx) (offset : Nat) :
    StartsItem k (ctx.after (comma.token offset)) :=
  ⟨h.isOpen, _, rfl, .inl rfl⟩

/-! ## Terms -/

namespace Term

/-- The lexemes of a call behind a space, with its two arguments. -/
def callLexemes (f : PlainFunction) (q : Path) (l : Spelling) : List Lexeme :=
  [f.toFunctionName.lexeme [' '], openParen [], q.lexeme [], comma, l.lexeme [' '], closeParen]

/-- The lexemes of a term behind a space. -/
def lexemes : Term → List Lexeme
  | .literal l => [l.lexeme [' ']]
  | .shifted q op l => [q.toPath.lexeme [' '], op.lexeme, l.lexeme [' ']]
  | .call f q l => callLexemes f q l
  | .shiftedCall f q l op m => callLexemes f q l ++ [op.lexeme, m.lexeme [' ']]

theorem print_callLexemes (f : PlainFunction) (q : Path) (l : Spelling) :
    print (callLexemes f q l) = ' ' :: writeCall id Path.text Spelling.text f q l := by
  simp [callLexemes, writeCall, chars, print, Path.lexeme, FunctionName.lexeme, PlainName.lexeme,
    openParen, closeParen, comma, Spelling.lexeme]

theorem print_lexemes (t : Term) :
    print t.lexemes = ' ' :: t.write id Path.text Spelling.text := by
  cases t with
  | literal l => simp [lexemes, write, print, Spelling.lexeme]
  | shifted q op l =>
    simp [lexemes, write, chars, print, Path.lexeme, Arithmetic.lexeme, Spelling.lexeme]
  | call f q l => exact print_callLexemes f q l
  | shiftedCall f q l op m =>
    rw [lexemes, print_append, print_callLexemes]
    simp [write, chars, print, Arithmetic.lexeme, Spelling.lexeme]

theorem legible_callLexemes (f : PlainFunction) (q : Path) (l : Spelling)
    (prev : Option TokenKind) (rest : List Char) : Legible prev rest (callLexemes f q l) :=
  ⟨blank_space, scans_plainFunction f (boundary_cons.mpr rfl), blank_nil, scans_openParen _ _ _,
    blank_nil, scans_path q rfl (boundary_cons.mpr rfl), blank_nil, scans_comma _ _, blank_space,
    scans_spelling l rfl (boundary_cons.mpr rfl), blank_nil, scans_closeParen _ _, trivial⟩

/-- A term is legible behind an operator. -/
theorem legible_lexemes (t : Term) {rest : List Char} (h : Boundary rest) :
    Legible (some .operator) rest t.lexemes := by
  cases t with
  | literal l => exact ⟨blank_space, scans_spelling l rfl h, trivial⟩
  | shifted q op l =>
    exact ⟨blank_space, scans_plainPath q (boundary_cons.mpr rfl), blank_space,
      scans_arithmetic _ op _, blank_space, scans_spelling l rfl h, trivial⟩
  | call f q l => exact legible_callLexemes f q l _ rest
  | shiftedCall f q l op m =>
    exact legible_append.mpr ⟨legible_callLexemes f q l _ _, blank_space, scans_arithmetic _ op _,
      blank_space, scans_spelling m rfl h, trivial⟩

theorem depthAfter_callLexemes (f : PlainFunction) (q : Path) (l : Spelling) (depth : Nat) :
    depthAfter depth (callLexemes f q l) = some depth :=
  depthAfter_cons rfl (depthAfter_cons rfl (depthAfter_cons rfl (depthAfter_cons rfl
    (depthAfter_cons (depthStep_spelling l _) rfl))))

theorem depthAfter_lexemes (t : Term) (depth : Nat) :
    depthAfter depth t.lexemes = some depth := by
  cases t with
  | literal l => exact depthAfter_cons (depthStep_spelling l _) rfl
  | shifted q op l =>
    exact depthAfter_cons rfl (depthAfter_cons rfl (depthAfter_cons (depthStep_spelling l _) rfl))
  | call f q l => exact depthAfter_callLexemes f q l depth
  | shiftedCall f q l op m =>
    rw [lexemes, depthAfter_append _ (depthAfter_callLexemes f q l depth)]
    exact depthAfter_cons rfl (depthAfter_cons (depthStep_spelling m _) rfl)

/-- A term with a hole for each segment of a path and for each literal. -/
def skeleton (t : Term) : Skeleton :=
  t.write Piece.char Path.skeleton fun l => [.value l.literal]

/-- A term yields its skeleton behind an operator. -/
theorem yields_lexemes (t : Term) {ctx : Context} (offset : Nat) {p : Token}
    (hprev : ctx.prev = some p) (hp : p.kind = .operator) :
    Yields ctx (place offset t.lexemes) (.char ' ' :: t.skeleton) := by
  have hvalue : ctx.prev.any Token.expectsValue = true := by
    rw [hprev, Option.any_some, Token.expectsValue, hp]
    rfl
  have hclosed : ctx.prev.any (fun p => p.kind != .openParen) = true := by
    rw [hprev, Option.any_some, hp]
    rfl
  cases t with
  | literal l => exact yields_spelling hvalue hclosed (yields_nil _)
  | shifted q op l =>
    have h := yields_lexeme_before ctx (q.toPath.lexeme [' ']) offset rfl
      (pieces_path (isNamePosition_of_operator rfl))
      (yields_operator (x := op.lexeme) rfl rfl l _ rfl)
    refine h.of_eq ?_
    rw [show (q.toPath.lexeme [' ']).gap = [' '] from rfl, lead_space hclosed]
    simp [skeleton, write, chars, Skeleton.verbatim, Arithmetic.lexeme]
  | call f q l =>
    have hrest : ∀ ctx offset, Yields ctx (place offset [comma, l.lexeme [' '], closeParen])
        (Skeleton.verbatim [','] ++ .char ' ' :: .value l.literal :: Skeleton.verbatim [')']) :=
      fun _ _ => yields_comma (yields_spelling rfl rfl (yields_closeParen (yields_nil _)))
    refine (yields_call f.toFunctionName q offset rfl hrest).of_eq ?_
    rw [lead_space hclosed]
    simp [skeleton, write, writeCall, chars, Skeleton.verbatim]
  | shiftedCall f q l op m =>
    have hrest : ∀ ctx offset,
        Yields ctx (place offset [comma, l.lexeme [' '], closeParen, op.lexeme, m.lexeme [' ']])
        (Skeleton.verbatim [','] ++ .char ' ' :: .value l.literal :: (Skeleton.verbatim [')'] ++
          .char ' ' :: (Skeleton.verbatim op.text.toList ++ [.char ' ', .value m.literal]))) :=
      fun _ _ => yields_comma (yields_spelling rfl rfl (yields_closeParen
        (yields_operator (x := op.lexeme) rfl rfl m _ rfl)))
    refine (yields_call f.toFunctionName q offset rfl hrest).of_eq ?_
    rw [lead_space hclosed]
    simp [skeleton, write, writeCall, chars, Skeleton.verbatim]

/-- A term leaves the place as it is. -/
theorem place_after_lexemes (t : Term) (p : Place) (offset : Nat) :
    (place offset t.lexemes).foldl Place.after p = p := by
  have hcall : ∀ f q l offset, (place offset (callLexemes f q l)).foldl Place.after p = p := by
    intro f q l offset
    simp only [callLexemes, place, List.foldl_cons, List.foldl_nil, place_after_functionName,
      place_after_path, place_after_spelling]
    rfl
  cases t with
  | literal l => exact place_after_spelling p l _ _
  | shifted q op l =>
    simp only [lexemes, place, List.foldl_cons, List.foldl_nil, place_after_path,
      place_after_spelling]
    rfl
  | call f q l => exact hcall f q l offset
  | shiftedCall f q l op m =>
    rw [lexemes, place_append, List.foldl_append, hcall]
    simp only [place, List.foldl_cons, List.foldl_nil, place_after_spelling]
    rfl

/-- A term ends in a literal or a closing parenthesis. -/
theorem closed_after_lexemes (t : Term) (ctx : Context) (offset : Nat) :
    ((place offset t.lexemes).foldl Context.after ctx).prev.any
      (fun p => p.kind != .openParen) = true := by
  cases t with
  | literal l => exact not_openParen_spelling l
  | shifted q op l => exact not_openParen_spelling l
  | call f q l => rfl
  | shiftedCall f q l op m => exact not_openParen_spelling m

end Term

/-! ## The items of clauses -/

/-- The lexemes of an assignment behind a space. -/
def Assignment.lexemes (x : Assignment) : List Lexeme :=
  x.target.lexeme [' '] :: Comparison.eq.lexeme :: x.term.lexemes

theorem isItem_assignment : IsItem .set Assignment.lexemes
    (Assignment.write id Path.text Spelling.text)
    (Assignment.write Piece.char Path.skeleton fun l => [.value l.literal]) where
  print_eq := by
    intro x
    rw [Assignment.lexemes, print, print, Term.print_lexemes]
    simp [Assignment.write, chars, Path.lexeme, Comparison.lexeme, Comparison.text]
  legible := by
    intro x prev rest hjoins h
    refine ⟨blank_space, scans_path x.target hjoins (boundary_cons.mpr rfl), blank_space, ?_,
      Term.legible_lexemes x.term h⟩
    rw [Term.print_lexemes]
    exact scans_comparison _ .eq _
  depth_eq := fun x depth => depthAfter_cons rfl (depthAfter_cons rfl
    (Term.depthAfter_lexemes x.term depth))
  yields := by
    intro ctx x offset hstart
    have hterm : ∀ (ctx : Context) offset offset',
        Yields (ctx.after (Comparison.eq.lexeme.token offset)) (place offset' x.term.lexemes)
          (.char ' ' :: x.term.skeleton) :=
      fun _ _ offset' => Term.yields_lexemes x.term offset' rfl rfl
    have hassign := fun (ctx : Context) offset => yields_lexeme ctx Comparison.eq.lexeme offset rfl
      (pieces_operator rfl ctx _) (hterm ctx _ _)
    have h := yields_lexeme_before ctx (x.target.lexeme [' ']) offset rfl
      (pieces_path (isNamePosition_of_operator rfl)) (hassign _ _)
    refine (h.of_eq ?_).apart
    rw [show (x.target.lexeme [' ']).gap = [' '] from rfl, lead_space hstart.closed,
      show Comparison.eq.lexeme.gap = [' '] from rfl, lead_space rfl]
    simp [Assignment.write, Term.skeleton, chars, Skeleton.verbatim, Comparison.lexeme,
      Comparison.text]
  ends := by
    intro ctx x offset hstart
    refine hstart.ends ?_ (Term.closed_after_lexemes x.term _ _)
    simp only [Assignment.lexemes, place, List.foldl_cons, place_after_path,
      Term.place_after_lexemes]
    rfl

/-- The lexemes of a change behind a space. -/
def Change.lexemes (x : Change) : List Lexeme :=
  [x.target.lexeme [' '], x.operand.literal.lexeme [' ']]

theorem isItem_change {k : Keyword} (hk : k.takesOperands = true) : IsItem k Change.lexemes
    (Change.write id Path.text Spelling.text)
    (Change.write Piece.char Path.skeleton fun l => [.value l.literal]) where
  print_eq := by
    intro x
    simp [Change.lexemes, Change.write, chars, print, Path.lexeme, Spelling.lexeme]
  legible := fun x _ _ hjoins h => ⟨blank_space,
    scans_path x.target hjoins (boundary_cons.mpr rfl), blank_space, scans_operand x.operand h,
    trivial⟩
  depth_eq := fun x depth => depthAfter_cons rfl
    (depthAfter_cons (depthStep_spelling x.operand.literal _) rfl)
  yields := by
    intro ctx x offset hstart
    refine (yieldsApart_operand x.target x.operand offset (hstart.startsOperand hk)
      hstart.closed).of_eq ?_
    simp [Change.write, chars]
  ends := by
    intro ctx x offset hstart
    refine hstart.ends ?_ (not_openParen_spelling x.operand.literal)
    simp only [Change.lexemes, place, List.foldl_cons, List.foldl_nil, place_after_path,
      place_after_spelling]

theorem isItem_path {k : Keyword} (hk : k.takesOperands = true) :
    IsItem k (fun p => [p.lexeme [' ']]) Path.text Path.skeleton where
  print_eq := fun p => by simp [print, Path.lexeme]
  legible := fun p _ _ hjoins h => ⟨blank_space, scans_path p hjoins h, trivial⟩
  depth_eq := fun _ _ => rfl
  yields := fun _ p offset hstart =>
    yieldsApart_path p offset (hstart.startsOperand hk) hstart.closed
  ends := fun ctx p _ hstart => hstart.ends (place_after_path ctx.place p _ _) rfl

/-! ## Clauses -/

namespace Clause

section Items

variable {β : Type} {k : Keyword} {item : β → List Lexeme} {text : β → List Char}
  {skeleton : β → Skeleton}

/-- The lexemes of a clause with a gap in front. -/
def itemLexemes (space : List Char) (k : Keyword) (item : β → List Lexeme) (y : β)
    (ys : List β) : List Lexeme :=
  k.lexeme space :: (item y ++ ys.flatMap fun y => comma :: item y)

theorem print_itemLexemes (h : IsItem k item text skeleton) (space : List Char) (y : β)
    (ys : List β) : print (itemLexemes space k item y ys) = space ++ writeItems id k text y ys := by
  rw [itemLexemes, print, print_append, print_flatMap, h.print_eq]
  simp [print, h.print_eq, writeItems, chars, comma, Keyword.lexeme, PlainName.lexeme,
    text_keyword]

theorem legible_itemLexemes (h : IsItem k item text skeleton) {space rest : List Char}
    (hspace : ∀ c ∈ space, isBlank c = true) (prev : Option TokenKind) (y : β) (ys : List β)
    (hrest : Boundary rest) : Legible prev rest (itemLexemes space k item y ys) := by
  have hitems := legible_flatMap (f := fun y => comma :: item y)
    (fun y _ _ hrest => ⟨⟨blank_nil, scans_comma _ _, h.legible y _ _ rfl hrest⟩,
      boundary_cons.mpr rfl⟩) (kindAfter (some (k.lexeme space).kind) (item y)) ys hrest
  refine ⟨hspace, scans_keyword k ?_, legible_append.mpr ⟨h.legible y _ _ rfl hitems.2, hitems.1⟩⟩
  rw [print_append, h.print_eq]
  exact boundary_cons.mpr rfl

theorem depthAfter_itemLexemes (h : IsItem k item text skeleton) (space : List Char) (y : β)
    (ys : List β) (depth : Nat) :
    depthAfter depth (itemLexemes space k item y ys) = some depth := by
  refine depthAfter_cons rfl ?_
  rw [depthAfter_append _ (h.depth_eq y depth)]
  exact depthAfter_flatMap (fun y depth => depthAfter_cons rfl (h.depth_eq y depth)) depth ys

/-- A comma yields itself, and an item behind it its skeleton. -/
theorem yields_commaItem (h : IsItem k item text skeleton) {ctx : Context} (y : β) (offset : Nat)
    (hend : EndsItem k ctx) :
    YieldsApart ctx (place offset (comma :: item y)) (.char ',' :: .char ' ' :: skeleton y) ∧
      EndsItem k ((place offset (comma :: item y)).foldl Context.after ctx) := by
  have hstart := hend.comma offset
  have hcomma : Yields ctx (place offset [comma]) [.char ','] := yields_comma (yields_nil _)
  exact ⟨hcomma.appendApart (h.yields _ y (offset + 1) hstart), h.ends _ y (offset + 1) hstart⟩

/-- A clause yields its keyword and its items, and ends where an item can end. -/
theorem yields_itemLexemes (h : IsItem k item text skeleton) (hk : k.opensClause = true)
    (ctx : Context) (space : List Char) (offset : Nat) (y : β) (ys : List β) :
    YieldsApart ctx (place offset (itemLexemes space k item y ys))
        (lead ctx.prev space ++ writeItems Piece.char k skeleton y ys) ∧
      EndsItem k ((place offset (itemLexemes space k item y ys)).foldl Context.after ctx) := by
  have hstart := startsItem_after_keyword hk ctx space (offset + space.length)
  have hkeyword : Yields ctx (place offset [k.lexeme space])
      (lead ctx.prev space ++ Skeleton.verbatim k.text.toList ++ []) :=
    yields_lexeme ctx (k.lexeme space) offset rfl (pieces_keyword ctx k space _) (yields_nil _)
  have hfirst := h.yields _ y (offset + space.length + k.name.text.length) hstart
  have hend := h.ends _ y (offset + space.length + k.name.text.length) hstart
  obtain ⟨hrest, hlast⟩ := yieldsApart_flatMap (P := EndsItem k) (f := fun y => comma :: item y)
    (fun y => apart_place rfl (item y)) (fun _ y offset => yields_commaItem h y offset) _ ys
    (offset + space.length + k.name.text.length + (print (item y)).length) hend
  have hall := hkeyword.appendApart (hfirst.append (apart_flatMap
    (fun y => apart_place (x := comma) rfl (item y)) ys _) hrest)
  rw [← place_append] at hall
  refine ⟨hall.of_eq ?_, ?_⟩
  · simp [writeItems, chars, Skeleton.verbatim]
  · rw [itemLexemes, place, place_append, List.foldl_cons, List.foldl_append]
    exact hlast

end Items

/-- The lexemes of a clause with a gap in front. -/
def lexemes (space : List Char) : Clause → List Lexeme
  | .set x xs => itemLexemes space .set Assignment.lexemes x xs
  | .remove p ps => itemLexemes space .remove (fun p => [p.lexeme [' ']]) p ps
  | .add x xs => itemLexemes space .add Change.lexemes x xs
  | .delete x xs => itemLexemes space .delete Change.lexemes x xs

/-- A clause as text. -/
def text (c : Clause) : List Char :=
  c.write id Path.text Spelling.text

/-- A clause with a hole for each segment of a path and for each literal. -/
def skeleton (c : Clause) : Skeleton :=
  c.write Piece.char Path.skeleton fun l => [.value l.literal]

theorem print_lexemes (c : Clause) (space : List Char) :
    print (c.lexemes space) = space ++ c.text := by
  cases c with
  | set x xs => exact print_itemLexemes isItem_assignment space x xs
  | remove p ps => exact print_itemLexemes (isItem_path (k := .remove) rfl) space p ps
  | add x xs => exact print_itemLexemes (isItem_change (k := .add) rfl) space x xs
  | delete x xs => exact print_itemLexemes (isItem_change (k := .delete) rfl) space x xs

/-- A clause is legible behind any token. -/
theorem legible_lexemes (c : Clause) {space rest : List Char}
    (hspace : ∀ c ∈ space, isBlank c = true) (prev : Option TokenKind) (h : Boundary rest) :
    Legible prev rest (c.lexemes space) := by
  cases c with
  | set x xs => exact legible_itemLexemes isItem_assignment hspace prev x xs h
  | remove p ps => exact legible_itemLexemes (isItem_path (k := .remove) rfl) hspace prev p ps h
  | add x xs => exact legible_itemLexemes (isItem_change (k := .add) rfl) hspace prev x xs h
  | delete x xs => exact legible_itemLexemes (isItem_change (k := .delete) rfl) hspace prev x xs h

theorem depthAfter_lexemes (c : Clause) (space : List Char) (depth : Nat) :
    depthAfter depth (c.lexemes space) = some depth := by
  cases c with
  | set x xs => exact depthAfter_itemLexemes isItem_assignment space x xs depth
  | remove p ps => exact depthAfter_itemLexemes (isItem_path (k := .remove) rfl) space p ps depth
  | add x xs => exact depthAfter_itemLexemes (isItem_change (k := .add) rfl) space x xs depth
  | delete x xs => exact depthAfter_itemLexemes (isItem_change (k := .delete) rfl) space x xs depth

/-- A clause yields its skeleton in any context, and behind it a space may stand. -/
theorem yields_lexemes (c : Clause) (ctx : Context) (space : List Char) (offset : Nat) :
    YieldsApart ctx (place offset (c.lexemes space)) (lead ctx.prev space ++ c.skeleton) ∧
      ((place offset (c.lexemes space)).foldl Context.after ctx).prev.any
        (fun p => p.kind != .openParen) = true := by
  cases c with
  | set x xs =>
    exact (yields_itemLexemes isItem_assignment rfl ctx space offset x xs).imp_right (·.closed)
  | remove p ps =>
    exact (yields_itemLexemes (isItem_path rfl) rfl ctx space offset p ps).imp_right (·.closed)
  | add x xs =>
    exact (yields_itemLexemes (isItem_change rfl) rfl ctx space offset x xs).imp_right (·.closed)
  | delete x xs =>
    exact (yields_itemLexemes (isItem_change rfl) rfl ctx space offset x xs).imp_right (·.closed)

end Clause

/-! ## Updates -/

namespace Update

/-- An update as text. -/
def text (u : Update) : List Char :=
  u.write id Path.text Spelling.text

/-- The text of an update with a hole for each segment of a path and for each literal. -/
def skeleton (u : Update) : Skeleton :=
  u.write Piece.char Path.skeleton fun l => [.value l.literal]

/-- The lexemes of an update. -/
def lexemes (u : Update) : List Lexeme :=
  u.first.lexemes [] ++ u.rest.flatMap (Clause.lexemes [' '])

theorem print_lexemes (u : Update) : print u.lexemes = u.text := by
  rw [lexemes, print_append, print_flatMap, Clause.print_lexemes]
  simp [Clause.print_lexemes, text, write, Clause.text, chars]

theorem legible_lexemes (u : Update) : Legible none [] u.lexemes := by
  have hrest := legible_flatMap (f := Clause.lexemes [' '])
    (fun c prev rest h => ⟨c.legible_lexemes blank_space prev h, by
      rw [Clause.print_lexemes]
      exact boundary_cons.mpr rfl⟩)
    (kindAfter none (u.first.lexemes [])) u.rest boundary_nil
  exact legible_append.mpr ⟨u.first.legible_lexemes blank_nil none hrest.2, hrest.1⟩

theorem depthAfter_lexemes (u : Update) : depthAfter 0 u.lexemes = some 0 := by
  rw [lexemes, depthAfter_append _ (u.first.depthAfter_lexemes [] 0)]
  exact depthAfter_flatMap (fun c depth => c.depthAfter_lexemes [' '] depth) 0 u.rest

/-- The lexemes of an update yield its skeleton. -/
theorem skeletonFrom_lexemes (u : Update) : skeletonFrom {} (place 0 u.lexemes) = u.skeleton := by
  have hapart : ∀ (c : Clause) offset, Apart (place offset (c.lexemes [' '])) := by
    intro c offset
    cases c <;> exact apart_place rfl _ _
  obtain ⟨hfirst, hclosed⟩ := u.first.yields_lexemes {} [] 0
  have hclause : ∀ (ctx : Context) (c : Clause) offset,
      ctx.prev.any (fun p => p.kind != .openParen) = true →
        YieldsApart ctx (place offset (c.lexemes [' '])) (.char ' ' :: c.skeleton) ∧
          ((place offset (c.lexemes [' '])).foldl Context.after ctx).prev.any
            (fun p => p.kind != .openParen) = true := by
    intro ctx c offset hclosed
    have h := c.yields_lexemes ctx [' '] offset
    rw [lead_space hclosed] at h
    exact h
  obtain ⟨hrest, -⟩ := yieldsApart_flatMap hapart hclause _ u.rest
    (0 + (print (u.first.lexemes [])).length) hclosed
  have hall := hfirst.append (apart_flatMap hapart u.rest _) hrest [] apart_nil
  rw [← place_append, List.append_nil, lead_nil] at hall
  rw [lexemes, hall, skeletonFrom, List.append_nil]
  simp [skeleton, write, Clause.skeleton, chars]

/-- The text of an update has the update's skeleton. -/
theorem skeleton_text (u : Update) : Expression.skeleton .inferred u.text = .ok u.skeleton := by
  have hprint := skeleton_print blank_nil u.legible_lexemes u.depthAfter_lexemes
  rw [List.append_nil, print_lexemes, skeletonFrom_lexemes] at hprint
  exact hprint

/-- The text of an update compiles to the same text with a name for each segment of its paths
and a value for each of its literals, numbered from one on, from left to right. -/
theorem compile_update (u : Update) :
    ∃ compiled, compile .inferred 1 (String.ofList u.text) = .ok compiled ∧
      Skeleton.Numbered 1 u.skeleton compiled := by
  refine ⟨u.skeleton.fill 1, ?_, Skeleton.fill_numbered 1 u.skeleton (by decide)⟩
  rw [compile, String.toList_ofList, skeleton_text]

/-- A counter and a path that is removed. -/
example :
    (Update.mk (.set ⟨⟨⟨.plain ⟨⟨"n".toList, by decide, forall_mem_of_all (by decide)⟩, []⟩, []⟩,
        [], by decide, fun _ => by decide⟩,
      .shifted ⟨⟨⟨.quoted '\x60' "n".toList (by decide) (by decide), []⟩, [], rfl, fun _ => rfl⟩,
          by simp [Name.isHyphenated]⟩ .minus
        (.number ⟨true, ⟨['1'], nofun, forall_mem_of_all (by decide)⟩, none⟩)⟩ [])
      [.remove ⟨⟨.quoted '\x60' "x-y".toList (by decide) (by decide), []⟩, [], rfl,
        fun _ => rfl⟩ []]).text = "SET n = \x60n\x60 - -1 REMOVE \x60x-y\x60".toList := by
  decide +kernel

end Update

end ItemStore.Expression
