import ItemStore.Proofs.Expression.Chunks
import ItemStore.Proofs.Value.Entries

/-
  Placeholders handed out in turn. An expression is compiled in two steps, into a skeleton with
  holes that is then filled. Here it is done in one: an `Allocation` holds the next number and what
  the placeholders so far are bound to, tokens and literals are written with it as they are met, and
  the white space at both ends is that of the text written. `compile_eq_allocate`: the two are the
  same.

  The invariant is that an allocation is what some skeleton leaves (`after`). Each step goes on from
  there (`write_after`, `writeFrom_after`). As the placeholders of a skeleton are distinct, binding
  one more replaces no other (`bindName_after`, `bindValue_after`).
-/

namespace ItemStore.Expression

open Text Skeleton

/-- The next number, and what the placeholders with smaller ones stand for. -/
structure Allocation where
  next : Int
  names : List (String × String) := []
  values : List (String × Value) := []

namespace Allocation

/-! ## Writing with an allocation -/

/-- The next placeholder, bound to a name. -/
def bindName (a : Allocation) (key : List Char) : List Char × Allocation :=
  let placeholder := namePlaceholder a.next
  (placeholder, { a with
    next := a.next + 1
    names := Entries.insert (String.ofList placeholder) (String.ofList key) a.names })

/-- The next placeholder, bound to a value. -/
def bindValue (a : Allocation) (l : Literal) : List Char × Allocation :=
  let placeholder := valuePlaceholder a.next
  (placeholder, { a with
    next := a.next + 1
    values := Entries.insert (String.ofList placeholder) l.wire a.values })

/-- Pieces written from left to right, each hole with the next placeholder. -/
def write (a : Allocation) : Skeleton → List Char × Allocation
  | [] => ([], a)
  | .char c :: ps =>
    let (text, a) := a.write ps
    (c :: text, a)
  | .name key :: ps =>
    let (placeholder, a) := a.bindName key
    let (text, a) := a.write ps
    (placeholder ++ text, a)
  | .value l :: ps =>
    let (placeholder, a) := a.bindValue l
    let (text, a) := a.write ps
    (placeholder ++ text, a)

/-- A text with all that its placeholders stand for. -/
def compiled (a : Allocation) (text : List Char) : Compiled :=
  { expression := String.ofList text, names := a.names, values := a.values }

end Allocation

/-- Tokens written one after the other, each between its neighbours. -/
def Inferred.writeFrom (a : Allocation) (ctx : Context) : List Token → List Char × Allocation
  | [] => ([], a)
  | t :: ts =>
    let (text, a) := a.write (gap ctx.prev t ++ pieces ctx t ts.head?)
    let (more, a) := writeFrom a (ctx.after t) ts
    (text ++ more, a)

/-- The rest of a source written from an offset on, each literal as it is met. -/
def Tagged.writeFrom (source : List Char) (a : Allocation) (prev : Option Char) (offset : Nat)
    (cs : List Char) : Except Error (List Char × Allocation) :=
  match cs with
  | [] => .ok ([], a)
  | c :: cs =>
    match ho : opener? prev (c :: cs) with
    | none => (writeFrom source a (some c) (offset + 1) cs).map (Prod.map (c :: ·) id)
    | some (k, inner) =>
      match hp : payload? 0 inner with
      | none => .error ⟨.unclosedLiteral, source, offset⟩
      | some (payload, rest) =>
        have := opener?_length ho
        have := payload?_length hp
        match literal k payload source offset with
        | .error e => .error e
        | .ok pieces =>
          let (text, a) := a.write pieces
          (writeFrom source a (some ')') (offset + ((c :: cs).length - rest.length)) rest).map
            (Prod.map (text ++ ·) id)
termination_by cs.length
decreasing_by all_goals (simp only [List.length_cons] at *; omega)

/-- The compiled expression of a source, with placeholders handed out from `start` on. -/
def allocate (g : Grammar) (start : Int) (source : String) : Except Error Compiled :=
  let a : Allocation := { next := start }
  if source.toList.all isBlank then .ok (a.compiled [])
  else
    match g with
    | .inferred => (tokenize source.toList).map fun tokens =>
      let (text, a) := Inferred.writeFrom a {} tokens
      a.compiled text
    | .tagged => (Tagged.writeFrom source.toList a none 0 source.toList).map fun (text, a) =>
      a.compiled (trim isBlank text)

/-! ## What a skeleton leaves -/

namespace Allocation

/-- The allocation behind a skeleton that is written from `start` on. -/
def after (start : Int) (ps : Skeleton) : Allocation :=
  ⟨start + ps.holes.length, Skeleton.names start ps, Skeleton.values start ps⟩

/-- What is written of a skeleton behind another one, and the allocation behind both. -/
def filling (start : Int) (ps qs : Skeleton) : List Char × Allocation :=
  (text (start + ps.holes.length) qs, after start (ps ++ qs))

theorem filling_append (start : Int) (ps qs rs : Skeleton) :
    filling start ps (qs ++ rs) = ((filling start ps qs).1 ++ (filling start (ps ++ qs) rs).1,
      (filling start (ps ++ qs) rs).2) := by
  rw [filling, filling, filling, text_append, holes_append, List.length_append, List.append_assoc,
    Int.natCast_add, Int.add_assoc]

/-- A hole uses one number. -/
theorem next_hole (start : Int) (ps : Skeleton) {p : Piece} (h : (holes [p]).length = 1) :
    start + ((ps ++ [p]).holes.length : Int) = start + ps.holes.length + 1 := by
  rw [holes_append, List.length_append, h, Int.natCast_add, ← Int.add_assoc]
  rfl

/-- A hole for a name is bound to the next number. -/
theorem bindName_after (start : Int) (ps : Skeleton) (key : List Char) :
    (after start ps).bindName key = filling start ps [Piece.name key] := by
  have hnodup := nodup_names start (ps ++ [Piece.name key])
  have hvalues : Skeleton.values start (ps ++ [Piece.name key]) = Skeleton.values start ps := by
    rw [Skeleton.values_append]
    exact List.append_nil _
  rw [Skeleton.names_append] at hnodup
  rw [filling, after, after, next_hole start ps rfl, hvalues, Skeleton.names_append,
    ← Entries.merge_of_nodup (fun f _ => Entries.sole_of_lawful f.1) hnodup, text, text,
    List.append_nil]
  rfl

/-- A hole for a value is bound to the next number. -/
theorem bindValue_after (start : Int) (ps : Skeleton) (l : Literal) :
    (after start ps).bindValue l = filling start ps [Piece.value l] := by
  have hnodup := nodup_values start (ps ++ [Piece.value l])
  have hnames : Skeleton.names start (ps ++ [Piece.value l]) = Skeleton.names start ps := by
    rw [Skeleton.names_append]
    exact List.append_nil _
  rw [Skeleton.values_append] at hnodup
  rw [filling, after, after, next_hole start ps rfl, hnames, Skeleton.values_append,
    ← Entries.merge_of_nodup (fun f _ => Entries.sole_of_lawful f.1) hnodup, text, text,
    List.append_nil]
  rfl

/-- Characters use no number. -/
theorem after_char (start : Int) (ps : Skeleton) (c : Char) :
    after start (ps ++ [Piece.char c]) = after start ps := by
  rw [after, holes_append, Skeleton.names_append, Skeleton.values_append, after]
  simp [holes, Skeleton.names, Skeleton.values]

/-- Writing goes on from what a skeleton leaves. -/
theorem write_after (start : Int) (ps qs : Skeleton) :
    (after start ps).write qs = filling start ps qs := by
  induction qs generalizing ps with
  | nil => rw [write, filling, List.append_nil]; rfl
  | cons q qs ih =>
    rw [← List.singleton_append, filling_append, ← ih, List.singleton_append]
    cases q with
    | char c =>
      rw [after_char]
      rfl
    | name key =>
      rw [write, bindName_after]
      rfl
    | value l =>
      rw [write, bindValue_after]
      rfl

end Allocation

open Allocation

/-! ## Both grammars -/

theorem Inferred.writeFrom_after (start : Int) (ps : Skeleton) (ctx : Context)
    (tokens : List Token) :
    writeFrom (after start ps) ctx tokens = filling start ps (skeletonFrom ctx tokens) := by
  induction tokens generalizing ps ctx with
  | nil => rw [writeFrom, skeletonFrom, filling, List.append_nil]; rfl
  | cons t tokens ih =>
    rw [skeletonFrom, filling_append, ← ih, writeFrom, write_after]
    rfl

section

variable {source cs inner payload rest : List Char} {prev : Option Char} {offset : Nat}
  {k : Tagged.Constructor} (a : Allocation)

namespace Tagged

theorem writeFrom_of_none {c : Char} (ho : opener? prev (c :: cs) = none) :
    writeFrom source a prev offset (c :: cs) =
      (writeFrom source a (some c) (offset + 1) cs).map (Prod.map (c :: ·) id) := by
  rw [writeFrom]
  split
  · rfl
  · next heq =>
    rw [ho] at heq
    cases heq

theorem writeFrom_of_unclosed {c : Char} (ho : opener? prev (c :: cs) = some (k, inner))
    (hp : payload? 0 inner = none) :
    writeFrom source a prev offset (c :: cs) = .error ⟨.unclosedLiteral, source, offset⟩ := by
  rw [writeFrom]
  split
  · next heq =>
    rw [ho] at heq
    cases heq
  · next heq =>
    rw [ho] at heq
    cases heq
    split
    · rfl
    · next heq =>
      rw [hp] at heq
      cases heq

theorem writeFrom_of_payload {c : Char} (ho : opener? prev (c :: cs) = some (k, inner))
    (hp : payload? 0 inner = some (payload, rest)) :
    writeFrom source a prev offset (c :: cs) = (literal k payload source offset).bind fun ps =>
      (writeFrom source (a.write ps).2 (some ')') (offset + ((c :: cs).length - rest.length))
        rest).map (Prod.map ((a.write ps).1 ++ ·) id) := by
  rw [writeFrom]
  split
  · next heq =>
    rw [ho] at heq
    cases heq
  · next heq =>
    rw [ho] at heq
    cases heq
    split
    · next heq =>
      rw [hp] at heq
      cases heq
    · next heq =>
      rw [hp] at heq
      cases heq
      cases literal k payload source offset <;> rfl

end Tagged

end

theorem Tagged.writeFrom_after (source : List Char) (start : Int) (ps : Skeleton)
    (prev : Option Char) (offset : Nat) (cs : List Char) :
    writeFrom source (after start ps) prev offset cs =
      (skeletonFrom source prev offset cs).map (filling start ps) := by
  fun_induction skeletonFrom source prev offset cs generalizing ps with
  | case1 prev offset =>
    rw [writeFrom, Except.map, filling, List.append_nil]
    rfl
  | case2 prev offset c cs ho qs hqs ih =>
    rw [writeFrom_of_none _ ho, ← after_char start ps c, ih, hqs]
    show Except.ok _ = Except.ok (filling start ps ([.char c] ++ qs))
    rw [filling_append]
    rfl
  | case3 prev offset c cs ho e he ih =>
    rw [writeFrom_of_none _ ho, ih, he]
    rfl
  | case4 prev offset c cs k inner ho hp => exact writeFrom_of_unclosed _ ho hp
  | case5 prev offset c cs k inner ho payload rest hp _ _ e he =>
    rw [writeFrom_of_payload _ ho hp, he]
    rfl
  | case6 prev offset c cs k inner ho payload rest hp _ _ pieces hl qs hqs ih =>
    rw [writeFrom_of_payload _ ho hp, hl, Except.bind, write_after]
    show Except.map _ (writeFrom source (after start (ps ++ pieces)) _ _ _) = _
    rw [ih, hqs]
    show Except.ok _ = Except.ok (filling start ps (pieces ++ qs))
    rw [filling_append]
    rfl
  | case7 prev offset c cs k inner ho payload rest hp _ _ pieces hl e he ih =>
    rw [writeFrom_of_payload _ ho hp, hl, Except.bind, write_after]
    show Except.map _ (writeFrom source (after start (ps ++ pieces)) _ _ _) = _
    rw [ih, he]
    rfl

/-- Compiling in one step with an allocation is compiling to a skeleton that is then filled. -/
theorem compile_eq_allocate (g : Grammar) (start : Int) (source : String) :
    compile g start source = allocate g start source := by
  have hstart : ({ next := start } : Allocation) = after start [] := by
    rw [after]
    exact congrArg (Allocation.mk · [] []) (Int.add_zero start).symm
  have hzero : start + ((holes []).length : Int) = start := Int.add_zero start
  rw [compile, Expression.skeleton.eq_def, allocate.eq_def]
  dsimp only
  rw [hstart]
  cases source.toList.all isBlank with
  | true => rfl
  | false =>
    rw [if_neg Bool.false_ne_true, if_neg Bool.false_ne_true]
    cases g with
    | inferred =>
      dsimp only
      rw [Inferred.skeleton]
      cases tokenize source.toList with
      | error e => rfl
      | ok tokens =>
        dsimp only [Except.map]
        rw [Inferred.writeFrom_after, filling, hzero, List.nil_append]
        rfl
    | tagged =>
      dsimp only
      rw [Tagged.skeleton, Tagged.writeFrom_after]
      cases Tagged.skeletonFrom source.toList none 0 source.toList with
      | error e => rfl
      | ok ps =>
        show Except.ok (ps.trim.fill start) = Except.ok ((after start ([] ++ ps)).compiled
          (trim isBlank (text (start + ((holes []).length : Int)) ps)))
        rw [hzero, List.nil_append, ← text_trim, fill, names_trim, values_trim]
        rfl

end ItemStore.Expression
