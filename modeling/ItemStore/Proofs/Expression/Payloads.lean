import ItemStore.Expression.Tagged
import ItemStore.Proofs.Expression.Scanners

/-
  What the payloads of literals that name their types stand for. `Reads` says it for each tag:
  texts, numbers and binary texts are taken as they are, a null has any payload, a boolean is a word
  in any case, a set is what commas separate, and a path is steps joined by points; the last three
  may have white space around them.

  `literal_eq_ok_iff`: a literal is accepted exactly when its payload stands for something.
-/

namespace ItemStore.Expression

open Text

namespace Tagged

open Skeleton

/-- The trimmed parts of a text between commas, without the empty ones. -/
def parts (payload : List Char) : List (List Char) :=
  ((payload.splitOn ',').map (trim isBlank)).filter (· ≠ [])

/-- What a payload stands for behind its tag. -/
inductive Reads : Constructor → List Char → Skeleton → Prop where
  | string (payload : List Char) : Reads .string payload [.value (.string payload)]
  | number (payload : List Char) : Reads .number payload [.value (.number payload)]
  | binary (payload : List Char) : Reads .binary payload [.value (.binary payload)]
  | null (payload : List Char) : Reads .null payload [.value .null]
  | boolean (b : Bool) {payload : List Char}
      (h : lower (trim isBlank payload) = (if b then "true" else "false").toList) :
    Reads .boolean payload [.value (.boolean b)]
  | strings (payload : List Char) : Reads .strings payload [.value (.strings (parts payload))]
  | numbers (payload : List Char) : Reads .numbers payload [.value (.numbers (parts payload))]
  | binaries (payload : List Char) : Reads .binaries payload [.value (.binaries (parts payload))]
  | path {front back : List Char} (hf : ∀ c ∈ front, isBlank c = true)
      (hb : ∀ c ∈ back, isBlank c = true) (s : Step) (ss : List Step) :
    Reads .path (front ++ (s.text ++ Step.pointed ss) ++ back)
      (ofPath (s.segment :: ss.map Step.segment))

theorem commaParts_eq_splitOn (cs : List Char) : commaParts cs = cs.splitOn ',' := by
  induction cs with
  | nil => rfl
  | cons c cs ih =>
    rw [commaParts, ih, List.splitOn_cons_eq_if_modifyHead]
    cases hparts : cs.splitOn ',' with
    | nil => exact absurd hparts (List.splitOn_ne_nil _ _)
    | cons part ps => by_cases hc : c = ',' <;> simp [hc]

theorem setParts_eq (payload : List Char) : setParts payload = parts payload := by
  rw [setParts, commaParts_eq_splitOn, parts]

/-! ## Paths with white space around them -/

theorem isBlank_of_isNameQuote {c : Char} (h : isNameQuote c = true) : isBlank c = false := by
  rw [isNameQuote, Bool.or_eq_true, beq_iff_eq, beq_iff_eq] at h
  rcases h with rfl | rfl
  · decide
  · decide

theorem endsOutside_word (w : Word) : EndsOutside isBlank w.chars :=
  endsOutside_of_forall fun c hc => isBlank_of_isWord (w.isWord_of_mem c hc)

theorem endsOutside_name (n : Name) : EndsOutside isBlank n.text := by
  cases n with
  | plain n =>
    refine (endsOutside_word n.head).append (endsOutside_flatMap fun p _ => ?_)
    exact (endsOutside_concat (show isBlank '-' = false by decide) []).append
      (endsOutside_word p.toWord)
  | quoted mark body isMark fresh =>
    exact endsOutside_concat (isBlank_of_isNameQuote isMark) (mark :: body)

theorem endsOutside_step (s : Step) : EndsOutside isBlank s.text :=
  (endsOutside_name s.name).append (endsOutside_flatMap fun d _ =>
    endsOutside_concat (show isBlank ']' = false by decide) ('[' :: d.chars))

theorem endsOutside_steps (s : Step) (ss : List Step) :
    EndsOutside isBlank (s.text ++ Step.pointed ss) :=
  (endsOutside_step s).append (endsOutside_flatMap fun t _ =>
    (endsOutside_concat (show isBlank '.' = false by decide) []).append (endsOutside_step t))

theorem startsSegment_steps (s : Step) (ss : List Step) :
    startsSegment (s.text ++ Step.pointed ss) = true := by
  rw [Step.text, List.append_assoc]
  exact startsSegment_name s.name _

theorem stops_of_startsSegment {cs : List Char} (h : startsSegment cs = true) :
    Stops isBlank cs := by
  cases cs with
  | nil => cases h
  | cons c cs =>
    rw [stops_cons]
    rcases Bool.or_eq_true_iff.mp h with hc | hc
    · exact isBlank_of_isNameQuote hc
    · exact isBlank_of_isWord hc

/-- A path has no white space at its ends. -/
theorem trim_path {front back : List Char} (hf : ∀ c ∈ front, isBlank c = true)
    (hb : ∀ c ∈ back, isBlank c = true) (s : Step) (ss : List Step) :
    trim isBlank (front ++ (s.text ++ Step.pointed ss) ++ back) = s.text ++ Step.pointed ss :=
  trim_of_ends hf hb (stops_of_startsSegment (startsSegment_steps s ss)) (endsOutside_steps s ss)

/-- A path literal is read from its payload, over hyphens and without the white space around it. -/
theorem pathOf_eq_ok_iff {payload source : List Char} {offset : Nat} {segments : List Segment} :
    pathOf payload source offset = .ok segments ↔
      ∃ (s : Step) (ss : List Step), segments = s.segment :: ss.map Step.segment ∧
        trim isBlank payload = s.text ++ Step.pointed ss := by
  unfold pathOf
  dsimp only
  constructor
  · intro h
    split at h
    · cases h
    split at h
    · next hscan =>
      cases h
      obtain ⟨s, ss, hsegments, htext⟩ := scanPath_sound hscan
      exact ⟨s, ss, hsegments, by rw [htext, List.append_nil]⟩
    all_goals cases h
  · rintro ⟨s, ss, rfl, htext⟩
    have hne : s.text ++ Step.pointed ss ≠ [] := by
      intro hnil
      have hstarts := startsSegment_steps s ss
      rw [hnil] at hstarts
      cases hstarts
    have hscan : scanPath true (s.text ++ (Step.pointed ss ++ [])) = _ :=
      scanPath_steps s ss (fun _ _ _ => rfl) (stops_nil continuesPath)
    rw [List.append_nil] at hscan
    rw [htext, if_neg hne, hscan]

theorem booleanOf?_eq_some_iff {payload : List Char} {b : Bool} :
    booleanOf? payload = some b ↔
      lower (trim isBlank payload) = (if b then "true" else "false").toList := by
  unfold booleanOf?
  dsimp only
  constructor
  · intro h
    split at h
    · next htrue =>
      cases h
      exact beq_iff_eq.mp htrue
    · split at h
      · next hfalse =>
        cases h
        exact beq_iff_eq.mp hfalse
      · cases h
  · intro h
    rw [h]
    cases b <;> rfl

/-- A literal is accepted exactly when its payload stands for something. -/
theorem literal_eq_ok_iff {k : Constructor} {payload source : List Char} {offset : Nat}
    {ps : Skeleton} : literal k payload source offset = .ok ps ↔ Reads k payload ps := by
  constructor
  · intro h
    cases k with
    | boolean =>
      rw [literal] at h
      split at h
      · next b hb =>
        cases h
        exact .boolean b (booleanOf?_eq_some_iff.mp hb)
      · cases h
    | path =>
      rw [literal] at h
      split at h
      · next segments hpath =>
        cases h
        obtain ⟨s, ss, rfl, htext⟩ := pathOf_eq_ok_iff.mp hpath
        obtain ⟨front, back, hf, hb, hpayload⟩ := exists_trim isBlank payload
        rw [htext] at hpayload
        rw [hpayload]
        exact .path hf hb s ss
      · cases h
    | strings =>
      rw [literal, setParts_eq] at h
      cases h
      exact .strings payload
    | numbers =>
      rw [literal, setParts_eq] at h
      cases h
      exact .numbers payload
    | binaries =>
      rw [literal, setParts_eq] at h
      cases h
      exact .binaries payload
    | _ =>
      cases h
      constructor
  · intro h
    cases h with
    | boolean b h => rw [literal, booleanOf?_eq_some_iff.mpr h]
    | path hf hb s ss =>
      rw [literal, pathOf_eq_ok_iff.mpr ⟨s, ss, rfl, trim_path hf hb s ss⟩]
    | strings => rw [literal, setParts_eq]
    | numbers => rw [literal, setParts_eq]
    | binaries => rw [literal, setParts_eq]
    | _ => rfl

instance (k : Constructor) (payload : List Char) (ps : Skeleton) :
    Decidable (Reads k payload ps) :=
  decidable_of_iff ((literal k payload [] 0).toOption = some ps) <| by
    constructor
    · intro h
      exact literal_eq_ok_iff.mp (eq_ok_of_toOption h)
    · intro h
      rw [literal_eq_ok_iff.mpr h]
      rfl

end Tagged

end ItemStore.Expression
