import ItemStore.Failure.Report
import ItemStore.Proofs.Expression.Chunks
import ItemStore.Proofs.Expression.Tokenization

/-
  Where a source cannot be compiled. An error has a source, an offset into it and a fault, and the
  text from the offset on is what the fault is about (`StartsAt`): a quote that nothing closes, a
  parenthesis without its partner, a literal with a payload that it does not take. Each scanner
  hands on the text at which it got stuck, so the proof is that this text is an end of the source
  and starts as the fault says, and that offsets count what was read (`tokensFrom_error`,
  `Tagged.skeletonFrom_error`, both by the recursion of the scanner).

  Errors are in the source that was given (`located_of_compile`), in both grammars, with one
  exception. The path in a path literal is read from the trimmed payload, and a fault in one of its
  names is told of the payload: the source of the error is not the one that was given, and offset,
  bytes and remainder are those of the payload (`Tagged.skeletonFrom_error`,
  `not_located_of_compile`).
-/

namespace ItemStore

/-- Bytes are counted as UTF-8 has them. -/
theorem byteSize_eq (cs : List Char) : byteSize cs = (String.ofList cs).utf8ByteSize := by
  induction cs with
  | nil => rfl
  | cons c cs ih =>
    have hcons : String.ofList (c :: cs) = String.singleton c ++ String.ofList cs := by
      rw [String.singleton_eq_ofList, ← String.ofList_append]
      rfl
    rw [byteSize, ih, hcons, String.utf8ByteSize_append, String.utf8ByteSize_singleton]

/-- What a failure tells of an offset within its source. -/
theorem Failure.errors_compile (message : String) (before after : List Char) :
    (Failure.compile message (String.ofList (before ++ after)) (some before.length)).errors =
      .record [("offset", .int before.length),
        ("byte_offset", .int (String.ofList before).utf8ByteSize),
        ("remainder", .text (String.ofList after))] := by
  have hcount : charactersBefore before.length (before ++ after) = before.length := by
    rw [charactersBefore, if_neg (by omega), List.length_append]
    omega
  rw [Failure.errors, byteOffset, remainder, String.toList_ofList, hcount, List.take_left,
    List.drop_left, byteSize_eq]

namespace Expression

open Text

/-! ## What a fault is about -/

/-- A fault in a name. -/
def Fault.isOfName : Fault → Bool
  | .unclosedName | .missingName _ => true
  | _ => false

/-- A quote around a name that nothing closes. -/
def Unclosed (rest : List Char) : Prop :=
  ∃ c cs, rest = c :: cs ∧ isNameQuote c = true ∧ c ∉ cs

/-- The text from a fault on is what the fault is about. -/
def Fault.StartsAt (rest : List Char) : Fault → Prop
  | .unclosedName => Unclosed rest
  | .missingName _ => ∃ c cs, rest = c :: cs ∧ startsSegment rest = false
  | .unclosedText => ∃ cs, rest = '\x27' :: cs ∧
      ∀ (units : List StringUnit) after, cs ≠ units.flatMap StringUnit.text ++ '\x27' :: after
  | .unmatchedClose => ∃ cs, rest = ')' :: cs
  | .unmatchedOpen => ∃ cs, rest = '(' :: cs
  | .unclosedLiteral => ∃ (k : Tagged.Constructor) (cs : List Char),
      rest = k.text.toList ++ '(' :: cs ∧ Within 0 cs
  | .notBoolean payload => ∃ cs, rest = Tagged.Constructor.boolean.enclose payload ++ cs ∧
      Balanced payload ∧ Tagged.booleanOf? payload = none
  | .emptyPath => ∃ payload cs, rest = Tagged.Constructor.path.enclose payload ++ cs ∧
      ∀ c ∈ payload, isBlank c = true
  | .malformedPath payload => ∃ cs, rest = Tagged.Constructor.path.enclose payload ++ cs ∧
      Balanced payload ∧ ∀ (s : Step) (ss : List Step),
        trim isBlank payload ≠ s.text ++ Step.pointed ss

/-- A fault is about some of the text. -/
theorem Fault.StartsAt.ne_nil {fault : Fault} {rest : List Char} (h : fault.StartsAt rest) :
    rest ≠ [] := by
  have henclose : ∀ (k : Tagged.Constructor) payload (cs : List Char),
      k.enclose payload ++ cs ≠ [] :=
    fun k payload cs => List.append_ne_nil_of_left_ne_nil
      (List.append_ne_nil_of_right_ne_nil _ (List.cons_ne_nil _ _)) _
  cases fault with
  | unclosedName =>
    obtain ⟨c, cs, rfl, -⟩ := h
    exact List.cons_ne_nil _ _
  | missingName =>
    obtain ⟨c, cs, rfl, -⟩ := h
    exact List.cons_ne_nil _ _
  | unclosedText =>
    obtain ⟨cs, rfl, -⟩ := h
    exact List.cons_ne_nil _ _
  | unmatchedClose =>
    obtain ⟨cs, rfl⟩ := h
    exact List.cons_ne_nil _ _
  | unmatchedOpen =>
    obtain ⟨cs, rfl⟩ := h
    exact List.cons_ne_nil _ _
  | unclosedLiteral =>
    obtain ⟨k, cs, rfl, -⟩ := h
    exact List.append_ne_nil_of_right_ne_nil _ (List.cons_ne_nil _ _)
  | notBoolean =>
    obtain ⟨cs, rfl, -⟩ := h
    exact henclose _ _ _
  | emptyPath =>
    obtain ⟨payload, cs, rfl, -⟩ := h
    exact henclose _ _ _
  | malformedPath =>
    obtain ⟨cs, rfl, -⟩ := h
    exact henclose _ _ _

/-- A fault with an offset is found in a source. -/
def FoundIn (source : List Char) (fault : Fault) (offset : Nat) : Prop :=
  ∃ before after, source = before ++ after ∧ offset = before.length ∧ fault.StartsAt after

theorem foundIn_append (before : List Char) {fault : Fault} {after : List Char}
    (h : fault.StartsAt after) : FoundIn (before ++ after) fault before.length :=
  ⟨before, after, rfl, rfl, h⟩

/-- What is stuck within a text is found in a source that ends with it. -/
theorem foundIn_of_suffix (before : List Char) {fault : Fault} {cs rest : List Char}
    (hrest : rest <:+ cs) (h : fault.StartsAt rest) :
    FoundIn (before ++ cs) fault (before.length + (cs.length - rest.length)) := by
  obtain ⟨read, rfl⟩ := hrest
  refine ⟨before ++ read, rest, (List.append_assoc _ _ _).symm, ?_, h⟩
  rw [List.length_append, List.length_append]
  omega

/-! ## Scanners that get stuck -/

theorem scanName_error {hyphens : Bool} {cs rest : List Char} {fault : PathFault}
    (h : scanName hyphens cs = .error (fault, rest)) :
    rest = cs ∧ (fault = .unclosedName ∧ Unclosed rest ∨
      fault = .missingName ∧ startsSegment cs = false) := by
  unfold scanName at h
  split at h
  · cases h
    exact ⟨rfl, .inr ⟨rfl, rfl⟩⟩
  · next c cs =>
    split at h
    · next hquote =>
      split at h
      · next hdrop =>
        cases h
        have hall := forall_mem_takeWhile (fun x => decide (x ≠ c)) cs
        have hsplit := List.takeWhile_append_dropWhile (p := fun x => decide (x ≠ c)) (l := cs)
        rw [hdrop, List.append_nil] at hsplit
        rw [hsplit] at hall
        have hfresh : c ∉ cs := fun hmem => of_decide_eq_true (hall c hmem) rfl
        exact ⟨rfl, .inl ⟨rfl, c, cs, rfl, hquote, hfresh⟩⟩
      · cases h
    · next hquote =>
      split at h
      · cases h
      · next hword =>
        cases h
        rw [Bool.not_eq_true] at hquote hword
        exact ⟨rfl, .inr ⟨rfl, by rw [startsSegment, hquote, hword]; rfl⟩⟩

/-- A path is stuck at a name: at its start if nothing of it is a name, else at a quote. -/
theorem scanPath_error {hyphens : Bool} {cs rest : List Char} {fault : PathFault}
    (h : scanPath hyphens cs = .error (fault, rest)) :
    rest <:+ cs ∧ (fault = .unclosedName ∧ Unclosed rest ∨
      fault = .missingName ∧ rest = cs ∧ startsSegment cs = false) := by
  have hsegment : ∀ {cs : List Char} {e}, scanSegment hyphens cs = .error e →
      scanName hyphens cs = .error e := by
    intro cs e h
    unfold scanSegment at h
    split at h
    · next heq =>
      cases h
      exact heq
    · cases h
  fun_induction scanPath hyphens cs generalizing fault rest with
  | case1 cs e hs =>
    cases h
    obtain ⟨rfl, hname⟩ := scanName_error (hsegment hs)
    exact ⟨List.suffix_rfl, hname.imp_right fun hmissing => ⟨hmissing.1, rfl, hmissing.2⟩⟩
  | case2 => cases h
  | case3 cs segment behind hs more hp _ _ e hr ih =>
    cases h
    obtain ⟨s, -, hcs⟩ := scanSegment_sound hs
    have hmore : more <:+ cs := by
      rw [hcs, afterPoint?_sound hp]
      exact (List.suffix_cons _ _).trans (List.suffix_append _ _)
    obtain ⟨hrest, hname⟩ := ih hr
    -- behind a point that joins segments a name does not miss
    have hstarts := startsSegment_of_afterPoint? hp
    refine ⟨hrest.trans hmore, .inl ?_⟩
    rcases hname with hquote | ⟨-, -, hmissing⟩
    · exact hquote
    · rw [hstarts] at hmissing
      cases hmissing
  | case4 => cases h

theorem scanToken_error {prev : Option Token} {c : Char} {cs rest : List Char} {fault : Fault}
    (h : scanToken prev c cs = .error (fault, rest)) :
    rest <:+ c :: cs ∧ fault.StartsAt rest := by
  unfold scanToken at h
  split at h
  · next hc =>
    split at h
    · cases h
    · next hnone =>
      cases h
      refine ⟨List.suffix_rfl, cs, by rw [hc], fun units after hcs => ?_⟩
      rw [hcs, scanString_units] at hnone
      cases hnone
  split at h
  · cases h
  split at h
  · cases h
  split at h
  · cases h
  unfold scanWordOrSign at h
  split at h
  · cases h
  split at h
  · cases h
  split at h
  · cases h
  split at h
  · cases h
  split at h
  · next hstarts =>
    split at h
    · cases h
    · next hpath =>
      cases h
      obtain ⟨hrest, hname⟩ := scanPath_error hpath
      refine ⟨hrest, ?_⟩
      rcases hname with ⟨rfl, hquote⟩ | ⟨-, -, hmissing⟩
      · exact hquote
      · rw [hstarts] at hmissing
        cases hmissing
  · cases h

/-! ## Tokens -/

/-- An open parenthesis of a source. -/
def IsOpenIn (source : List Char) (offset : Nat) : Prop :=
  ∃ before after, source = before ++ '(' :: after ∧ offset = before.length

theorem exists_openParen {prev : Option Token} {c : Char} {cs rest : List Char} {kind : TokenKind}
    (h : scanToken prev c cs = .ok (kind, rest)) :
    (kind = .openParen → c = '(') ∧ (kind = .closeParen → c = ')') := by
  obtain ⟨text, hreads, hcons⟩ := scanToken_reads h
  constructor
  · rintro rfl
    rw [show text = ['('] from hreads] at hcons
    exact (List.cons.inj hcons).1
  · rintro rfl
    rw [show text = [')'] from hreads] at hcons
    exact (List.cons.inj hcons).1

/-- The parentheses open after a token were open before it, but for the one that it opens. -/
theorem mem_of_matchParens {kind : TokenKind} {offset : Nat} {opened opened' : List Nat}
    (h : matchParens kind offset opened = some opened') :
    ∀ paren ∈ opened', paren ∈ opened ∨ paren = offset ∧ kind = .openParen := by
  intro paren hmem
  unfold matchParens at h
  split at h
  · cases h
    rcases List.mem_cons.mp hmem with rfl | hmem
    · exact .inr ⟨rfl, rfl⟩
    · exact .inl hmem
  · split at h
    · cases h
    · cases h
      exact .inl (List.mem_cons_of_mem _ hmem)
  · cases h
    exact .inl hmem

/-- A fault is found where the tokens of a source end. What was read stands in front, and every
parenthesis open there is one of the source. -/
theorem tokensFrom_error {source : List Char} {prev : Option Token} {opened : List Nat}
    {spaced : Bool} {offset : Nat} {cs : List Char} {fault : Fault} {place : Nat}
    (h : tokensFrom prev opened spaced offset cs = .error (fault, place)) (front : List Char)
    (hsource : source = front ++ cs) (hoffset : offset = front.length)
    (hopened : ∀ paren ∈ opened, IsOpenIn source paren) : FoundIn source fault place := by
  fun_induction tokensFrom prev opened spaced offset cs generalizing front with
  | case1 => cases h
  | case2 =>
    cases h
    obtain ⟨before, after, rfl, rfl⟩ := hopened place List.mem_cons_self
    exact foundIn_append before ⟨after, rfl⟩
  | case3 prev opened spaced offset c cs hblank ih =>
    refine ih h (front ++ [c]) (by rw [hsource]; simp) ?_ hopened
    rw [hoffset, List.length_append, List.length_singleton]
  | case4 prev opened spaced offset c cs hblank fault rest hscan =>
    cases h
    obtain ⟨hrest, hstarts⟩ := scanToken_error hscan
    rw [hsource, hoffset]
    exact foundIn_of_suffix front hrest hstarts
  | case5 prev opened spaced offset c cs hblank kind rest hscan _ hmatch =>
    cases h
    have hc := (exists_openParen hscan).2 (Lexeme.matchParens_eq_none_iff.mp hmatch).1
    rw [hsource, hoffset]
    exact foundIn_append front ⟨cs, by rw [hc]⟩
  | case6 prev opened spaced offset c cs hblank kind rest hscan _ size opened' hmatch token e hrest
      ih =>
    cases h
    obtain ⟨ds, hcs, hsize, -⟩ := Lexeme.exists_text_of_scanToken hscan
    have hsize : size = (c :: ds).length := hsize
    refine ih hrest (front ++ c :: ds) ?_ ?_ fun paren hmem => ?_
    · rw [hsource, hcs, List.append_assoc, List.cons_append]
    · rw [hoffset, hsize, List.length_append]
    · rcases mem_of_matchParens hmatch paren hmem with hmem | ⟨rfl, hkind⟩
      · exact hopened paren hmem
      · exact ⟨front, cs, by rw [hsource, (exists_openParen hscan).1 hkind], hoffset⟩
  | case7 => cases h

theorem tokenize_error {source : List Char} {e : Error} (h : tokenize source = .error e) :
    e.source = source ∧ FoundIn source e.fault e.offset := by
  unfold tokenize at h
  split at h
  · cases h
  · next herror =>
    cases h
    exact ⟨rfl, tokensFrom_error herror [] rfl rfl (List.forall_mem_nil _)⟩

/-! ## Literals that name their types -/

namespace Tagged

/-- A fault in a name of a path literal is told of the literal's payload. -/
def ToldOfPath (source : List Char) (e : Error) : Prop :=
  ∃ before payload after, source = before ++ Constructor.path.enclose payload ++ after ∧
    e.source = trim isBlank payload ∧ FoundIn e.source e.fault e.offset

/-- An error is found in the source, but for a fault in a name. -/
def Told (source : List Char) (e : Error) : Prop :=
  if e.fault.isOfName then ToldOfPath source e
  else e.source = source ∧ FoundIn source e.fault e.offset

theorem pathOf_error {payload front after : List Char} (hb : Balanced payload) {e : Error}
    (h : pathOf payload (front ++ Constructor.path.enclose payload ++ after) front.length =
      .error e) : Told (front ++ Constructor.path.enclose payload ++ after) e := by
  have hin : ∀ {fault : Fault}, fault.StartsAt (Constructor.path.enclose payload ++ after) →
      FoundIn (front ++ Constructor.path.enclose payload ++ after) fault front.length := by
    intro fault hstarts
    rw [List.append_assoc]
    exact foundIn_append front hstarts
  unfold pathOf at h
  dsimp only at h
  split at h
  · next hnil =>
    cases h
    obtain ⟨blank, back, hblank, hback, hpayload⟩ := exists_trim isBlank payload
    rw [hnil, List.append_nil] at hpayload
    refine ⟨rfl, hin ⟨payload, after, rfl, ?_⟩⟩
    rw [hpayload]
    exact List.forall_mem_append.mpr ⟨hblank, hback⟩
  · next hne =>
    have hread : ∀ {r}, scanPath true (trim isBlank payload) = r →
        (∀ segments, r ≠ .ok (segments, [])) →
        ∀ (s : Step) (ss : List Step), trim isBlank payload ≠ s.text ++ Step.pointed ss := by
      intro r hr hother s ss htext
      have hpath : pathOf payload [] 0 = .ok (s.segment :: ss.map Step.segment) :=
        pathOf_eq_ok_iff.mpr ⟨s, ss, rfl, htext⟩
      unfold pathOf at hpath
      dsimp only at hpath
      rw [if_neg hne, hr] at hpath
      split at hpath
      · exact hother _ rfl
      all_goals cases hpath
    split at h
    · cases h
    · next hscan =>
      cases h
      exact ⟨rfl, hin ⟨after, rfl, hb, hread hscan fun segments hr => by cases hr⟩⟩
    · next rest hscan =>
      cases h
      obtain ⟨hrest, hname⟩ := scanPath_error hscan
      have hquote : Unclosed rest := by
        rcases hname with ⟨-, hquote⟩ | ⟨hfault, -⟩
        · exact hquote
        · cases hfault
      have hstarts : Fault.unclosedName.StartsAt rest := hquote
      have hfound := foundIn_of_suffix [] hrest hstarts
      rw [List.length_nil, Nat.zero_add] at hfound
      exact ⟨front, payload, after, rfl, rfl, hfound⟩
    · next rest hscan =>
      cases h
      obtain ⟨hrest, hname⟩ := scanPath_error hscan
      obtain ⟨rfl, hstarts⟩ : rest = trim isBlank payload ∧
          startsSegment (trim isBlank payload) = false := by
        rcases hname with ⟨hfault, -⟩ | ⟨-, hmissing⟩
        · cases hfault
        · exact hmissing
      obtain ⟨c, cs, hcons⟩ := List.exists_cons_of_ne_nil hne
      refine ⟨front, payload, after, rfl, rfl, [], _, rfl, Nat.sub_self _, c, cs, hcons, hstarts⟩

theorem literal_error {k : Constructor} {payload front after : List Char} (hb : Balanced payload)
    {e : Error}
    (h : literal k payload (front ++ k.enclose payload ++ after) front.length = .error e) :
    Told (front ++ k.enclose payload ++ after) e := by
  unfold literal at h
  split at h
  case h_5 =>
    split at h
    · cases h
    · next hnone =>
      cases h
      refine ⟨rfl, ?_⟩
      rw [List.append_assoc]
      exact foundIn_append front ⟨after, rfl, hb, hnone⟩
  case h_9 =>
    split at h
    · cases h
    · next hpath =>
      cases h
      exact pathOf_error hb hpath
  all_goals cases h

/-- The error of a source whose rest has no skeleton. What was read stands in front. -/
theorem skeletonFrom_error {source cs : List Char} {prev : Option Char} {offset : Nat} {e : Error}
    (h : skeletonFrom source prev offset cs = .error e) (front : List Char)
    (hsource : source = front ++ cs) (hoffset : offset = front.length) : Told source e := by
  fun_induction skeletonFrom source prev offset cs generalizing front with
  | case1 => cases h
  | case2 => cases h
  | case3 prev offset c cs hopener e' hrest ih =>
    cases h
    refine ih hrest (front ++ [c]) (by rw [hsource]; simp) ?_
    rw [hoffset, List.length_append, List.length_singleton]
  | case4 prev offset c cs k inner hopener hpayload =>
    cases h
    obtain ⟨-, hcs⟩ := eq_tag_of_opener? hopener
    refine ⟨rfl, ?_⟩
    rw [hsource, hoffset]
    exact foundIn_append front ⟨k, inner, hcs.symm, within_of_payload? hpayload⟩
  | case5 prev offset c cs k inner hopener payload rest hpayload _ _ e' hliteral =>
    cases h
    obtain ⟨-, hcs⟩ := eq_tag_of_opener? hopener
    obtain ⟨hinner, hwithin, hcount⟩ := payload?_sound hpayload
    have hb : Balanced payload := ⟨hwithin, by rw [hcount, Nat.zero_add]⟩
    have hsplit : source = front ++ k.enclose payload ++ rest := by
      rw [hsource, ← hcs, hinner, List.append_assoc, k.enclose_append]
    rw [hsplit, hoffset] at hliteral
    rw [hsplit]
    exact literal_error hb hliteral
  | case6 => cases h
  | case7 prev offset c cs k inner hopener payload rest hpayload _ _ ps hliteral e' hrest ih =>
    cases h
    obtain ⟨-, hcs⟩ := eq_tag_of_opener? hopener
    obtain ⟨hinner, -⟩ := payload?_sound hpayload
    have hsplit : c :: cs = k.enclose payload ++ rest := by
      rw [← hcs, hinner, k.enclose_append]
    refine ih hrest (front ++ k.enclose payload) ?_ ?_
    · rw [hsource, hsplit, List.append_assoc]
    · rw [hoffset, hsplit, List.length_append, List.length_append, Nat.add_sub_cancel]

end Tagged

/-! ## Both grammars -/

theorem eq_error_of_any {ε α : Type} [DecidableEq ε] {r : Except ε α} {e : ε}
    (h : (match r with | .ok _ => false | .error e' => decide (e' = e)) = true) : r = .error e := by
  cases r with
  | ok a => cases h
  | error e' => rw [of_decide_eq_true h]

theorem skeleton_error {g : Grammar} {source : List Char} {e : Error}
    (h : skeleton g source = .error e) (hname : g = .tagged → e.fault.isOfName = false) :
    e.source = source ∧ FoundIn source e.fault e.offset := by
  unfold skeleton at h
  split at h
  · cases h
  cases g with
  | inferred =>
    unfold Inferred.skeleton at h
    dsimp only at h
    split at h
    · next htokens =>
      cases h
      exact tokenize_error htokens
    · cases h
  | tagged =>
    unfold Tagged.skeleton at h
    dsimp only at h
    split at h
    · cases h
    · next herror =>
      cases h
      have htold := Tagged.skeletonFrom_error herror [] rfl rfl
      rw [Tagged.Told, hname rfl, if_neg Bool.false_ne_true] at htold
      exact htold

theorem compileValue_of_error {g : Grammar} {start : Int} {source : String} {e : Error}
    (h : compile g start source = .error e) :
    compileValue g start (.text source) = .error e.toFailure := by
  rw [compileValue, h]

/-- A source that does not compile is told with the source itself, an offset inside it, the bytes
of UTF-8 in front of the offset and the text from there on, which is what the fault is about. With
literals that name their types this is so for every fault but those in names. -/
theorem located_of_compile {g : Grammar} {start : Int} {source : String} {e : Error}
    (h : compile g start source = .error e) (hname : g = .tagged → e.fault.isOfName = false) :
    ∃ before after, source = String.ofList (before ++ after) ∧
      before.length < source.toList.length ∧ e.fault.StartsAt after ∧
      compileValue g start (.text source) =
        .error (.compile e.fault.message source (some before.length)) ∧
      (Failure.compile e.fault.message source (some before.length)).errors =
        .record [("offset", .int before.length),
          ("byte_offset", .int (String.ofList before).utf8ByteSize),
          ("remainder", .text (String.ofList after))] := by
  have hskeleton : skeleton g source.toList = .error e := by
    unfold compile at h
    split at h
    · cases h
    · next herror =>
      cases h
      exact herror
  obtain ⟨hsource, before, after, hsplit, hoffset, hstarts⟩ := skeleton_error hskeleton hname
  have hwhole : source = String.ofList (before ++ after) := by
    rw [← hsplit, String.ofList_toList]
  refine ⟨before, after, hwhole, ?_, hstarts, ?_, ?_⟩
  · have hpos := List.length_pos_iff.mpr hstarts.ne_nil
    rw [hsplit, List.length_append]
    omega
  · rw [compileValue_of_error h, Error.toFailure, hsource, String.ofList_toList, hoffset]
  · rw [hwhole]
    exact Failure.errors_compile _ before after

/-- A source with two bytes to a character in front of the fault. -/
def wrongBoolean : String :=
  "né = S(é) AND b = BOOL(maybé) OR c"

theorem located_of_compile_wrongBoolean :
    ∃ e before after, e.fault = .notBoolean "maybé".toList ∧
      compile .tagged 1 wrongBoolean = .error e ∧
      wrongBoolean = String.ofList (before ++ after) ∧
      before.length < wrongBoolean.toList.length ∧ e.fault.StartsAt after ∧
      compileValue .tagged 1 (.text wrongBoolean) =
        .error (.compile e.fault.message wrongBoolean (some before.length)) ∧
      (Failure.compile e.fault.message wrongBoolean (some before.length)).errors =
        .record [("offset", .int before.length),
          ("byte_offset", .int (String.ofList before).utf8ByteSize),
          ("remainder", .text (String.ofList after))] := by
  have herror : compile .tagged 1 wrongBoolean =
      .error ⟨.notBoolean "maybé".toList, wrongBoolean.toList, 18⟩ :=
    eq_error_of_any (by decide +kernel)
  obtain ⟨before, after, hlocated⟩ := located_of_compile herror fun _ => rfl
  exact ⟨_, before, after, rfl, herror, hlocated⟩

/-- A fault in a name of a path literal is told of the literal's payload: the source of the error
is the payload, and the offset is one in it. -/
theorem not_located_of_compile :
    compileValue .tagged 1 (.text "x = N(1) AND $(`a) = N(2)") =
        .error (.compile "Unterminated quoted attribute name" "`a" (some 0)) ∧
      compileValue .tagged 1 (.text "x = N(1) AND $( -a) = N(2)") =
        .error (.compile "Expected an attribute name at offset 0" "-a" (some 0)) := by
  have hunclosed : compile .tagged 1 "x = N(1) AND $(`a) = N(2)" =
      .error ⟨.unclosedName, "`a".toList, 0⟩ := eq_error_of_any (by decide +kernel)
  have hmissing : compile .tagged 1 "x = N(1) AND $( -a) = N(2)" =
      .error ⟨.missingName 0, "-a".toList, 0⟩ := eq_error_of_any (by decide +kernel)
  have hmessage : (Fault.missingName 0).message = "Expected an attribute name at offset 0" := by
    decide +kernel
  rw [compileValue_of_error hunclosed, compileValue_of_error hmissing, Error.toFailure,
    Error.toFailure, String.ofList_toList, String.ofList_toList, hmessage]
  exact ⟨rfl, rfl⟩

end Expression

end ItemStore
