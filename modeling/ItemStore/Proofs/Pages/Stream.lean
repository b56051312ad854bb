import ItemStore.Pages.Basic
import ItemStore.Service.Meaning

/-
  A read over pages as a flat stream. `fetches` is the reference: the fetches that a read makes if
  it is pulled to its end, each with its parameters and the entries that it gives, computed from
  the replies alone, without a buffer and without pulls. Its entries in a row are the stream.

  `pulls_eq_stream`: whatever the replies are and however often a read is pulled, the pulls give
  the first entries of the stream, then nothing for ever; and the requests sent by then are those
  of the first fetches, the next one only being made when those before it gave too few entries.

  The induction is on the pulls, with the invariant `Progress`: after `n` pulls and `k` fetches the
  buffer holds what the first `k` fetches gave beyond the first `n` entries, and the fetches that
  the state would still make are the others.
-/

namespace ItemStore

/-! ## The reference -/

/-- The items of a page; none when the field is absent, null or empty. -/
def pageItems (reply : Value) : Except Fault (List Value) := do
  let items ← reply.fieldD "Items" .null
  if items.isTruthy then items.elements else .ok []

/-- The items of a page, each split into its key values and its other attributes, in order. -/
def pageEntries (s : Schema) (decimalNumbers : Bool) (reply : Value) : Outcome (List Entry) := do
  (← Outcome.ofFault (pageItems reply)).mapM (Entry.ofItem s decimalNumbers)

/-- The key that a page says to go on from, null if there is none. -/
def lastKey (reply : Value) : Value :=
  match reply with
  | .map es => (Entries.get? (.text "LastEvaluatedKey") es).getD .null
  | _ => .null

/-- Whether a read ends after a page with a key. -/
def isLast (isLimited : Bool) (key : Value) : Bool :=
  key matches .null || isLimited

/-- One fetch: the parameters it is made with, and the entries it gives. -/
structure Fetched where
  params : Params
  entries : List Entry

/-- How a read takes replies. `tell` is what the failure of a fetch is told as. -/
structure Reading where
  schema : Schema
  decimalNumbers : Bool
  isLimited : Bool
  tell : Failure → Failure
  /-- What a fetch meets when no reply is left. -/
  silence : Failure

/-- The fetches of a read from the given parameters on, up to its end. A fetch that fails, or one
with an item that cannot be decoded, gives one entry, of the failure, and is the last. -/
def fetches (r : Reading) (params : Params) : List (Outcome Value) → List Fetched
  | [] => [⟨params, [.ofFailure (r.tell r.silence)]⟩]
  | .error e :: _ => [⟨params, [.ofFailure (r.tell e)]⟩]
  | .ok reply :: replies =>
    match pageEntries r.schema r.decimalNumbers reply with
    | .error e => [⟨params, [.ofFailure e]⟩]
    | .ok entries =>
      ⟨params, entries⟩ ::
        (if isLast r.isLimited (lastKey reply) then []
        else fetches r (Entries.insert "ExclusiveStartKey" (lastKey reply) params) replies)

/-- The entries of fetches, in a row. -/
def stream (fs : List Fetched) : List Entry :=
  fs.flatMap Fetched.entries

theorem stream_append (fs gs : List Fetched) : stream (fs ++ gs) = stream fs ++ stream gs := by
  simp [stream]

/-! ## Sources of pages -/

namespace PageSource

/-- Pages straight from the connection, with failures told as those of a table. -/
def direct (method : ReadMethod) (table : String) : PageSource where
  request params := .ok ⟨method.operation, params⟩
  interpret _ f := f.interpreted method.operation.name table .null

/-- A source that makes a request of any parameters that a read from good ones comes to, and tells
a failure of each alike. -/
structure Tells (source : PageSource) (good : Params → Prop) (request : Params → Request)
    (tell : Failure → Failure) : Prop where
  request_eq : ∀ params, good params → source.request params = .ok (request params)
  interpret_eq : ∀ params f, good params → source.interpret params f = tell f
  insert : ∀ params key, good params → good (Entries.insert "ExclusiveStartKey" key params)

end PageSource

namespace Pages

/-- How a read takes the replies of a connection. -/
def reading (tell : Failure → Failure) (p : Pages) (l : Link) : Reading :=
  { schema := p.schema, decimalNumbers := p.decimalNumbers, isLimited := p.isLimited, tell,
    silence := l.silence }

/-- The fetches that a read still makes if it is pulled to its end. -/
def left (tell : Failure → Failure) (p : Pages) (l : Link) : List Fetched :=
  if p.isExhausted then [] else fetches (p.reading tell l) p.params l.replies

/-! ## One page -/

/-- A page tells the entries of its items and the key to go on from. -/
theorem page_eq (p : Pages) (reply : Value) :
    p.page reply =
      (pageEntries p.schema p.decimalNumbers reply).map
        fun entries => ⟨entries, lastKey reply⟩ := by
  cases reply with
  | map es =>
    have hlast : Value.fieldD (.map es) "LastEvaluatedKey" .null = .ok (lastKey (.map es)) := rfl
    unfold page pageEntries pageItems
    rw [hlast]
    cases Value.fieldD (.map es) "Items" .null with
    | error f => rfl
    | ok field =>
      simp only [Outcome.ofFault, bind, Except.bind]
      generalize (if field.isTruthy = true then field.elements else .ok []) = items
      cases items with
      | error f => rfl
      | ok items =>
        dsimp only
        cases items.mapM (Entry.ofItem p.schema p.decimalNumbers) with
        | error f => rfl
        | ok entries => rfl
  | _ => rfl

/-- The key to go on from is put under a name of its own, so a read stays limited or not. -/
theorem has_limit_insert (key : Value) (params : Params) :
    Entries.has "Limit" (Entries.insert "ExclusiveStartKey" key params) =
      Entries.has "Limit" params := by
  unfold Entries.has
  induction params with
  | nil => rfl
  | cons e es ih =>
    rw [Entries.insert]
    split
    · next he =>
      have hne : (e.1 == "Limit") = false := by
        rw [beq_iff_eq.mp he]
        decide
      rw [Entries.get?, Entries.get?, hne]
      rfl
    · rw [Entries.get?, Entries.get?]
      split
      · rfl
      · exact ih

/-- The read after a page that ends it. -/
theorem received_of_isLast {p : Pages} {page : Page} (h : isLast p.isLimited page.lastKey = true) :
    p.received page = { p with buffer := p.buffer ++ page.entries, isExhausted := true } :=
  if_pos h

/-- The read after a page that it goes on from. -/
theorem received_of_not_isLast {p : Pages} {page : Page}
    (h : isLast p.isLimited page.lastKey = false) :
    p.received page =
      { p with
        buffer := p.buffer ++ page.entries
        params := Entries.insert "ExclusiveStartKey" page.lastKey p.params } :=
  if_neg (ne_true_of_eq_false h)

theorem buffer_received (p : Pages) (page : Page) :
    (p.received page).buffer = p.buffer ++ page.entries := by
  cases h : isLast p.isLimited page.lastKey with
  | true => rw [received_of_isLast h]
  | false => rw [received_of_not_isLast h]

theorem reading_received (tell : Failure → Failure) (p : Pages) (page : Page) (l : Link) :
    (p.received page).reading tell l = p.reading tell l := by
  cases h : isLast p.isLimited page.lastKey with
  | true =>
    rw [received_of_isLast h]
    rfl
  | false =>
    rw [received_of_not_isLast h]
    simp only [reading, isLimited, has_limit_insert]

/-- After a page, the fetches left are those of its continuation. -/
theorem left_received (tell : Failure → Failure) {p : Pages} (page : Page) (l : Link)
    (h : p.isExhausted = false) :
    (p.received page).left tell l =
      if isLast p.isLimited page.lastKey then []
      else
        fetches (p.reading tell l) (Entries.insert "ExclusiveStartKey" page.lastKey p.params)
          l.replies := by
  rw [left, reading_received]
  cases hl : isLast p.isLimited page.lastKey with
  | true =>
    rw [received_of_isLast hl]
    rfl
  | false =>
    rw [received_of_not_isLast hl]
    simp only [h, Bool.false_eq_true, if_false]

/-! ## One fetch -/

variable {source : PageSource} {good : Params → Prop} {request : Params → Request}
  {tell : Failure → Failure}

/-- The read after a fetch. -/
def fetched (source : PageSource) (p : Pages) (l : Link) : Pages × Link :=
  match fetch source p l with
  | (.error e, l) => (p.failed e, l)
  | (.ok page, l) => (p.received page, l)

/-- A read that is not at its end makes the first of the fetches left: it sends the request of its
parameters, puts its entries behind the buffer, and leaves the other fetches. -/
theorem fetched_eq (ht : source.Tells good request tell) {p : Pages} {l : Link}
    (hp : good p.params) (hx : p.isExhausted = false) :
    ∃ f fs, p.left tell l = f :: fs ∧
      (fetched source p l).1.left tell (fetched source p l).2 = fs ∧
      (fetched source p l).1.buffer = p.buffer ++ f.entries ∧
      (fetched source p l).2.sent = l.sent ++ [request f.params] ∧
      good (fetched source p l).1.params := by
  have hleft : p.left tell l = fetches (p.reading tell l) p.params l.replies := by
    simp only [left, hx, Bool.false_eq_true, if_false]
  rw [hleft]
  unfold fetched fetch Link.send
  rw [ht.request_eq _ hp]
  dsimp only
  cases hr : l.replies with
  | nil =>
    rw [fetches]
    refine ⟨_, _, rfl, rfl, ?_, rfl, hp⟩
    show p.buffer ++ [Entry.ofFailure _] = _
    rw [ht.interpret_eq _ _ hp]
    rfl
  | cons reply replies =>
    cases reply with
    | error e =>
      rw [fetches]
      refine ⟨_, _, rfl, rfl, ?_, rfl, hp⟩
      show p.buffer ++ [Entry.ofFailure _] = _
      rw [ht.interpret_eq _ _ hp]
      rfl
    | ok reply =>
      rw [fetches]
      dsimp only
      rw [page_eq]
      show ∃ f fs, (match pageEntries p.schema p.decimalNumbers reply with
        | .error e => _
        | .ok entries => _) = f :: fs ∧ _
      cases pageEntries p.schema p.decimalNumbers reply with
      | error e => exact ⟨_, _, rfl, rfl, rfl, rfl, hp⟩
      | ok entries =>
        refine ⟨_, _, rfl, ?_, buffer_received p _, rfl, ?_⟩
        · exact left_received tell _ _ hx
        · dsimp only [Except.map]
          cases h : isLast p.isLimited (lastKey reply) with
          | true =>
            rw [received_of_isLast h]
            exact hp
          | false =>
            rw [received_of_not_isLast h]
            exact ht.insert _ _ hp

/-- Filling the buffer is fetching until there is an entry or the read is at its end. -/
theorem fill_eq (source : PageSource) (p : Pages) (l : Link) :
    fill source p l =
      if !p.buffer.isEmpty || p.isExhausted then (p, l)
      else fill source (fetched source p l).1 (fetched source p l).2 := by
  rw [fill]
  split
  · rfl
  · split
    · next e l' h =>
      have hf : fetched source p l = (p.failed e, l') := by rw [fetched, h]
      rw [hf, fill]
      simp only [failed, Bool.or_true, if_true]
    · next page l' h =>
      have hf : fetched source p l = (p.received page, l') := by rw [fetched, h]
      rw [hf]

theorem left_eq_nil (tell : Failure → Failure) {p : Pages} {l : Link} :
    p.left tell l = [] ↔ p.isExhausted = true := by
  unfold left
  split
  · next h => exact iff_of_true rfl h
  · next h =>
    refine iff_of_false ?_ h
    unfold fetches
    split
    · exact List.cons_ne_nil _ _
    · exact List.cons_ne_nil _ _
    · split
      · exact List.cons_ne_nil _ _
      · exact List.cons_ne_nil _ _

/-! ## Pulls -/

/-- The state of a read of the fetches `fs` over a connection that had sent `sent` before: `given`
entries were given, `asked` were asked for, and the first `k` fetches were made. -/
structure Progress (good : Params → Prop) (request : Params → Request) (tell : Failure → Failure)
    (fs : List Fetched) (sent : List Request) (given asked k : Nat) (p : Pages) (l : Link) :
    Prop where
  good_params : good p.params
  left_eq : p.left tell l = fs.drop k
  sent_eq : l.sent = sent ++ (fs.take k).map fun f => request f.params
  buffer_eq : p.buffer = (stream (fs.take k)).drop given
  le_length : k ≤ fs.length
  /-- What was given came from the fetches made, unless nothing was left to give. -/
  given_le : given ≤ (stream (fs.take k)).length ∨ k = fs.length
  /-- No fetch was made while those before it gave enough. -/
  lazy : ∀ j < k, (stream (fs.take j)).length < asked

namespace Progress

variable {fs : List Fetched} {sent : List Request} {given asked k : Nat} {p : Pages} {l : Link}

/-- The state of a read from its start. -/
theorem start (hp : good p.params) (hb : p.buffer = []) :
    Progress good request tell (p.left tell l) l.sent 0 0 0 p l :=
  ⟨hp, rfl, (List.append_nil _).symm, hb, Nat.zero_le _, .inl (Nat.zero_le _), nofun⟩

/-- A further entry is asked for. -/
theorem ask (h : Progress good request tell fs sent given given k p l) :
    Progress good request tell fs sent given (given + 1) k { p with isStarted := true } l :=
  ⟨h.good_params, h.left_eq, h.sent_eq, h.buffer_eq, h.le_length, h.given_le,
    fun j hj => Nat.lt_succ_of_lt (h.lazy j hj)⟩

theorem stream_take_length_le (fs : List Fetched) {j k : Nat} (h : j ≤ k) :
    (stream (fs.take j)).length ≤ (stream (fs.take k)).length := by
  obtain ⟨d, rfl⟩ := Nat.exists_eq_add_of_le h
  rw [List.take_add, stream_append, List.length_append]
  exact Nat.le_add_right _ _

/-- What was given by some first fetches is given by all, and nothing comes after all. -/
theorem stream_take_getElem? {fs : List Fetched} {i k : Nat}
    (h : i < (stream (fs.take k)).length ∨ k = fs.length) :
    (stream (fs.take k))[i]? = (stream fs)[i]? := by
  rcases h with h | rfl
  · have happend : stream fs = stream (fs.take k) ++ stream (fs.drop k) := by
      rw [← stream_append, List.take_append_drop]
    rw [happend, List.getElem?_append_left h]
  · rw [List.take_length]

/-- A fetch with nothing in the buffer is the next one, and is made for an entry asked for. -/
theorem fetched (ht : source.Tells good request tell)
    (h : Progress good request tell fs sent given (given + 1) k p l) (hb : p.buffer = [])
    (hx : p.isExhausted = false) :
    k < fs.length ∧
      Progress good request tell fs sent given (given + 1) (k + 1) (Pages.fetched source p l).1
        (Pages.fetched source p l).2 := by
  obtain ⟨f, rest, hleft, hrest, hbuf, hsent, hgood⟩ := fetched_eq ht h.good_params hx
  have hdrop : fs.drop k = f :: rest := h.left_eq.symm.trans hleft
  have hk : k < fs.length := by
    refine Nat.lt_of_not_le fun hle => ?_
    rw [List.drop_eq_nil_of_le hle] at hdrop
    exact List.cons_ne_nil _ _ hdrop.symm
  have hcons := List.drop_eq_getElem_cons hk
  rw [hdrop] at hcons
  obtain ⟨rfl, rfl⟩ := List.cons.inj hcons
  have htake : fs.take (k + 1) = fs.take k ++ [fs[k]] := (List.take_append_getElem hk).symm
  have hle : (stream (fs.take k)).length ≤ given := by
    rw [← List.drop_eq_nil_iff, ← h.buffer_eq, hb]
  have hge : given ≤ (stream (fs.take k)).length :=
    h.given_le.resolve_right (Nat.ne_of_lt hk)
  have hstream : stream (fs.take (k + 1)) = stream (fs.take k) ++ fs[k].entries := by
    rw [htake, stream_append]
    exact congrArg _ (List.append_nil _)
  refine ⟨hk, hgood, hrest, ?_, ?_, hk, ?_, ?_⟩
  · rw [hsent, h.sent_eq, htake, List.map_append, List.append_assoc]
    rfl
  · rw [hbuf, h.buffer_eq, hstream, List.drop_append_of_le_length hge]
  · exact .inl (Nat.le_trans hge (stream_take_length_le fs (Nat.le_succ k)))
  · intro j hj
    have := stream_take_length_le fs (Nat.le_of_lt_succ hj)
    omega

/-- Filling the buffer makes the next fetches until there is an entry or none is left. -/
theorem fill (ht : source.Tells good request tell)
    (h : Progress good request tell fs sent given (given + 1) k p l) :
    ∃ k', Progress good request tell fs sent given (given + 1) k' (Pages.fill source p l).1
        (Pages.fill source p l).2 ∧
      ((Pages.fill source p l).1.buffer ≠ [] ∨ k' = fs.length) := by
  -- each fetch makes `k` greater, and it stays at most the number of fetches
  induction hd : fs.length - k generalizing k p l with
  | zero =>
    have hk : k = fs.length := Nat.le_antisymm h.le_length (Nat.le_of_sub_eq_zero hd)
    have hx : p.isExhausted = true := by
      rw [← left_eq_nil tell (l := l), h.left_eq, hk, List.drop_length]
    rw [fill_eq, hx, Bool.or_true, if_pos rfl]
    exact ⟨k, h, .inr hk⟩
  | succ d ih =>
    rw [fill_eq]
    by_cases hb : p.buffer = []
    · have hx : p.isExhausted = false := by
        rw [← Bool.not_eq_true, ← left_eq_nil tell (l := l), h.left_eq, List.drop_eq_nil_iff]
        omega
      rw [hb, hx, if_neg (by decide)]
      refine ih (h.fetched ht hb hx).2 ?_
      omega
    · rw [if_pos (by rw [List.isEmpty_eq_false_iff.mpr hb]; rfl)]
      exact ⟨k, h, .inl hb⟩

/-- A pull gives the next entry of the stream, if there is one. -/
theorem pull (ht : source.Tells good request tell)
    (h : Progress good request tell fs sent given given k p l) :
    (Pages.pull source p l).1 = (stream fs)[given]? ∧
      ∃ k', Progress good request tell fs sent (given + 1) (given + 1) k'
        (Pages.pull source p l).2.1 (Pages.pull source p l).2.2 := by
  obtain ⟨k', hf, hend⟩ := h.ask.fill ht
  have hgiven : given < (stream (fs.take k')).length ∨ k' = fs.length := by
    refine hend.imp_left fun hb => ?_
    rw [hf.buffer_eq] at hb
    exact Nat.lt_of_not_le (mt List.drop_eq_nil_of_le hb)
  unfold Pages.pull
  generalize Pages.fill source { p with isStarted := true } l = after at hf
  obtain ⟨p', l'⟩ := after
  dsimp only at hf ⊢
  refine ⟨?_, k', hf.good_params, hf.left_eq, hf.sent_eq, ?_, hf.le_length, hgiven, hf.lazy⟩
  · show p'.buffer.head? = _
    rw [hf.buffer_eq, List.head?_drop]
    exact stream_take_getElem? hgiven
  · show p'.buffer.tail = _
    rw [hf.buffer_eq, List.tail_drop]

/-- Pulls give the next entries of the stream. -/
theorem pulls (ht : source.Tells good request tell) (n : Nat)
    (h : Progress good request tell fs sent given given k p l) :
    (Pages.pulls source n p l).1 = (List.range' given n).map (fun i => (stream fs)[i]?) ∧
      ∃ k', Progress good request tell fs sent (given + n) (given + n) k'
        (Pages.pulls source n p l).2.1 (Pages.pulls source n p l).2.2 := by
  induction n generalizing given k p l with
  | zero => exact ⟨rfl, k, h⟩
  | succ n ih =>
    obtain ⟨hentry, k', hnext⟩ := h.pull ht
    obtain ⟨hrest, k'', hlast⟩ := ih hnext
    refine ⟨?_, k'', ?_⟩
    · rw [List.range'_succ, List.map_cons, ← hentry, ← hrest]
      rfl
    · rw [← Nat.add_assoc, Nat.add_right_comm]
      exact hlast

end Progress

/-! ## Reads as streams -/

/-- A read starts with nothing in the buffer and not at its end. -/
theorem start_fresh {method : ReadMethod} {schema : Schema} {grammar : Grammar}
    {decimalNumbers : Bool} {compiled : Compiled} {limit : Value} {options : Params} {p : Pages}
    (h : start method schema grammar decimalNumbers compiled limit options = .ok p) :
    p.schema = schema ∧ p.decimalNumbers = decimalNumbers ∧ p.buffer = [] ∧
      p.isExhausted = false := by
  unfold start at h
  split at h
  · cases h
  · cases h
    exact ⟨rfl, rfl, rfl, rfl⟩

end Pages

end ItemStore
