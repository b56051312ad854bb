import ItemStore.Proofs.Pages.Drained
import ItemStore.Proofs.Table.Sends

/-
  Counts and scans. A count that goes over all pages is a loop of its own beside that of a scan.
  Both start from the same filter, and each goes on from the key that a page names, so they ask for
  the same pages, the count with one parameter more. If every page has as many items as it says,
  the count is the number of entries that the scan gives, or the failure that the scan ends in
  (`count_eq_drain`). By induction on the replies, from the fetches that the scan makes.

  The two loops end in different ways. A scan goes on unless the key is null, and a count unless it
  is null, empty or zero. Those keys are left out of what is proved, and with an empty key the scan
  asks for a page that the count does not (`not_count_eq_drain`).
-/

namespace ItemStore

open Exchange

/-! ## Entries of pages -/

theorem Entry.error_ofFields {fields : Params} {error : Option Failure} {e : Entry}
    (h : Entry.ofFields fields error = .ok e) : e.error = error := by
  unfold Entry.ofFields at h
  cases hkey : fieldOr fields "key" [] Field.elements with
  | refused issues =>
    rw [hkey] at h
    cases h
  | taken key =>
    cases hvalue : fieldOr fields "value" [] (Field.mapping Field.anything) with
    | refused issues =>
      rw [hkey, hvalue] at h
      cases h
    | taken value =>
      rw [hkey, hvalue] at h
      cases h
      rfl

theorem Entry.isItem_of_ofItem {s : Schema} {decimalNumbers : Bool} {item : Value} {e : Entry}
    (h : Entry.ofItem s decimalNumbers item = .ok e) : e.isItem = true := by
  unfold Entry.ofItem at h
  cases hsplit : s.split item decimalNumbers with
  | error f =>
    rw [hsplit] at h
    cases h
  | ok parts =>
    rw [hsplit] at h
    rw [Entry.isItem, Entry.error_ofFields h]
    rfl

/-- The entries of a page are items. -/
theorem isItem_of_pageEntries {s : Schema} {decimalNumbers : Bool} {reply : Value}
    {es : List Entry} (h : pageEntries s decimalNumbers reply = .ok es) :
    ∀ e ∈ es, e.isItem = true := by
  unfold pageEntries at h
  cases hitems : pageItems reply with
  | error f =>
    rw [hitems] at h
    cases h
  | ok items =>
    rw [hitems] at h
    exact forall_of_mapM h fun _ _ => Entry.isItem_of_ofItem

/-! ## Filters -/

/-- What compiles to no text has no parameters. -/
theorem Compiled.toParams_eq_nil {g : Grammar} {start : Int} {source : Value} {c : Compiled}
    (h : Expression.compileValue g start source = .ok c) (hempty : c.isEmpty = true)
    (field : String) : c.toParams field = [] := by
  obtain ⟨ps, rfl⟩ := Expression.exists_fill_of_compileValue h
  have hps : ps = [] := by
    have htext : ps.text start = [] := String.ofList_injective (beq_iff_eq.mp hempty)
    cases ps with
    | nil => rfl
    | cons p ps => cases p <;> cases htext
  rw [hps]
  rfl

namespace Table

variable {t : Table} {params params' : Params} {l : Link}

/-- A page whose items can be read and are as many as it says, and whose key to go on from is not
empty. -/
structure IsCounted (t : Table) (reply : Value) : Prop where
  count_eq : ∃ es, pageEntries t.schema t.decimalNumbers reply = .ok es ∧
    reply.fieldD "Count" (.int 0) = .ok (.int es.length)
  key : lastKey reply = .null ∨ (lastKey reply).isTruthy = true

/-- The request of a page of a scan. -/
def scanCall (t : Table) (params : Params) : Request :=
  ⟨.scan, Entries.merge [("TableName", .text t.name)] params⟩

/-- The failure of a page of a scan. -/
def scanFailure (t : Table) (f : Failure) : Failure :=
  f.interpreted Operation.scan.name t.name .null

/-- Parameters of a count that are those of a scan but for what is selected. -/
structure CountsFor (params params' : Params) : Prop where
  scan : Entries.get? "Select" params = none
  count : Entries.get? "Select" params' = some (.text "COUNT")
  other : ∀ field, field ≠ "Select" → Entries.get? field params' = Entries.get? field params

/-- What a count comes to, beside the entries of a scan: their number if all are items, or else the
failure that the last one is of. -/
inductive Tallies : List Entry → Outcome Value → Prop
  | items {es : List Entry} (h : ∀ e ∈ es, e.isItem = true) : Tallies es (.ok (.int es.length))
  | failure (es : List Entry) (f : Failure) : Tallies (es ++ [.ofFailure f]) (.error f)

/-! ## One page of a count -/

theorem countPages_of_error (h : Sendable params) (total : Value) {e : Failure}
    (hnext : l.next = .error e) :
    t.countPages params total l = (.error (t.scanFailure e), l.after (t.scanCall params)) := by
  have hsend : Link.send (t.scanCall params) l = (.error e, l.after (t.scanCall params)) := by
    rw [Link.send_eq, hnext]
  rw [countPages, h.request_eq]
  dsimp only
  split
  · next e' l' hsend' =>
    cases hsend.symm.trans hsend'
    rw [h.resourceOf_eq]
    rfl
  · next reply l' hsend' => cases hsend.symm.trans hsend'

/-- A total and the count of one more page, which is nothing if the page has none. -/
def addCount (total reply : Value) : Except Fault Value := do
  total.plus (← reply.fieldD "Count" (.int 0))

theorem addCount_int {reply : Value} {n : Int} (h : reply.fieldD "Count" (.int 0) = .ok (.int n))
    (m : Int) : addCount (.int m) reply = .ok (.int (m + n)) := by
  rw [addCount, h]
  rfl

theorem countPages_of_ok (h : Sendable params) (total : Value) {reply : Value}
    (hnext : l.next = .ok reply) :
    t.countPages params total l =
      match addCount total reply with
      | .error f => (.error (.fault f), l.after (t.scanCall params))
      | .ok total' =>
        if (lastKey reply).isTruthy then
          t.countPages (Entries.insert "ExclusiveStartKey" (lastKey reply) params) total'
            (l.after (t.scanCall params))
        else (.ok total', l.after (t.scanCall params)) := by
  have hsend : Link.send (t.scanCall params) l = (.ok reply, l.after (t.scanCall params)) := by
    rw [Link.send_eq, hnext]
  rw [countPages, h.request_eq]
  dsimp only
  split
  · next e l' hsend' => cases hsend.symm.trans hsend'
  · next reply' l' hsend' =>
    cases hsend.symm.trans hsend'
    cases reply with
    | map es =>
      have hlast : (Value.map es).fieldD "LastEvaluatedKey" .null = .ok (lastKey (.map es)) := rfl
      rw [addCount, hlast]
      cases (Value.map es).fieldD "Count" (.int 0) <;> rfl
    | _ => rfl

/-! ## Parameters of a count -/

theorem CountsFor.insert (h : CountsFor params params') {field : String} (hfield : field ≠ "Select")
    (v : Value) : CountsFor (Entries.insert field v params) (Entries.insert field v params') := by
  have hinsert : ∀ (name : String) (ps : Params), Entries.get? name (Entries.insert field v ps) =
      if field == name then some v else Entries.get? name ps :=
    fun name ps => Entries.get?_insert (Entries.sole_of_lawful _) (Entries.sole_of_lawful _) v ps
  refine ⟨?_, ?_, fun name hname => ?_⟩
  · rw [Entries.get?_insert_of_ne hfield, h.scan]
  · rw [Entries.get?_insert_of_ne hfield, h.count]
  · rw [hinsert, hinsert, h.other name hname]

/-- The requests of a scan and of a count differ as their parameters do. -/
theorem CountsFor.scanCall (h : CountsFor params params') (hparams : Sendable params)
    (hparams' : Sendable params') (t : Table) :
    CountsFor (t.scanCall params).params (t.scanCall params').params := by
  have hmerge : ∀ (name : String) {ps : Params}, Sendable ps →
      Entries.get? name (t.scanCall ps).params =
        (Entries.get? name ps).or (Entries.get? name [("TableName", .text t.name)]) :=
    fun name _ hps => Entries.get?_merge_of_nodup hps.nodup name _
  refine ⟨?_, ?_, fun name hname => ?_⟩
  · rw [hmerge _ hparams, h.scan]
    rfl
  · rw [hmerge _ hparams', h.count]
    rfl
  · rw [hmerge _ hparams, hmerge _ hparams', h.other name hname]

/-- The parameters that a count starts with. -/
def countParams (params : Params) : Params :=
  Entries.merge [("Select", .text "COUNT")] params

theorem get?_countParams (h : Sendable params) (name : String) :
    Entries.get? name (countParams params) =
      (Entries.get? name params).or (Entries.get? name [("Select", .text "COUNT")]) :=
  Entries.get?_merge_of_nodup h.nodup name _

theorem sendable_countParams (h : Sendable params) : Sendable (countParams params) := by
  refine ⟨Entries.nodup_merge (List.pairwise_singleton _ "Select"), fun name hname => ?_⟩
  have hne : "Select" ≠ name := by
    rintro rfl
    exact absurd hname (by decide)
  rw [get?_countParams h, h.free name hname, Option.none_or, Entries.get?,
    if_neg (mt beq_iff_eq.mp hne)]
  rfl

theorem countsFor_countParams (h : Sendable params)
    (hselect : Entries.get? "Select" params = none) : CountsFor params (countParams params) := by
  refine ⟨hselect, ?_, fun name hname => ?_⟩
  · rw [get?_countParams h, hselect]
    rfl
  · have hnone : Entries.get? name [("Select", Value.text "COUNT")] = none := by
      rw [Entries.get?, if_neg (mt beq_iff_eq.mp hname.symm)]
      rfl
    rw [get?_countParams h, hnone, Option.or_none]

/-! ## All pages of a count -/

/-- A request of a scan and one of a count, for the same page. -/
def CountsAs (scan count : Request) : Prop :=
  scan.operation = .scan ∧ count.operation = .scan ∧ CountsFor scan.params count.params

theorem isLast_of_isCounted {reply : Value} (h : t.IsCounted reply) :
    isLast false (lastKey reply) = !(lastKey reply).isTruthy := by
  rcases h.key with hnull | htruthy
  · rw [hnull]
    rfl
  · rw [htruthy]
    cases hkey : lastKey reply with
    | null =>
      rw [hkey] at htruthy
      cases htruthy
    | _ => rfl

/-- How a scan of the table takes the replies of a connection. -/
def reading (t : Table) (l : Link) : Reading :=
  { schema := t.schema, decimalNumbers := t.decimalNumbers, isLimited := false,
    tell := t.scanFailure, silence := l.silence }

/-- From parameters that are alike on, a count asks for the pages that a scan fetches, and comes to
the items that it has seen and those that the scan still gives. -/
theorem countPages_tallies {seen : List Entry} (hseen : ∀ e ∈ seen, e.isItem = true)
    (hparams : Sendable params) (hparams' : Sendable params') (hfor : CountsFor params params')
    (hpages : ∀ reply, .ok reply ∈ l.replies → t.IsCounted reply) :
    ∃ counts, (t.countPages params' (.int seen.length) l).2.sent = l.sent ++ counts ∧
      List.Forall₂ CountsAs
        ((fetches (t.reading l) params l.replies).map fun f => t.scanCall f.params) counts ∧
      Tallies (seen ++ stream (fetches (t.reading l) params l.replies))
        (t.countPages params' (.int seen.length) l).1 := by
  have hcall : CountsAs (t.scanCall params) (t.scanCall params') :=
    ⟨rfl, rfl, hfor.scanCall hparams hparams' t⟩
  induction hreplies : l.replies generalizing l params params' seen with
  | nil =>
    have hnext : l.next = .error l.silence := by
      rw [Link.next, hreplies]
      rfl
    rw [countPages_of_error hparams' _ hnext, fetches]
    refine ⟨[t.scanCall params'], rfl, .cons hcall .nil, ?_⟩
    exact .failure seen _
  | cons reply replies ih =>
    cases reply with
    | error e =>
      have hnext : l.next = .error e := by
        rw [Link.next, hreplies]
        rfl
      rw [countPages_of_error hparams' _ hnext, fetches]
      refine ⟨[t.scanCall params'], rfl, .cons hcall .nil, ?_⟩
      exact .failure seen _
    | ok reply =>
      have hnext : l.next = .ok reply := by
        rw [Link.next, hreplies]
        rfl
      have hpage := hpages reply (hreplies ▸ List.mem_cons_self)
      obtain ⟨es, hes, hcount⟩ := hpage.count_eq
      have hes' : pageEntries (t.reading l).schema (t.reading l).decimalNumbers reply =
          .ok es := hes
      have hseen' : ∀ e ∈ seen ++ es, e.isItem = true := fun e he =>
        (List.mem_append.mp he).elim (hseen e) (isItem_of_pageEntries hes e)
      rw [countPages_of_ok hparams' _ hnext, addCount_int hcount, fetches, hes']
      dsimp only
      rw [show (t.reading l).isLimited = false from rfl, isLast_of_isCounted hpage,
        ← Int.natCast_add, ← List.length_append]
      cases htruthy : (lastKey reply).isTruthy with
      | false =>
        refine ⟨[t.scanCall params'], rfl, .cons hcall .nil, ?_⟩
        have hstream : stream [⟨params, es⟩] = es := List.append_nil es
        exact hstream.symm ▸ .items hseen'
      | true =>
        have hkey : "ExclusiveStartKey" ∉ Gateway.resourceOption :: Gateway.reservedNames := by
          decide
        have hfor' := hfor.insert (show "ExclusiveStartKey" ≠ "Select" by decide) (lastKey reply)
        obtain ⟨counts, hsent, hcounts, htallies⟩ := ih (l := l.after (t.scanCall params')) hseen'
          (hparams.insert hkey _) (hparams'.insert hkey _) hfor'
          (fun reply' h => hpages reply' (List.mem_of_mem_tail h))
          ⟨rfl, rfl, hfor'.scanCall (hparams.insert hkey _) (hparams'.insert hkey _) t⟩
          (by rw [Link.after, hreplies]; rfl)
        refine ⟨t.scanCall params' :: counts, ?_, .cons hcall hcounts, ?_⟩
        · rw [if_pos rfl, hsent, Link.after, List.append_assoc]
          rfl
        · rw [List.append_assoc] at htallies
          exact htallies

/-! ## Counts and scans -/

/-- A count that is asked to go over the pages, or has a filter. -/
theorem count_of_compile {source manual : Value} {c : Compiled}
    (hc : t.compile source 1 = .ok c) (hcounted : manual.isTruthy = true ∨ c.isEmpty = false) :
    t.count manual source =
      t.countPages (countParams (c.toParams "FilterExpression")) (.int 0) := by
  have hfilter : (if c.isEmpty then [] else c.toParams "FilterExpression") =
      c.toParams "FilterExpression" := by
    split
    · next hempty => exact (Compiled.toParams_eq_nil hc hempty _).symm
    · rfl
  have hpages : (!manual.isTruthy && c.isEmpty) = false := by
    rcases hcounted with h | h
    · rw [h]
      rfl
    · rw [h, Bool.and_false]
  unfold count
  rw [hc]
  show (if !manual.isTruthy && c.isEmpty then t.notedCount
    else t.countPages (Entries.merge _ (if c.isEmpty then [] else _)) _) = _
  rw [hpages, hfilter]
  rfl

theorem count_of_error {source : Value} {e : Failure} (h : t.compile source 1 = .error e)
    (manual : Value) : t.count manual source = done (.error e) := by
  unfold count
  rw [h]
  rfl

/-- A scan of a compiled filter, before its first page. -/
theorem scan_of_compile {source : Value} {c : Compiled} (hc : t.compile source 1 = .ok c) :
    ∃ p, t.scan source .null .null [] = .ok p ∧ p.params = c.toParams "FilterExpression" ∧
      p.schema = t.schema ∧ p.decimalNumbers = t.decimalNumbers ∧ p.buffer = [] ∧
      p.isExhausted = false := by
  have hparams : Entries.merge [] (c.toParams "FilterExpression") =
      c.toParams "FilterExpression" := Entries.ofPairs_of_nodup (c.nodup_toParams _)
  unfold scan read
  rw [hc]
  refine ⟨_, rfl, ?_, rfl, rfl, rfl, rfl⟩
  exact hparams

/-- A count over all pages and a scan that is taken to its end, of one filter and over the same
pages: the filter does not compile for either, or they send as many requests, which differ in what
is selected and in nothing else, and the count is the number of entries that the scan gives, or the
failure that the scan ends in. -/
theorem count_eq_drain (t : Table) (source : Value) (l : Link)
    (hpages : ∀ reply, .ok reply ∈ l.replies → t.IsCounted reply) :
    (∃ e, t.scan source .null .null [] = .error e ∧
      t.count (.bool true) source = done (.error e)) ∨
      ∃ p, t.scan source .null .null [] = .ok p ∧ ∃ scans counts,
        (Pages.drain (t.gateway.pageSource .scan) p l).2.2.sent = l.sent ++ scans ∧
        (t.count (.bool true) source l).2.sent = l.sent ++ counts ∧
        List.Forall₂ CountsAs scans counts ∧
        Tallies (Pages.drain (t.gateway.pageSource .scan) p l).1
          (t.count (.bool true) source l).1 := by
  cases hc : t.compile source 1 with
  | error e =>
    refine .inl ⟨e, ?_, count_of_error hc _⟩
    unfold scan read
    rw [hc]
    rfl
  | ok c =>
    obtain ⟨p, hp, hparams, hschema, hdecimal, hbuffer, hx⟩ := scan_of_compile hc
    have hselect : Entries.get? "Select" (c.toParams "FilterExpression") = none :=
      Compiled.get?_toParams_other (by decide) fun kind => by cases kind <;> decide
    have hlimit : Entries.get? "Limit" (c.toParams "FilterExpression") = none :=
      Compiled.get?_toParams_other (by decide) fun kind => by cases kind <;> decide
    have hsendable : Sendable (c.toParams "FilterExpression") := .toParams c (by decide)
    have hleft : p.left t.scanFailure l =
        fetches (t.reading l) (c.toParams "FilterExpression") l.replies := by
      have hreading : p.reading t.scanFailure l = t.reading l := by
        rw [Pages.reading, Pages.isLimited, hschema, hdecimal, hparams, Entries.has, hlimit]
        rfl
      rw [Pages.left, hx, if_neg Bool.false_ne_true, hreading, hparams]
    obtain ⟨hentries, hsent⟩ := Pages.drain_eq_stream (t.gateway.pageSource_tells .scan) (l := l)
      (hparams ▸ hsendable) hbuffer
    obtain ⟨counts, hcounts, hrequests, htallies⟩ := countPages_tallies (l := l)
      (List.forall_mem_nil _) hsendable (sendable_countParams hsendable)
      (countsFor_countParams hsendable hselect) hpages
    have hentries' : (Pages.drain (t.gateway.pageSource .scan) p l).1 =
        stream (fetches (t.reading l) (c.toParams "FilterExpression") l.replies) :=
      hentries.trans (congrArg stream hleft)
    have hsent' : (Pages.drain (t.gateway.pageSource .scan) p l).2.2.sent = l.sent ++
        (fetches (t.reading l) (c.toParams "FilterExpression") l.replies).map
          fun f => t.scanCall f.params :=
      hsent.trans (congrArg (fun fs => l.sent ++ fs.map fun f => t.scanCall f.params) hleft)
    rw [count_of_compile hc (.inl rfl)]
    refine .inr ⟨p, hp, _, counts, hsent', hcounts, hrequests, ?_⟩
    rw [hentries']
    exact htallies

/-- A page of items under the given hash values. -/
def pageOf (names : List String) (key : Value) : Value :=
  .record [("Items", .list (names.map fun name => .record [("id", .record [("S", .text name)])])),
    ("Count", .int names.length), ("LastEvaluatedKey", key)]

/-- Three pages, the second without items. -/
def threePages : Link :=
  { replies := [.ok (pageOf ["a", "b"] (.record [("id", .record [("S", .text "b")])])),
      .ok (pageOf [] (.record [("id", .record [("S", .text "c")])])),
      .ok (pageOf ["d"] .null)] }

theorem count_eq_drain_threePages :
    (∀ reply, .ok reply ∈ threePages.replies → eventsTable.IsCounted reply) ∧
      ∃ p, eventsTable.scan (.text "score > 10") .null .null [] = .ok p ∧ ∃ scans counts,
        (Pages.drain (eventsTable.gateway.pageSource .scan) p threePages).2.2.sent = scans ∧
        (eventsTable.count (.bool true) (.text "score > 10") threePages).2.sent = counts ∧
        List.Forall₂ CountsAs scans counts ∧
        Tallies (Pages.drain (eventsTable.gateway.pageSource .scan) p threePages).1
          (eventsTable.count (.bool true) (.text "score > 10") threePages).1 := by
  have hpages : ∀ reply, .ok reply ∈ threePages.replies → eventsTable.IsCounted reply := by
    intro reply hreply
    simp only [threePages, List.mem_cons, List.not_mem_nil, or_false, Except.ok.injEq] at hreply
    rcases hreply with rfl | rfl | rfl
    · exact ⟨⟨_, rfl, rfl⟩, .inr rfl⟩
    · exact ⟨⟨_, rfl, rfl⟩, .inr rfl⟩
    · exact ⟨⟨_, rfl, rfl⟩, .inl rfl⟩
  have hok : (eventsTable.scan (.text "score > 10") .null .null []).isOk = true := by
    decide +kernel
  rcases eventsTable.count_eq_drain (.text "score > 10") threePages hpages with
    ⟨e, he, -⟩ | ⟨p, hp, scans, counts, hscans, hcounts, hrequests, htallies⟩
  · rw [he] at hok
    cases hok
  · exact ⟨hpages, p, hp, scans, counts, hscans, hcounts, hrequests, htallies⟩

/-- A page without items whose key is there but empty: the scan goes on and finds an item, and the
count ends. -/
theorem not_count_eq_drain :
    let l : Link := { replies := [.ok (pageOf [] (.map [])), .ok (pageOf ["a"] .null)] }
    ∃ p, eventsTable.scan .null .null .null [] = .ok p ∧
      (Pages.drain (eventsTable.gateway.pageSource .scan) p l).1.length = 1 ∧
      (Pages.drain (eventsTable.gateway.pageSource .scan) p l).2.2.sent.length = 2 ∧
      (eventsTable.count (.bool true) .null l).1 = .ok (.int 0) ∧
      (eventsTable.count (.bool true) .null l).2.sent.length = 1 := by
  intro l
  have hcount : eventsTable.count (.bool true) .null l =
      (.ok (.int 0), l.after (eventsTable.scanCall (countParams []))) := by
    have hstart : eventsTable.count (.bool true) .null =
        eventsTable.countPages (countParams []) (.int (0 : Nat)) := rfl
    have hsendable : Sendable [] := ⟨List.nodup_nil, fun _ _ => rfl⟩
    rw [hstart, countPages_of_ok (sendable_countParams hsendable) _ rfl]
    rfl
  rw [hcount]
  refine ⟨_, rfl, ?_, ?_, rfl, rfl⟩
  · decide +kernel
  · decide +kernel

end Table

end ItemStore
