import ItemStore.Proofs.Expression.Located
import ItemStore.Proofs.Table.Counted
import Mathlib.Algebra.Ring.Int.Defs

/-
  Counts over pages, by what is replied. A count asks for page after page. Its requests carry the
  filter and differ only in the key to go on from: the first has none, and each further one has the
  key of the page before (`AsksCount`). It ends with the first page that has no key, or an empty
  one, and gives the sum of the counts of all pages; or it ends with the first call that fails, or
  the first page whose count cannot be added, and gives that failure and no sum (`CountsFrom`, by
  induction on the replies `countPages_countsFrom`).
-/

namespace ItemStore

open Exchange

namespace Table

variable {t : Table} {c : Compiled} {l : Link}

/-! ## Requests of a count -/

/-- The parameters of a count that goes on from a key, if there is one. -/
def countOptions (c : Compiled) (key : Option Value) : Params :=
  ("Select", .text "COUNT") ::
    (c.toParams "FilterExpression" ++ (key.map fun k => ("ExclusiveStartKey", k)).toList)

/-- The request of a count: its parameters behind the name of the table. -/
def countCall (t : Table) (c : Compiled) (key : Option Value) : Request :=
  ⟨.scan, ("TableName", .text t.name) :: countOptions c key⟩

/-- No parameter of a filter has the name of another parameter of a count. -/
theorem notMem_toParams (c : Compiled) {name : String}
    (h : name ∈ ["TableName", "Select", "ExclusiveStartKey"]) :
    name ∉ (c.toParams "FilterExpression").map Prod.fst := by
  refine Entries.notMem_of_get? (c.nodup_toParams _) ?_
  refine Compiled.get?_toParams_other ?_ fun kind => ?_
  · rintro rfl
    exact absurd h (by decide)
  · rintro rfl
    revert h
    cases kind <;> decide

theorem countParams_eq (c : Compiled) :
    countParams (c.toParams "FilterExpression") = countOptions c none := by
  have hnodup : (([("Select", Value.text "COUNT")] ++ c.toParams "FilterExpression").map
      Prod.fst).Nodup :=
    List.nodup_cons.mpr ⟨notMem_toParams c (by decide), c.nodup_toParams _⟩
  rw [countParams, Entries.merge_of_nodup (fun f _ => Entries.sole_of_lawful f.1) hnodup,
    countOptions, Option.map_none, Option.toList_none, List.append_nil, List.singleton_append]

/-- The key of a page takes the place of the key before. -/
theorem insert_countOptions (c : Compiled) (key : Option Value) (k : Value) :
    Entries.insert "ExclusiveStartKey" k (countOptions c key) = countOptions c (some k) := by
  have hsole : Entries.Sole "ExclusiveStartKey" := Entries.sole_of_lawful _
  have hnames : "ExclusiveStartKey" ∉
      (("Select", Value.text "COUNT") :: c.toParams "FilterExpression").map Prod.fst :=
    List.not_mem_cons_of_ne_of_not_mem (by decide) (notMem_toParams c (by decide))
  cases key with
  | none =>
    rw [countOptions, Option.map_none, Option.toList_none, List.append_nil]
    exact Entries.insert_of_notMem hsole hnames
  | some k' => exact Entries.insert_append_singleton hsole hnames

theorem sendable_countOptions (c : Compiled) (key : Option Value) :
    Sendable (countOptions c key) := by
  have hnone : Sendable (countOptions c none) := by
    rw [← countParams_eq]
    exact sendable_countParams (.toParams c (by decide))
  cases key with
  | none => exact hnone
  | some k =>
    rw [← insert_countOptions c none k]
    exact hnone.insert (by decide) k

theorem scanCall_countOptions (t : Table) (c : Compiled) (key : Option Value) :
    t.scanCall (countOptions c key) = t.countCall c key := by
  have htable : "TableName" ∉ (countOptions c key).map Prod.fst := by
    have hne : "TableName" ≠ "Select" ∧ "TableName" ≠ "ExclusiveStartKey" := by decide
    refine List.not_mem_cons_of_ne_of_not_mem hne.1 ?_
    rw [List.map_append, List.mem_append, not_or]
    refine ⟨notMem_toParams c (by decide), ?_⟩
    cases key with
    | none => exact List.not_mem_nil
    | some k => exact List.not_mem_cons_of_ne_of_not_mem hne.2 List.not_mem_nil
  have hnodup : (([("TableName", Value.text t.name)] ++ countOptions c key).map Prod.fst).Nodup :=
    List.nodup_cons.mpr ⟨htable, (sendable_countOptions c key).nodup⟩
  rw [scanCall, Entries.merge_of_nodup (fun f _ => Entries.sole_of_lawful f.1) hnodup, countCall,
    List.singleton_append]

/-- The parameters that a request of a count can have. -/
def countFields : List String :=
  ["TableName", "Select", "FilterExpression", "ExpressionAttributeNames",
    "ExpressionAttributeValues", "ExclusiveStartKey"]

/-- What is asked of a request of a count, by the names of its parameters: the count of a page of
the table, with the text and both maps of the filter, each left out if it is empty, and the key to
go on from, if there is one. -/
structure AsksCount (t : Table) (c : Compiled) (key : Option Value) (r : Request) : Prop where
  operation_eq : r.operation = .scan
  table_eq : Entries.get? "TableName" r.params = some (.text t.name)
  select_eq : Entries.get? "Select" r.params = some (.text "COUNT")
  filter_eq : Entries.get? "FilterExpression" r.params =
    if c.expression = "" then none else some (.text c.expression)
  names_eq : Entries.get? "ExpressionAttributeNames" r.params =
    if c.names.isEmpty then none else some (.map (c.names.map fun b => (.text b.1, .text b.2)))
  values_eq : Entries.get? "ExpressionAttributeValues" r.params =
    if c.values.isEmpty then none else some (.map (c.values.map fun b => (.text b.1, b.2)))
  key_eq : Entries.get? "ExclusiveStartKey" r.params = key
  other : ∀ field ∉ countFields, Entries.get? field r.params = none
  nodup : (r.params.map Prod.fst).Nodup

theorem get?_countCall {field : String} (htable : field ≠ "TableName") (hselect : field ≠ "Select")
    (t : Table) (c : Compiled) (key : Option Value) :
    Entries.get? field (t.countCall c key).params =
      (Entries.get? field (c.toParams "FilterExpression")).or
        (Entries.get? field (key.map fun k => ("ExclusiveStartKey", k)).toList) := by
  rw [countCall, countOptions, Entries.get?_cons_of_ne htable.symm,
    Entries.get?_cons_of_ne hselect.symm, Entries.get?_append]

theorem get?_startKey (key : Option Value) (field : String) :
    Entries.get? field (key.map fun k => ("ExclusiveStartKey", k)).toList =
      if field = "ExclusiveStartKey" then key else none := by
  cases key with
  | none => exact (ite_self none).symm
  | some k =>
    by_cases hfield : field = "ExclusiveStartKey"
    · rw [hfield]
      rfl
    · rw [if_neg hfield]
      exact Entries.get?_cons_of_ne (Ne.symm hfield) k []

theorem asksCount_countCall (t : Table) (c : Compiled) (key : Option Value) :
    AsksCount t c key (t.countCall c key) := by
  have hfields : ∀ kind : BindingKind, kind.field ≠ "FilterExpression" := by
    intro kind
    cases kind <;> decide
  have hmap : ∀ kind : BindingKind, Entries.get? kind.field (t.countCall c key).params =
      sentMap (c.bindings kind) := by
    intro kind
    have htable : kind.field ≠ "TableName" := by cases kind <;> decide
    have hselect : kind.field ≠ "Select" := by cases kind <;> decide
    have hkey : kind.field ≠ "ExclusiveStartKey" := by cases kind <;> decide
    rw [get?_countCall htable hselect, get?_startKey, if_neg hkey, Option.or_none,
      Compiled.get?_toParams_field hfields]
  refine ⟨rfl, rfl, rfl, ?_, ?_, ?_, ?_, fun field hfield => ?_, ?_⟩
  · rw [get?_countCall (by decide) (by decide), get?_startKey, if_neg (by decide), Option.or_none,
      Compiled.get?_toParams_name hfields, Compiled.isEmpty]
    exact if_congr beq_iff_eq rfl rfl
  · refine (hmap .names).trans ?_
    rw [sentMap, Compiled.bindings, List.isEmpty_map]
  · refine (hmap .values).trans ?_
    rw [sentMap, Compiled.bindings, List.isEmpty_map]
  · rw [get?_countCall (by decide) (by decide), get?_startKey, if_pos rfl,
      Entries.get?_of_notMem (Entries.sole_of_lawful _) (notMem_toParams c (by decide)),
      Option.none_or]
  · have hne : ∀ name ∈ countFields, field ≠ name := by
      rintro name hname rfl
      exact hfield hname
    rw [get?_countCall (hne _ (by decide)) (hne _ (by decide)), get?_startKey,
      if_neg (hne _ (by decide)), Option.or_none,
      Compiled.get?_toParams_other (hne _ (by decide)).symm]
    rintro kind rfl
    cases kind <;> exact hfield (by decide)
  · rw [← scanCall_countOptions]
    exact Entries.nodup_merge (List.pairwise_singleton _ "TableName")

/-! ## Runs of a count -/

/-- The sum of a total and the counts of pages. -/
def sumCounts (total : Value) (pages : List Value) : Except Fault Value :=
  pages.foldlM addCount total

/-- A page that counts so many items, or has no count, which is none. -/
def Counts (page : Value) (n : Int) : Prop :=
  page.fieldD "Count" (.int 0) = .ok (.int n)

/-- Counts that are integers add up to their sum. -/
theorem sumCounts_int {pages : List Value} {counts : List Int}
    (h : List.Forall₂ Counts pages counts) (m : Int) :
    sumCounts (.int m) pages = .ok (.int (m + counts.sum)) := by
  induction h generalizing m with
  | nil => rw [List.sum_nil, Int.add_zero]; rfl
  | @cons page n pages counts hn _ ih =>
    rw [List.sum_cons, ← Int.add_assoc, ← ih (m + n), sumCounts, List.foldlM_cons,
      addCount_int hn]
    rfl

/-- The requests of a count that goes on from a key and gets pages that have keys: one for the key,
and one for the key of each page. -/
def AskCounts (t : Table) (c : Compiled) (key : Option Value) (pages : List Value)
    (rs : List Request) : Prop :=
  List.Forall₂ (AsksCount t c) (key :: pages.map fun page => some (lastKey page)) rs

theorem askCounts_single (t : Table) (c : Compiled) (key : Option Value) :
    AskCounts t c key [] [t.countCall c key] :=
  .cons (asksCount_countCall t c key) .nil

/-- What a count comes to that goes on from a key with a total, and what it sends. -/
inductive CountsFrom (t : Table) (c : Compiled) (key : Option Value) (start : Value) (l : Link) :
    Outcome Value → List Request → Prop
  /-- The last page is there. -/
  | total {pages : List Value} {last total : Value} {rs : List Request}
      (requests : AskCounts t c key pages rs)
      (replies : l.upcoming (pages.length + 1) = (pages ++ [last]).map .ok)
      (keys : ∀ page ∈ pages, (lastKey page).isTruthy = true)
      (ends : (lastKey last).isTruthy = false)
      (sum : sumCounts start (pages ++ [last]) = .ok total) :
      CountsFrom t c key start l (.ok total) rs
  /-- A call fails before. -/
  | failed {pages : List Value} {total : Value} {e : Failure} {rs : List Request}
      (requests : AskCounts t c key pages rs)
      (replies : l.upcoming (pages.length + 1) = pages.map .ok ++ [.error e])
      (keys : ∀ page ∈ pages, (lastKey page).isTruthy = true)
      (sum : sumCounts start pages = .ok total) :
      CountsFrom t c key start l (.error (t.scanFailure e)) rs
  /-- A page before has a count that cannot be added. -/
  | uncounted {pages : List Value} {page total : Value} {f : Fault} {rs : List Request}
      (requests : AskCounts t c key pages rs)
      (replies : l.upcoming (pages.length + 1) = (pages ++ [page]).map .ok)
      (keys : ∀ page ∈ pages, (lastKey page).isTruthy = true)
      (sum : sumCounts start pages = .ok total) (count : addCount total page = .error f) :
      CountsFrom t c key start l (.error (.fault f)) rs

/-- A page that has a key comes before the others. -/
theorem CountsFrom.cons {key : Option Value} {start start' page : Value}
    {outcome : Outcome Value} {rs : List Request} {r : Request}
    (hnext : l.next = .ok page) (hstart : addCount start page = .ok start')
    (hkey : (lastKey page).isTruthy = true)
    (h : CountsFrom t c (some (lastKey page)) start' (l.after r) outcome rs) :
    CountsFrom t c key start l outcome (t.countCall c key :: rs) := by
  have hreplies : ∀ (n : Nat) {replies : List (Outcome Value)},
      (l.after r).upcoming n = replies → l.upcoming (n + 1) = .ok page :: replies := by
    rintro n _ rfl
    rw [l.upcoming_succ r, hnext]
  have hsum : ∀ (pages : List Value), sumCounts start (page :: pages) = sumCounts start' pages := by
    intro pages
    rw [sumCounts, List.foldlM_cons, hstart]
    rfl
  have hask : ∀ {pages : List Value}, AskCounts t c (some (lastKey page)) pages rs →
      AskCounts t c key (page :: pages) (t.countCall c key :: rs) :=
    fun h => .cons (asksCount_countCall t c key) h
  cases h with
  | total requests replies keys ends sum =>
    exact .total (hask requests) (hreplies _ replies) (List.forall_mem_cons.mpr ⟨hkey, keys⟩) ends
      ((hsum _).trans sum)
  | failed requests replies keys sum =>
    exact .failed (hask requests) (hreplies _ replies) (List.forall_mem_cons.mpr ⟨hkey, keys⟩)
      ((hsum _).trans sum)
  | uncounted requests replies keys sum count =>
    exact .uncounted (hask requests) (hreplies _ replies) (List.forall_mem_cons.mpr ⟨hkey, keys⟩)
      ((hsum _).trans sum) count

/-- A call that fails is the last. -/
theorem countPages_of_next_error (t : Table) (c : Compiled) (key : Option Value) (start : Value)
    {e : Failure} (hnext : l.next = .error e) :
    ∃ rs, (t.countPages (countOptions c key) start l).2.sent = l.sent ++ rs ∧
      CountsFrom t c key start l (t.countPages (countOptions c key) start l).1 rs := by
  have hreplies : l.upcoming 1 = [.error e] := by
    rw [l.upcoming_succ (t.countCall c key), hnext]
    rfl
  rw [countPages_of_error (sendable_countOptions c key) start hnext, scanCall_countOptions]
  exact ⟨_, rfl, .failed (askCounts_single t c key) hreplies (List.forall_mem_nil _) rfl⟩

/-- Whatever is replied, a count from a key and a total on comes to its end. -/
theorem countPages_countsFrom (t : Table) (c : Compiled) (key : Option Value) (start : Value)
    (l : Link) :
    ∃ rs, (t.countPages (countOptions c key) start l).2.sent = l.sent ++ rs ∧
      CountsFrom t c key start l (t.countPages (countOptions c key) start l).1 rs := by
  induction hreplies : l.replies generalizing l key start with
  | nil => exact countPages_of_next_error t c key start (by rw [Link.next, hreplies]; rfl)
  | cons reply replies ih =>
    have hnext : l.next = reply := by
      rw [Link.next, hreplies]
      rfl
    cases reply with
    | error e => exact countPages_of_next_error t c key start hnext
    | ok page =>
      have hone : l.upcoming 1 = [.ok page] := by
        rw [l.upcoming_succ (t.countCall c key), hnext]
        rfl
      rw [countPages_of_ok (sendable_countOptions c key) start hnext, scanCall_countOptions,
        insert_countOptions]
      cases hadd : addCount start page with
      | error f =>
        exact ⟨_, rfl, .uncounted (askCounts_single t c key) hone (List.forall_mem_nil _) rfl hadd⟩
      | ok start' =>
        have hsum : sumCounts start [page] = .ok start' := by
          rw [sumCounts, List.foldlM_cons, hadd]
          rfl
        dsimp only
        cases hkey : (lastKey page).isTruthy with
        | false =>
          exact ⟨_, rfl, .total (askCounts_single t c key) hone (List.forall_mem_nil _) hkey hsum⟩
        | true =>
          obtain ⟨rs, hsent, hcounts⟩ := ih (some (lastKey page)) start'
            (l.after (t.countCall c key)) (by rw [Link.after, hreplies]; rfl)
          rw [if_pos rfl]
          refine ⟨t.countCall c key :: rs, ?_, hcounts.cons hnext hadd hkey⟩
          rw [hsent, Link.after, List.append_assoc]
          rfl

/-- A count over all pages of a filter, or of the whole table, for any replies. A filter that does
not compile is its failure, and nothing is sent. Otherwise page after page is asked for, up to the
first without a key to go on from, and the count is the sum of their counts; or a call fails before,
and its failure is all that the count gives. -/
theorem count_summed (t : Table) (manual : Value) {source : String}
    (hcounted : manual.isTruthy = true ∨ source.toList.all Text.isBlank = false) :
    (∀ e, Expression.compile t.grammar 1 source = .error e →
      t.count manual (.text source) = done (.error e.toFailure)) ∧
    ∀ c, Expression.compile t.grammar 1 source = .ok c →
      ∀ l, ∃ rs, (t.count manual (.text source) l).2.sent = l.sent ++ rs ∧
        CountsFrom t c none (.int 0) l (t.count manual (.text source) l).1 rs := by
  refine ⟨fun e he => count_of_error (Expression.compileValue_of_error he) manual,
    fun c hc l => ?_⟩
  have hcounted' : manual.isTruthy = true ∨ c.isEmpty = false :=
    hcounted.imp_right (Expression.isEmpty_of_compile hc).trans
  rw [count_of_compile (compileValue_text hc) hcounted', countParams_eq]
  exact countPages_countsFrom t c none (.int 0) l

/-- A page that counts so many items and has a key is followed by the next. -/
theorem countPages_of_counts {key : Option Value} {page : Value} {n : Int}
    (hnext : l.next = .ok page) (hcount : Counts page n) (m : Int) :
    t.countPages (countOptions c key) (.int m) l =
      if (lastKey page).isTruthy then
        t.countPages (countOptions c (some (lastKey page))) (.int (m + n))
          (l.after (t.countCall c key))
      else (.ok (.int (m + n)), l.after (t.countCall c key)) := by
  rw [countPages_of_ok (sendable_countOptions c key) _ hnext, addCount_int hcount,
    scanCall_countOptions, insert_countOptions]

/-- A filter with one name and one value. -/
def scoreFilter : Compiled where
  expression := "#V1 > :V2"
  names := [("#V1", "score")]
  values := [(":V2", .map [(.text "N", .text "10")])]

theorem compile_scoreFilter : Expression.compile .inferred 1 "score > 10" = .ok scoreFilter := by
  have hskeleton : Expression.skeleton .inferred "score > 10".toList =
      .ok [.name "score".toList, .char ' ', .char '>', .char ' ', .value (.number "10".toList)] :=
    Text.eq_ok_of_toOption (by decide +kernel)
  rw [Expression.compile, hskeleton, scoreFilter]
  refine congrArg Except.ok ?_
  rw [Compiled.mk.injEq]
  refine ⟨by decide +kernel, by decide +kernel, ?_⟩
  with_unfolding_all rfl

/-- A filter counted over three pages, which have three items: the requests carry the filter, and
each further one the key of the page before. -/
theorem count_summed_threePages :
    "score > 10".toList.all Text.isBlank = false ∧
      Expression.compile .inferred 1 "score > 10" = .ok scoreFilter ∧
      (eventsTable.count (.bool false) (.text "score > 10") threePages).1 = .ok (.int 3) ∧
      ∃ rs, (eventsTable.count (.bool false) (.text "score > 10") threePages).2.sent = rs ∧
        CountsFrom eventsTable scoreFilter none (.int 0) threePages (.ok (.int 3)) rs ∧
        rs.map (·.params) =
          [none, some (.record [("id", .record [("S", .text "b")])]),
            some (.record [("id", .record [("S", .text "c")])])].map fun key =>
              [("TableName", .text "events"), ("Select", .text "COUNT"),
                ("FilterExpression", .text "#V1 > :V2"),
                ("ExpressionAttributeNames", .map [(.text "#V1", .text "score")]),
                ("ExpressionAttributeValues",
                  .map [(.text ":V2", .map [(.text "N", .text "10")])])] ++
              (key.map fun k => ("ExclusiveStartKey", k)).toList := by
  have hsource : "score > 10".toList.all Text.isBlank = false := by decide +kernel
  obtain ⟨rs, hsent, hcounts⟩ :=
    (count_summed eventsTable (.bool false) (.inr hsource)).2 _ compile_scoreFilter threePages
  let second : Value := .record [("id", .record [("S", .text "b")])]
  let third : Value := .record [("id", .record [("S", .text "c")])]
  have hfirst : Counts (pageOf ["a", "b"] second) 2 := rfl
  have hsecond : Counts (pageOf [] third) 0 := rfl
  have hthird : Counts (pageOf ["d"] .null) 1 := rfl
  have hfirst' : (lastKey (pageOf ["a", "b"] second)).isTruthy = true := rfl
  have hsecond' : (lastKey (pageOf [] third)).isTruthy = true := rfl
  have hthird' : ¬(lastKey (pageOf ["d"] .null)).isTruthy = true := by decide
  have hpages : eventsTable.count (.bool false) (.text "score > 10") threePages =
      (.ok (.int 3), ((threePages.after (eventsTable.countCall scoreFilter none)).after
        (eventsTable.countCall scoreFilter (some second))).after
        (eventsTable.countCall scoreFilter (some third))) := by
    rw [count_of_compile (compileValue_text compile_scoreFilter) (.inr rfl), countParams_eq,
      countPages_of_counts rfl hfirst, if_pos hfirst', countPages_of_counts rfl hsecond,
      if_pos hsecond', countPages_of_counts rfl hthird, if_neg hthird']
    rfl
  rw [hpages] at hsent hcounts ⊢
  obtain rfl : _ = rs := hsent
  exact ⟨hsource, compile_scoreFilter, rfl, _, rfl, hcounts, rfl⟩

end Table

end ItemStore
