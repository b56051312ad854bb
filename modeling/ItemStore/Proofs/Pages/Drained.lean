import ItemStore.Proofs.Expression.Bindings
import ItemStore.Proofs.Pages.Stream
import ItemStore.Table.Gateway

/-
  Reads of a table that are taken to their end. A drain makes all fetches that a read has left, in
  order, and gives their entries in a row (`drain_eq_stream`), by induction on those fetches.

  The pages of a table are asked for by requests that name it. Parameters whose names are distinct
  and none of a call itself make such a request, and further ones are of the same kind once a key
  to go on from is put into them (`Sendable`); a failure is told in the same way for all of them.
  So what is known of reads from any such source holds of reads of a table (`pageSource_tells`).
-/

namespace ItemStore

namespace Pages

variable {source : PageSource} {good : Params → Prop} {request : Params → Request}
  {tell : Failure → Failure}

/-- Fetching all pages is fetching one page and then all that are left. -/
theorem fillAll_eq (source : PageSource) (p : Pages) (l : Link) :
    fillAll source p l =
      if p.isExhausted then (p, l)
      else fillAll source (fetched source p l).1 (fetched source p l).2 := by
  rw [fillAll]
  split
  · rfl
  · split
    · next e l' h =>
      have hf : fetched source p l = (p.failed e, l') := by rw [fetched, h]
      rw [hf, fillAll, if_pos (show (p.failed e).isExhausted = true from rfl)]
    · next page l' h =>
      have hf : fetched source p l = (p.received page, l') := by rw [fetched, h]
      rw [hf]

/-- Fetching all pages puts the entries of all fetches left behind the buffer, and sends their
requests. -/
theorem fillAll_spec (ht : source.Tells good request tell) {p : Pages} {l : Link}
    (hp : good p.params) :
    (fillAll source p l).1.buffer = p.buffer ++ stream (p.left tell l) ∧
      (fillAll source p l).2.sent = l.sent ++ (p.left tell l).map fun f => request f.params := by
  induction hleft : p.left tell l generalizing p l with
  | nil =>
    rw [fillAll_eq, if_pos ((left_eq_nil tell).mp hleft)]
    exact ⟨(List.append_nil _).symm, (List.append_nil _).symm⟩
  | cons f fs ih =>
    have hx : p.isExhausted = false := by
      rw [← Bool.not_eq_true, ← left_eq_nil tell (l := l), hleft]
      exact List.cons_ne_nil _ _
    obtain ⟨f', fs', hleft', hrest, hbuffer, hsent, hgood⟩ := fetched_eq ht (l := l) hp hx
    rw [hleft] at hleft'
    cases hleft'
    obtain ⟨ihbuffer, ihsent⟩ := ih hgood hrest
    rw [fillAll_eq, if_neg (by rw [hx]; exact Bool.false_ne_true), ihbuffer, ihsent, hbuffer,
      hsent, List.append_assoc, List.append_assoc]
    exact ⟨rfl, rfl⟩

/-- A drain gives the entries of all fetches that a read has left, and sends their requests. -/
theorem drain_eq_stream (ht : source.Tells good request tell) {p : Pages} {l : Link}
    (hp : good p.params) (hbuffer : p.buffer = []) :
    (drain source p l).1 = stream (p.left tell l) ∧
      (drain source p l).2.2.sent =
        l.sent ++ (p.left tell l).map fun f => request f.params := by
  obtain ⟨hentries, hsent⟩ := fillAll_spec (p := { p with isStarted := true }) ht hp (l := l)
  refine ⟨?_, hsent⟩
  show (fillAll source { p with isStarted := true } l).1.buffer = _
  rw [hentries]
  show p.buffer ++ _ = _
  rw [hbuffer]
  rfl

end Pages

/-! ## Pages of a table -/

/-- Parameters with distinct names, none of which belongs to a call itself. -/
structure Sendable (params : Params) : Prop where
  nodup : (params.map Prod.fst).Nodup
  free : ∀ name ∈ Gateway.resourceOption :: Gateway.reservedNames,
    Entries.get? name params = none

namespace Sendable

variable {params : Params}

theorem insert (h : Sendable params) {field : String}
    (hfield : field ∉ Gateway.resourceOption :: Gateway.reservedNames) (v : Value) :
    Sendable (Entries.insert field v params) := by
  refine ⟨Entries.nodup_insert h.nodup, fun name hname => ?_⟩
  have hne : field ≠ name := by
    rintro rfl
    exact hfield hname
  rw [Entries.get?_insert_of_ne hne, h.free name hname]

/-- The parameters of an expression. -/
theorem toParams (c : Compiled) {field : String}
    (hfield : field ∉ Gateway.resourceOption :: Gateway.reservedNames) :
    Sendable (c.toParams field) := by
  refine ⟨c.nodup_toParams field, fun name hname => ?_⟩
  have hne : field ≠ name := by
    rintro rfl
    exact hfield hname
  refine Compiled.get?_toParams_other hne fun kind => ?_
  rintro rfl
  revert hname
  cases kind <;> decide

theorem resourceOf_eq (h : Sendable params) : Gateway.resourceOf params = .null := by
  rw [Gateway.resourceOf, h.free _ List.mem_cons_self]
  rfl

/-- They make a request that has them as they are, behind the name of the table. -/
theorem request_eq (h : Sendable params) (g : Gateway) (operation : Operation) :
    g.request operation params =
      .ok ⟨operation, Entries.merge [("TableName", .text g.tableName)] params⟩ := by
  have hfree : Entries.hasAny Gateway.reservedNames params = false :=
    Entries.hasAny_eq_false_of_get? h.nodup fun name hname =>
      h.free name (List.mem_cons_of_mem _ hname)
  have herase : Entries.erase Gateway.resourceOption params = params :=
    Entries.erase_of_get?_eq_none (h.free _ List.mem_cons_self)
  rw [Gateway.request, hfree, herase]
  rfl

end Sendable

/-- The pages of a table are asked for by requests that name it. -/
theorem Gateway.pageSource_tells (g : Gateway) (method : ReadMethod) :
    (g.pageSource method).Tells Sendable
      (fun params => ⟨method.operation, Entries.merge [("TableName", .text g.tableName)] params⟩)
      (fun f => f.interpreted method.operation.name g.tableName .null) where
  request_eq _ h := h.request_eq g method.operation
  interpret_eq _ f h := by
    show f.interpreted _ _ (resourceOf _) = _
    rw [h.resourceOf_eq]
  insert _ key h := h.insert (by decide) key

end ItemStore
