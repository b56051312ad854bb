import ItemStore.Proofs.Table.Sends
import ItemStore.Proofs.Wire.Nodes

/-
  Items that are there and items that are not. A reply to a read of one item has an item in it just
  if one is stored under the key. The read fails with the failure for items that are not found just
  if there is none, and the failure tells the table and the key that was sent; otherwise its outcome
  is what reading the item gives (`get_found`). Reading itself never fails with that failure
  (`plain_ne_itemNotFound`).

  The item in the reply must not be empty, as it may be where a projection is given: the read takes
  an empty item for one that is not there (`not_get_found`).
-/

namespace ItemStore

open Exchange

namespace Table

variable {t : Table} {hash range : Value} {key : Item}

theorem plain_ne_itemNotFound (t : Table) (item : Value) (name : String) (k : Value)
    (cause : Option Failure) : t.plain item ≠ .error (.itemNotFound name k cause) :=
  fun h => Value.onlyReads_fromItem t.decimalNumbers item _ h

/-- What a read of one item makes of a reply. -/
theorem get_of_reply (h : t.requireKey hash range = .ok key) (projection : Value) {l : Link}
    {es : List (Value × Value)} (hreply : l.next = .ok (.map es)) :
    (t.get hash range projection l).1 =
      if ((Entries.get? (.text "Item") es).getD .null).isTruthy then
        t.plain ((Entries.get? (.text "Item") es).getD .null)
      else .error (.itemNotFound t.name key.toValue none) := by
  rw [get_of_requireKey h, Exchange.andThen,
    Gateway.call_eq (t.request_getItem key projection) hreply]
  have hitem : (Value.map es).fieldD "Item" .null =
      .ok ((Entries.get? (.text "Item") es).getD .null) := rfl
  dsimp only
  rw [hitem]
  generalize (Entries.get? (.text "Item") es).getD .null = item
  show ((if item.isTruthy then done (t.plain item) else done _) _).1 = _
  split <;> rfl

/-- A read of one item sends its key once. It fails for an item that is not found just if the reply
has none, with the table and that key, and otherwise its outcome is what reading the item gives, an
answer or, of a tree of wire values, a marshalling failure. -/
theorem get_found (h : t.requireKey hash range = .ok key) (projection : Value) {l : Link}
    {es : List (Value × Value)} (hreply : l.next = .ok (.map es))
    (hfilled : ∀ item, Entries.get? (.text "Item") es = some item → item.isTruthy = true) :
    (t.get hash range projection l).2 = l.after (t.getCall key projection) ∧
    (∀ name k cause, (t.get hash range projection l).1 = .error (.itemNotFound name k cause) ↔
      Entries.get? (.text "Item") es = none ∧ name = t.name ∧ k = key.toValue ∧ cause = none) ∧
    ∀ item, Entries.get? (.text "Item") es = some item →
      (t.get hash range projection l).1 = item.fromItem t.decimalNumbers ∧
      ∀ fields, item = .map fields → (∀ e ∈ fields, e.2.IsTree) →
        (∃ v, item.fromItem t.decimalNumbers = .ok v) ∨ ∃ message w cause,
          item.fromItem t.decimalNumbers = .error (.marshal message w cause) := by
  have hget := get_of_reply h projection hreply
  refine ⟨get_sends h projection l, ?_, ?_⟩
  · intro name k cause
    cases hitem : Entries.get? (.text "Item") es with
    | none =>
      rw [hget, hitem, Option.getD_none, if_neg (by decide)]
      constructor
      · rintro ⟨⟩
        exact ⟨rfl, rfl, rfl, rfl⟩
      · rintro ⟨-, rfl, rfl, rfl⟩
        rfl
    | some item =>
      rw [hget, hitem, Option.getD_some, if_pos (hfilled item hitem)]
      exact ⟨fun hplain => absurd hplain (t.plain_ne_itemNotFound item name k cause), nofun⟩
  · intro item hitem
    rw [hget, hitem, Option.getD_some, if_pos (hfilled item hitem)]
    refine ⟨rfl, ?_⟩
    rintro fields rfl htrees
    exact (Value.fromItem_goes htrees t.decimalNumbers).ok_or_marshal

/-- A reply with an attribute that the projection selects. -/
def projectedReply : List (Value × Value) :=
  [(.text "Item", .map [(.text "n", Wire.tagged .n (.text "1"))])]

theorem get_found_projected : eventsTable.requireKey (.text "a") .null = .ok [("id", .s "a")] ∧
    (eventsTable.get (.text "a") .null (.text "n") { replies := [.ok (.map projectedReply)] }).1 =
      .ok (.map [(.text "n", .int 1)]) := by
  have hkey : eventsTable.requireKey (.text "a") .null = .ok [("id", .s "a")] := rfl
  have hitem : Entries.get? (.text "Item") projectedReply =
      some (.map [(.text "n", Wire.tagged .n (.text "1"))]) := rfl
  have hfilled : ∀ item, Entries.get? (.text "Item") projectedReply = some item →
      item.isTruthy = true := by
    rw [hitem]
    rintro _ ⟨⟩
    rfl
  exact ⟨hkey, ((get_found hkey (.text "n") (l := { replies := [.ok (.map projectedReply)] })
    rfl hfilled).2.2 _ hitem).1⟩

/-- An item that is there, but has no attribute that the projection selects, is not found. -/
theorem not_get_found : (Value.map []).fromItem eventsTable.decimalNumbers = .ok (.map []) ∧
    (eventsTable.get (.text "a") .null (.text "n")
      { replies := [.ok (.map [(.text "Item", .map [])])] }).1 =
        .error (.itemNotFound "events" (Item.toValue [("id", .s "a")]) none) :=
  ⟨rfl, rfl⟩

end Table

end ItemStore
