import ItemStore.Expression.Compiled
import ItemStore.Fields.Types

/-
  Compiled expressions made from fields rather than from a source.
-/

namespace ItemStore

namespace Compiled

/-- A compiled expression from fields; each that is missing is empty. -/
def ofFields (fields : Params) : Outcome Compiled :=
  let expression := fieldOr fields "expression" "" Field.text
  let names := fieldOr fields "names" [] (Field.mapping Field.text)
  let wires := Field.mapping (Field.mapping Field.anything)
  let values := fieldOr fields "values" [] fun v =>
    (fun es => es.map fun e => (e.1, Value.record e.2)) <$> wires v
  Checked.toOutcome (Compiled.mk <$> expression <*> names <*> values)

end Compiled

end ItemStore
