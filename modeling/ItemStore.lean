import ItemStore.Config.Client
import ItemStore.Expression.Fields
import ItemStore.Table.Batches
import ItemStore.Table.Reads
import ItemStore.Proofs.Number.Integers
import ItemStore.Proofs.Value.Entries
import ItemStore.Proofs.Wire.RoundTrip
import ItemStore.Proofs.Wire.Plain
import ItemStore.Proofs.Expression.Numbering
import ItemStore.Proofs.Pages.Stream
import ItemStore.Proofs.Expression.Lexemes
import ItemStore.Proofs.Expression.Paths
import ItemStore.Proofs.Expression.Literals
import ItemStore.Proofs.Expression.Phrases
import ItemStore.Proofs.Expression.Naming
import ItemStore.Proofs.Expression.Condition
import ItemStore.Proofs.Number.Decimals
import ItemStore.Proofs.Wire.Exact
import ItemStore.Proofs.Expression.Update
import ItemStore.Proofs.Expression.Scanners
import ItemStore.Proofs.Expression.Tokenization
import ItemStore.Proofs.Expression.Barriers
import ItemStore.Proofs.Expression.Opaque
import ItemStore.Proofs.Expression.Placeholders
import ItemStore.Proofs.Expression.Closed
import ItemStore.Proofs.Wire.Rewritten
import ItemStore.Proofs.Table.Leftovers
import ItemStore.Proofs.Expression.Bindings
import ItemStore.Proofs.Pages.Filters
import ItemStore.Proofs.Pages.Requests
import ItemStore.Proofs.Expression.Parentheses
import ItemStore.Proofs.Expression.Payloads
import ItemStore.Proofs.Expression.Chunks
import ItemStore.Proofs.Expression.Agreement
import ItemStore.Proofs.Expression.Enclosed
import ItemStore.Proofs.Pages.Conjunctions
import ItemStore.Proofs.Wire.Records
import ItemStore.Proofs.Keys.Split
import ItemStore.Proofs.Table.Sends
import ItemStore.Proofs.Table.Batches
import ItemStore.Proofs.Table.Recovered
import ItemStore.Proofs.Keys.Whole
import ItemStore.Proofs.Table.Keyed
import ItemStore.Proofs.Table.Merged
import ItemStore.Proofs.Table.Missing
import ItemStore.Proofs.Table.Partitioned
import ItemStore.Proofs.Table.Guarded
import ItemStore.Proofs.Pages.Drained
import ItemStore.Proofs.Table.Counted
import ItemStore.Proofs.Table.Summed
import ItemStore.Proofs.Number.Numerals
import ItemStore.Proofs.Number.Shortest
import ItemStore.Proofs.Wire.Formed
import ItemStore.Proofs.Expression.Located
import ItemStore.Proofs.Expression.Fragments
import ItemStore.Proofs.Expression.Replaced
import ItemStore.Proofs.Table.Filled
import ItemStore.Proofs.Number.Scripts
import ItemStore.Proofs.Expression.Pieces
import ItemStore.Proofs.Expression.Spacing
import ItemStore.Proofs.Expression.Signs
import ItemStore.Proofs.Expression.Readable
import ItemStore.Proofs.Wire.Nodes
import ItemStore.Proofs.Number.Grammar
import ItemStore.Proofs.Wire.Modes
import ItemStore.Proofs.Keys.Rejoined
import ItemStore.Proofs.Table.Found
import ItemStore.Proofs.Fields.Taken
import ItemStore.Proofs.Config.Valid
import ItemStore.Proofs.Wire.Raised
import ItemStore.Proofs.Table.Surfaced
import ItemStore.Proofs.Keys.Described
import ItemStore.Proofs.Expression.Turns
import ItemStore.Proofs.Expression.Lossless
import ItemStore.Proofs.Expression.Rejected
import ItemStore.Proofs.Expression.Unambiguous
import ItemStore.Proofs.Expression.Allocated
