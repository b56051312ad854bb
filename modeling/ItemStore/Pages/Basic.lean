import ItemStore.Expression.Compile
import ItemStore.Pages.Entry
import ItemStore.Service.Link

/-
  A read that goes over the pages of a query or a scan and gives their items one at a time. A
  page is fetched when an item is asked for and none is left, and pages without items are passed
  over. The read ends after a page that names no key to go on from, after the first page when the
  parameters limit it, and with the entry of a failure when a page cannot be fetched or one of
  its items cannot be decoded.
-/

namespace ItemStore

/-- The operations that are answered in pages. -/
inductive ReadMethod where
  | query
  | scan
  deriving DecidableEq, Inhabited

namespace ReadMethod

/-- A method as text. -/
def name : ReadMethod → String
  | .query => "query"
  | .scan => "scan"

/-- The method that a value names. -/
def ofValue (v : Value) : Outcome ReadMethod :=
  if v.isText "query" then .ok .query
  else if v.isText "scan" then .ok .scan
  else .error (.fault .badValue)

/-- The operation of a method. -/
def operation : ReadMethod → Operation
  | .query => .query
  | .scan => .scan

/-- The parameter that carries the expression that a read starts from. -/
def expressionName : ReadMethod → String
  | .query => "KeyConditionExpression"
  | .scan => "FilterExpression"

end ReadMethod

/-- A read over pages. -/
structure Pages where
  method : ReadMethod := .query
  schema : Schema := {}
  grammar : Grammar := .inferred
  decimalNumbers : Bool := false
  /-- The parameters of the next fetch. -/
  params : Params := []
  /-- The number of the next placeholder. -/
  nextIndex : Nat := 1
  buffer : List Entry := []
  isStarted : Bool := false
  isExhausted : Bool := false
  deriving Inhabited

/-- Where pages come from: the request of a fetch, and what its failure means. -/
structure PageSource where
  request : Params → Outcome Request
  interpret : Params → Failure → Failure

/-- A page: its items as entries, and the key to go on from, null if there is none. -/
structure Page where
  entries : List Entry
  lastKey : Value
  deriving Inhabited

namespace Pages

/-- The names that belong to a read itself and cannot be options. -/
def reservedNames : List String :=
  ["self", "compiled", "fetch", "schema", "method", "limit", "grammar", "decimal_numbers",
    "table_name"]

/-- A read of a compiled expression with further parameters. A limit that is not null bounds the
page. -/
def start (method : ReadMethod) (schema : Schema) (grammar : Grammar) (decimalNumbers : Bool)
    (compiled : Compiled) (limit : Value) (options : Params) : Outcome Pages :=
  if Entries.hasAny reservedNames options then .error (.fault .wrongKind)
  else
    let params := Entries.merge options (compiled.toParams method.expressionName)
    let params := if limit matches .null then params else Entries.insert "Limit" limit params
    .ok { method, schema, grammar, decimalNumbers, params, nextIndex := compiled.lastIndex + 1 }

/-- Whether the read ends after one page. -/
def isLimited (p : Pages) : Bool :=
  Entries.has "Limit" p.params

/-- The page that a reply tells. -/
def page (p : Pages) (reply : Value) : Outcome Page := do
  let items ← Outcome.ofFault (reply.fieldD "Items" .null)
  let items ← Outcome.ofFault (if items.isTruthy then items.elements else .ok [])
  let entries ← items.mapM (Entry.ofItem p.schema p.decimalNumbers)
  return ⟨entries, ← Outcome.ofFault (reply.fieldD "LastEvaluatedKey" .null)⟩

/-- Fetches the next page. -/
def fetch (source : PageSource) (p : Pages) : Exchange Page := fun l =>
  match source.request p.params with
  | .error e => (.error e, l)
  | .ok request =>
    match Link.send request l with
    | (.error e, l) => (.error (source.interpret p.params e), l)
    | (.ok reply, l) => (p.page reply, l)

theorem fetch_replies {source : PageSource} {p : Pages} {l l' : Link} {page : Page}
    (h : fetch source p l = (.ok page, l')) : l'.replies.length < l.replies.length := by
  unfold fetch at h
  split at h
  · simp at h
  · split at h
    · simp at h
    · next hs =>
      simp only [Prod.mk.injEq] at h
      have := Link.send_replies hs
      rw [← h.2, this]
      simp

/-- The read after a fetch that failed. -/
def failed (p : Pages) (f : Failure) : Pages :=
  { p with buffer := p.buffer ++ [.ofFailure f], isExhausted := true }

/-- The read after a page. -/
def received (p : Pages) (page : Page) : Pages :=
  let p := { p with buffer := p.buffer ++ page.entries }
  if page.lastKey matches .null || p.isLimited then { p with isExhausted := true }
  else { p with params := Entries.insert "ExclusiveStartKey" page.lastKey p.params }

/-- Fetches pages until there is an entry to give or the read is at its end. -/
def fill (source : PageSource) (p : Pages) (l : Link) : Pages × Link :=
  if !p.buffer.isEmpty || p.isExhausted then (p, l)
  else
    match h : fetch source p l with
    | (.error e, l') => (p.failed e, l')
    | (.ok page, l') =>
      have := fetch_replies h
      fill source (p.received page) l'
termination_by l.replies.length
decreasing_by assumption

/-- Gives the next entry, none at the end. -/
def pull (source : PageSource) (p : Pages) (l : Link) : Option Entry × Pages × Link :=
  match fill source { p with isStarted := true } l with
  | (p, l) => (p.buffer.head?, { p with buffer := p.buffer.tail }, l)

/-- Gives the next entries. -/
def pulls (source : PageSource) :
    Nat → Pages → Link → List (Option Entry) × Pages × Link
  | 0, p, l => ([], p, l)
  | n + 1, p, l =>
    let (entry, p, l) := pull source p l
    let (entries, p, l) := pulls source n p l
    (entry :: entries, p, l)

/-- Fetches all pages that are left. -/
def fillAll (source : PageSource) (p : Pages) (l : Link) : Pages × Link :=
  if p.isExhausted then (p, l)
  else
    match h : fetch source p l with
    | (.error e, l') => (p.failed e, l')
    | (.ok page, l') =>
      have := fetch_replies h
      fillAll source (p.received page) l'
termination_by l.replies.length
decreasing_by assumption

/-- Gives all entries that are left. -/
def drain (source : PageSource) (p : Pages) (l : Link) : List Entry × Pages × Link :=
  let (p, l) := fillAll source { p with isStarted := true } l
  (p.buffer, { p with buffer := [] }, l)

/-! ## Before the first entry -/

/-- The failure of a change to a read that has started. -/
def alreadyStarted (operation : String) : Failure :=
  .validation (operation ++ "() must be called before the first pull") (.map []) none

/-- A filter joined to the one that is there. -/
def joinedFilter (params : Params) (expression : String) : Value :=
  match Entries.get? "FilterExpression" params with
  | some v =>
    if v.isTruthy then .text ("(" ++ v.shown ++ ") AND (" ++ expression ++ ")")
    else .text expression
  | none => .text expression

/-- The read with a filter joined on. When the placeholders cannot be bound, what was done before
stays done. -/
def joinFilter (p : Pages) (c : Compiled) : Outcome Unit × Pages :=
  let params := Entries.insert "FilterExpression" (joinedFilter p.params c.expression) p.params
  let (outcome, params) := c.bindInto params
  (outcome, { p with params, nextIndex := max p.nextIndex (c.lastIndex + 1) })

/-- Joins a filter to the read. Its placeholders go on from those that are there. -/
def addFilter (p : Pages) (source : Value) : Outcome Unit × Pages :=
  if p.isStarted then (.error (alreadyStarted "add_filter"), p)
  else
    match Expression.compileValue p.grammar p.nextIndex source with
    | .error e => (.error e, p)
    | .ok c => if c.isEmpty then (.ok (), p) else p.joinFilter c

/-- Sets the projection of the read. -/
def setProjection (p : Pages) (projection : Value) : Outcome Unit × Pages :=
  if p.isStarted then (.error (alreadyStarted "set_projection"), p)
  else (.ok (), { p with params := Entries.insert "ProjectionExpression" projection p.params })

end Pages

end ItemStore
