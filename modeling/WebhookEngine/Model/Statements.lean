import WebhookEngine.Lib.Placeholders
import WebhookEngine.Model.Query
import WebhookEngine.Model.Postgres

set_option autoImplicit false

/-!
# The statement of a listing

`list` puts the text of its statement together from the parts a request asks for, with the values in a
list of parameters beside it.

* `Param`, `param`, `allBound`: the parameters, and how Postgres reads them;
* `Condition`: the parts, with their text and what Postgres makes of them;
* `listStatement`: the function that puts them together, part by part;
* `ListStatement.run`: what Postgres does with text and parameters;
* `deliveriesRouteSql`: the route through this statement.
-/

namespace WebhookEngine

open Placeholders

/-- A value of a parameter list. -/
inductive Param where
  | texts (values : List String)
  | text (value : String)
  | int (value : ℕ)
  | bool (value : Bool)
  | endpoint (value : EndpointId)
  deriving DecidableEq

namespace Param

def texts? : Param → Option (List String)
  | .texts v => some v
  | _ => none

def text? : Param → Option String
  | .text v => some v
  | _ => none

def int? : Param → Option ℕ
  | .int v => some v
  | _ => none

def bool? : Param → Option Bool
  | .bool v => some v
  | _ => none

def endpoint? : Param → Option EndpointId
  | .endpoint v => some v
  | _ => none

end Param

/-- `$n` of a statement, read as a value of a type. -/
def param {α : Type} (params : List Param) (n : ℕ) (read : Param → Option α) : Except Err α :=
  cast ((placeholder params n).bind read)

/-- Postgres refuses a parameter the statement does not refer to, and a reference to none. -/
def allBound (params : List Param) (placeholders : List ℕ) : Bool :=
  (placeholders.all fun n => 1 ≤ n ∧ n ≤ params.length) ∧
    (List.range' 1 params.length).all (· ∈ placeholders)

inductive Condition where
  | statusAny (n : ℕ)
  | endpointId (n : ℕ)
  | createdFrom (n : ℕ)
  | createdTo (n : ℕ)
  | before (p1 p2 : ℕ)
  deriving DecidableEq

namespace Condition

def text : Condition → String
  | .statusAny n => "d.status = ANY($" ++ toString n ++ "::text[])"
  | .endpointId n => "d.endpoint_id = $" ++ toString n ++ "::uuid"
  | .createdFrom n => "d.created_at >= $" ++ toString n ++ "::timestamptz"
  | .createdTo n => "d.created_at <= $" ++ toString n ++ "::timestamptz"
  | .before p1 p2 =>
    "(d.updated_at, d.id::text) < ($" ++ toString p1 ++ "::timestamptz, $" ++ toString p2 ++ "::text)"

def placeholders : Condition → List ℕ
  | .statusAny n | .endpointId n | .createdFrom n | .createdTo n => [n]
  | .before p1 p2 => [p1, p2]

/-- The condition and those before it. -/
def bind (rt : Runtime) (params : List Param) (accepts : Snapshot.Delivery → Bool) :
    Condition → Except Err (Snapshot.Delivery → Bool)
  | .statusAny n => do
    let names ← param params n Param.texts?
    return fun d => accepts d && decide (d.status.text ∈ names)
  | .endpointId n => do
    let u ← cast (rt.uuid (← param params n Param.text?))
    return fun d => accepts d && decide (d.endpointId = u)
  | .createdFrom n => do
    let τ ← cast (rt.timestamptz (← param params n Param.text?))
    return fun d => accepts d && decide (τ ≤ d.createdAt)
  | .createdTo n => do
    let τ ← cast (rt.timestamptz (← param params n Param.text?))
    return fun d => accepts d && decide (d.createdAt ≤ τ)
  | .before p1 p2 => do
    let τ ← cast (rt.timestamptz (← param params p1 Param.text?))
    let id ← cast (textParam (← param params p2 Param.text?))
    return fun d => accepts d && decide (d.textKey < toLex (τ, id))

end Condition

/-- The statement of `list`: its conditions and parameters, and the position of its limit. -/
structure ListStatement extends Builder Param Condition where
  limit : ℕ
  deriving DecidableEq

section List

variable (rt : Runtime)

def whereStatus (statuses : List Status) (b : Builder Param Condition) : Builder Param Condition :=
  if statuses = [] then b
  else
    let b := b.push (.texts (statuses.map Status.text))
    b.piece (.statusAny b.params.length)

def whereEndpoint (endpointId : Option String) (b : Builder Param Condition) :
    Builder Param Condition :=
  match endpointId.filter (· ≠ "") with
  | none => b
  | some v =>
    let b := b.push (.text v)
    b.piece (.endpointId b.params.length)

/-- A bound on `created_at`; `toISOString` throws on an invalid Date. -/
def whereDate (condition : ℕ → Condition) (date : Option (Option JsDate))
    (b : Builder Param Condition) : Except Err (Builder Param Condition) :=
  match date with
  | none => return b
  | some d => do
    let b := b.push (.text (rt.toISOString (← cast d)))
    return b.piece (condition b.params.length)

/-- `if (filters.from)`. -/
def whereFrom : Option (Option JsDate) → Builder Param Condition →
    Except Err (Builder Param Condition) := whereDate rt .createdFrom

/-- `if (filters.to)`. -/
def whereTo : Option (Option JsDate) → Builder Param Condition →
    Except Err (Builder Param Condition) := whereDate rt .createdTo

def whereCursor (cursor : Option Cursor) (b : Builder Param Condition) : Builder Param Condition :=
  match cursor with
  | none => b
  | some c =>
    let b := (b.push (.text c.updatedAt)).push (.text c.id)
    b.piece (.before (b.params.length - 1) b.params.length)

def withLimit (limit : ℕ) (b : Builder Param Condition) : ListStatement :=
  let b := b.push (.int limit)
  { toBuilder := b, limit := b.params.length }

/-- The statement `list` puts together. -/
def listStatement (params : ListParams) (cursor : Option Cursor) : Except Err ListStatement := do
  let b := whereEndpoint params.endpointId (whereStatus params.status {})
  let b ← whereFrom rt params.from_ b
  let b ← whereTo rt params.to_ b
  return withLimit (params.limit + 1) (whereCursor cursor b)

def ListStatement.text (st : ListStatement) : String :=
  let conditions := st.pieces.map Condition.text
  let where_ := if conditions = [] then "" else "WHERE " ++ " AND ".intercalate conditions
  "SELECT d.id, d.event_id, d.endpoint_id, ev.event_type, d.status," ++
    " d.attempt_count, d.next_attempt_at, d.created_at, d.updated_at" ++
    " FROM deliveries d" ++
    " JOIN events ev ON ev.id = d.event_id" ++
    " " ++ where_ ++
    " ORDER BY d.updated_at DESC, d.id DESC" ++
    " LIMIT $" ++ toString st.limit

/-- **What Postgres does with the statement.** -/
def ListStatement.run (st : ListStatement) (σ : Snapshot) :
    Except Err (List (Snapshot.Delivery × Snapshot.Event)) :=
  if allBound st.params (st.pieces.flatMap Condition.placeholders ++ [st.limit]) then do
    let accepts ← st.pieces.foldlM (Condition.bind rt st.params) fun _ => true
    let limit ← param st.params st.limit Param.int?
    return (orderBy Prod.fst (σ.joined.filter fun row => accepts row.1)).take limit
  else .error .infra

/-- `list` through its statement. -/
def listSql (params : ListParams) (cursor : Option Cursor) (σ : Snapshot) :
    Except Err (List DeliveryListRow × Bool) := do
  let st ← listStatement rt params cursor
  let rows ← st.run rt σ
  return ((rows.take params.limit).map fun row => row.1.row row.2, params.limit < rows.length)

end List

/-- `GET /v1/deliveries` through the statement of `list`. -/
def deliveriesRouteSql (rt : QueryRuntime) (q : ListQuery) (σ : Snapshot) :
    Except Err (List DeliveryListRow × Option String) := do
  let params ← listQuerySchema rt q
  let cursor ← cursorParam rt.toRuntime params.cursor
  let (rows, hasMore) ← listSql rt.toRuntime params cursor σ
  return (rows, nextCursor rt.toRuntime rows.getLast? hasMore)

end WebhookEngine
