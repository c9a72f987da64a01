import Mathlib.Data.List.DropRight
import Mathlib.Data.Rat.Floor
import WebhookEngine.Model.Listing

set_option autoImplicit false

/-!
# Query strings

What the routes of the two listings make of a query string.

* `QueryRuntime`: the functions of the runtime the schemas use besides those of `Runtime`.
* `listQuerySchema`, `dlqQuerySchema`: the two schemas, each `listQuerySchema` in its file.
* `deliveriesRoute`, `dlqRoute`: `GET /v1/deliveries` and `GET /v1/dlq`.
-/

namespace WebhookEngine

/-- The values of each parameter; those that come more than once are an array. -/
structure ListQuery where
  status : List String := []
  endpointId : List String := []
  from_ : List String := []
  to_ : List String := []
  limit : List String := []
  cursor : List String := []

/-- The name of a status in `VALID_STATUSES`. -/
def Status.text : Status → String
  | .pending => "PENDING"
  | .delivering => "DELIVERING"
  | .delivered => "DELIVERED"
  | .failed => "FAILED"
  | .dlq => "DLQ"

def isHexDigit (c : Char) : Bool :=
  ('0' ≤ c ∧ c ≤ '9') ∨ ('a' ≤ c ∧ c ≤ 'f') ∨ ('A' ≤ c ∧ c ≤ 'F')

/-- `z.string().uuid()`. -/
def isUuid (v : String) : Bool :=
  let groups := v.toList.splitOn '-'
  groups.map List.length = [8, 4, 4, 4, 12] ∧ groups.all fun g => g.all isHexDigit

/-- White space and line terminators. -/
def isSpace (c : Char) : Bool :=
  c ∈ ['\t', '\n', '\x0b', '\x0c', '\r', ' ', '\u00a0', '\u1680', '\u2028', '\u2029', '\u202f',
    '\u205f', '\u3000', '\ufeff'] ∨ ('\u2000' ≤ c ∧ c ≤ '\u200a')

/-- `trim`. -/
def trim (s : String) : String := String.ofList ((s.toList.dropWhile isSpace).rdropWhile isSpace)

/-- `split(',')`. -/
def splitComma (s : String) : List String := (s.toList.splitOn ',').map String.ofList

/-- `Runtime`, with what the schemas use. -/
structure QueryRuntime extends Runtime where
  toUpperCase : String → String
  /-- `Number(text)`, if it is an integer. -/
  number : String → Option ℤ
  number_comma : ∀ s, ',' ∈ s.toList → number s = none
  /-- The moment a text names, in microseconds; a Date has only its milliseconds. -/
  instant : String → Option ℚ
  newDate_eq : ∀ s, newDate s = (instant s).map fun t => ⌊t / 1000⌋
  uuid_isSome : ∀ s, isUuid s = true → (uuid s).isSome

/-- What `safeParse` makes of a query string. A Date can be invalid. -/
structure ListParams where
  status : List Status
  endpointId : Option String
  from_ : Option (Option JsDate)
  to_ : Option (Option JsDate)
  limit : ℕ
  cursor : Option String

def invalidQuery : Err := .app 400 "VALIDATION_ERROR"

/-- `z.string().optional()`. -/
def optionalString : List String → Except Err (Option String)
  | [] => return none
  | [v] => return some v
  | _ => .error invalidQuery

/-- `z.string().uuid().optional()`. -/
def optionalUuid (values : List String) : Except Err (Option String) := do
  let v ← optionalString values
  if v.all isUuid then return v else .error invalidQuery

variable (rt : QueryRuntime)

/-- The status of a name, if it is one of `VALID_STATUSES`. -/
def validStatus (name : String) : Option Status :=
  [Status.pending, .delivering, .delivered, .failed, .dlq].find? fun st =>
    st.text = rt.toUpperCase (trim name)

/-- The transform of `status`: names that are not valid are left out. -/
def statusParam : Option String → List Status
  | none => []
  | some v => if v = "" then [] else (splitComma v).filterMap (validStatus rt)

/-- The transform of `from` and `to`. -/
def dateParam (v : Option String) : Option (Option JsDate) := (v.filter (· ≠ "")).map rt.newDate

/-- `z.coerce.number().int().min(1).max(200).default(50)`; an array is joined with commas. -/
def limitParam (values : List String) : Option ℕ :=
  if values = [] then some 50
  else (rt.number (",".intercalate values)).bind fun n =>
    if 1 ≤ n ∧ n ≤ 200 then some n.toNat else none

/-- `listQuerySchema` of `deliveries.ts`, whose limit has `.catch(50)`. -/
def listQuerySchema (q : ListQuery) : Except Err ListParams := do
  let status ← optionalString q.status
  let endpointId ← optionalUuid q.endpointId
  let from_ ← optionalString q.from_
  let to_ ← optionalString q.to_
  let cursor ← optionalString q.cursor
  return ⟨statusParam rt status, endpointId, dateParam rt from_, dateParam rt to_,
    (limitParam rt q.limit).getD 50, cursor⟩

/-- A parameter of the statement, if there is one, with a conversion that can fail. -/
def castOption {α β : Type} (f : α → Option β) : Option α → Except Err (Option β)
  | none => return none
  | some a => do return some (← cast (f a))

/-- The filters as `list` sends them: `toISOString` throws on an invalid Date. -/
def ListParams.filters (params : ListParams) : Except Err DeliveryListFilters := do
  let endpointId ← castOption rt.uuid params.endpointId
  let from_ ← castOption id params.from_
  let to_ ← castOption id params.to_
  return ⟨params.status, endpointId, from_, to_⟩

/-- `GET /v1/deliveries`. -/
def deliveriesRoute (q : ListQuery) (σ : Snapshot) :
    Except Err (List DeliveryListRow × Option String) := do
  let params ← listQuerySchema rt q
  let cursor ← cursorParam rt.toRuntime params.cursor
  let filters ← params.filters rt
  let (rows, hasMore) ← list rt.toRuntime filters cursor params.limit σ
  return (rows, nextCursor rt.toRuntime rows.getLast? hasMore)

/-- `listQuerySchema` of `dlq.ts`. -/
def dlqQuerySchema (q : ListQuery) : Except Err (Option String × ℕ) := do
  let cursor ← optionalString q.cursor
  match limitParam rt q.limit with
  | none => .error invalidQuery
  | some limit => return (cursor, limit)

/-- `GET /v1/dlq`. -/
def dlqRoute (q : ListQuery) (σ : Snapshot) : Except Err (List DlqRow × Option String) := do
  let (cursor, limit) ← dlqQuerySchema rt q
  getDlq rt.toRuntime limit cursor σ

end WebhookEngine
