import Mathlib.Data.Prod.Lex
import Mathlib.Data.List.Sort
import Mathlib.Data.String.Basic
import WebhookEngine.Model.Schema

set_option autoImplicit false

/-!
# The listings

`GET /v1/deliveries` and `GET /v1/dlq` with their cursors, over the tables as one SELECT sees them.

* Here `updated_at` and `created_at` have the precision of a timestamptz, microseconds, and a uuid its
  128 bits: the one listing compares them as uuids, the other by their text.
* `Runtime`: JSON, base64url, ISO timestamps and the casts of Postgres, with what is documented of them.
* `list`, `listDlq`, `getDeliveries`, `getDlq`: the functions of the source, from the parsed query on.
-/

namespace WebhookEngine

/-- Bytewise comparison of uuids is comparison of numbers. -/
abbrev Uuid := Fin (2 ^ 128)

def hexDigit (v : ℕ) : Char := if v < 10 then Char.ofNat (48 + v) else Char.ofNat (87 + v)

/-- The `n` last hexadecimal digits. -/
def hex : ℕ → ℕ → List Char
  | 0, _ => []
  | n + 1, v => hex n (v / 16) ++ [hexDigit (v % 16)]

/-- Digits in groups of the given widths. -/
def hexGroups : List ℕ → ℕ → List Char
  | [], _ => []
  | [n], v => hex n v
  | n :: ns, v => hex n (v / 16 ^ ns.sum) ++ '-' :: hexGroups ns v

/-- `id::text`. -/
def Uuid.text (u : Uuid) : String := String.ofList (hexGroups [8, 4, 4, 4, 12] u.val)

/-- A timestamptz: microseconds since 1970. -/
abbrev Micros := ℤ

/-- A JavaScript Date: milliseconds since 1970. -/
abbrev JsDate := ℤ

/-- A timestamptz as node-postgres returns it. -/
def Micros.toDate (τ : Micros) : JsDate := τ / 1000

/-- A Date as a timestamptz. -/
def JsDate.toMicros (d : JsDate) : Micros := d * 1000

/-- The years 1 to 9999, which ISO 8601 writes with four digits. -/
def JsDate.Plain (d : JsDate) : Prop := -62135596800000 ≤ d ∧ d < 253402300800000

/-- `Cursor`. -/
structure Cursor where
  updatedAt : String
  id : String
  deriving DecidableEq

/-- The functions of the runtime and of Postgres the listings use as they are. -/
structure Runtime where
  toISOString : JsDate → String
  /-- `new Date(text)`, unless it is an invalid date. -/
  newDate : String → Option JsDate
  /-- `text::timestamptz`, unless the cast fails. -/
  timestamptz : String → Option Micros
  /-- A Date sent as `$1::timestamptz`, unless the cast fails. -/
  dateTimestamptz : JsDate → Option Micros
  /-- `text::uuid`, unless the cast fails. -/
  uuid : String → Option Uuid
  /-- `JSON.stringify` of a cursor. -/
  stringify : Cursor → String
  /-- `JSON.parse`, unless it throws, and what `cursorSchema` makes of the value. -/
  parse : String → Option (Option Cursor)
  toBase64url : String → String
  ofBase64url : String → String
  newDate_iso : ∀ d, d.Plain → newDate (toISOString d) = some d
  timestamptz_iso : ∀ d, d.Plain → timestamptz (toISOString d) = some d.toMicros
  timestamptz_of_iso : ∀ d τ, timestamptz (toISOString d) = some τ → τ = d.toMicros
  dateTimestamptz_plain : ∀ d, d.Plain → dateTimestamptz d = some d.toMicros
  uuid_text : ∀ u : Uuid, uuid u.text = some u
  parse_stringify : ∀ d (u : Uuid), d.Plain →
    parse (ofBase64url (toBase64url (stringify ⟨toISOString d, u.text⟩))) =
      some (some ⟨toISOString d, u.text⟩)
  toBase64url_ne_empty : ∀ c, toBase64url (stringify c) ≠ ""

/-- A row of `deliveries`. -/
structure Snapshot.Delivery where
  id : Uuid
  eventId : Uuid
  endpointId : Uuid
  status : Status
  attemptCount : ℕ
  nextAttemptAt : Option Micros
  createdAt : Micros
  updatedAt : Micros
  deriving DecidableEq

/-- A row of `events`. -/
structure Snapshot.Event where
  id : Uuid
  eventType : String
  deriving DecidableEq

/-- A row of `delivery_transitions`. -/
structure Snapshot.Transition where
  id : ℕ
  deliveryId : Uuid
  toStatus : Status
  createdAt : Micros
  deriving DecidableEq

/-- **What a SELECT sees**: primary keys are unique, a delivery has its event, and one that is in DLQ
has an audit row that says so. -/
structure Snapshot where
  deliveries : List Snapshot.Delivery
  events : List Snapshot.Event
  transitions : List Snapshot.Transition
  ids : (deliveries.map (·.id)).Nodup
  eventIds : (events.map (·.id)).Nodup
  eventRef : ∀ d ∈ deliveries, ∃ ev ∈ events, ev.id = d.eventId
  entered : ∀ d ∈ deliveries, d.status = .dlq →
    ∃ tr ∈ transitions, tr.deliveryId = d.id ∧ tr.toStatus = .dlq
  plain : ∀ d ∈ deliveries, d.updatedAt.toDate.Plain

/-- `DeliveryListRow`. -/
structure DeliveryListRow where
  id : Uuid
  eventId : Uuid
  endpointId : Uuid
  eventType : String
  status : Status
  attemptCount : ℕ
  nextAttemptAt : Option JsDate
  createdAt : JsDate
  updatedAt : JsDate
  deriving DecidableEq

/-- `DlqRow`. -/
structure DlqRow extends DeliveryListRow where
  dlqEnteredAt : JsDate
  deriving DecidableEq

/-- `DeliveryListFilters`; no statuses are no filter. -/
structure DeliveryListFilters where
  statuses : List Status := []
  endpointId : Option Uuid := none
  fromDate : Option JsDate := none
  toDate : Option JsDate := none

namespace Snapshot

/-- `FROM deliveries d JOIN events ev ON ev.id = d.event_id`. -/
def joined (σ : Snapshot) : List (Delivery × Event) :=
  σ.deliveries.flatMap fun d => (σ.events.filter fun ev => ev.id = d.eventId).map fun ev => (d, ev)

/-- The latest transition of the delivery to DLQ. -/
def lastDlq (σ : Snapshot) (d : Uuid) : Option Transition :=
  (σ.transitions.filter fun tr => tr.deliveryId = d ∧ tr.toStatus = .dlq).argmax (·.id)

/-- `(updated_at, id)`. -/
def Delivery.key (d : Delivery) : Micros ×ₗ Uuid := toLex (d.updatedAt, d.id)

/-- `(updated_at, id::text)`. -/
def Delivery.textKey (d : Delivery) : Micros ×ₗ String := toLex (d.updatedAt, d.id.text)

def Delivery.row (d : Delivery) (ev : Event) : DeliveryListRow where
  id := d.id
  eventId := d.eventId
  endpointId := d.endpointId
  eventType := ev.eventType
  status := d.status
  attemptCount := d.attemptCount
  nextAttemptAt := d.nextAttemptAt.map Micros.toDate
  createdAt := d.createdAt.toDate
  updatedAt := d.updatedAt.toDate

end Snapshot

/-- `ORDER BY d.updated_at DESC, d.id DESC`. -/
def orderBy {α : Type} (delivery : α → Snapshot.Delivery) (rows : List α) : List α :=
  rows.insertionSort fun a b => (delivery b).key ≤ (delivery a).key

/-- A cast in a statement: the statement fails if it does. -/
def cast {α : Type} (o : Option α) : Except Err α := o.elim (.error .infra) .ok

/-- The conditions of the filters, with the casts of their bounds. -/
def DeliveryListFilters.accepts (filters : DeliveryListFilters) (from_ to_ : Option Micros)
    (d : Snapshot.Delivery) : Bool :=
  (filters.statuses = [] ∨ d.status ∈ filters.statuses) ∧
    (filters.endpointId.all fun ep => d.endpointId = ep) ∧
      (from_.all fun τ => τ ≤ d.createdAt) ∧ (to_.all fun τ => d.createdAt ≤ τ)

variable (rt : Runtime)

/-- A bound of the filters as the statement reads it. -/
def bound : Option JsDate → Except Err (Option Micros)
  | none => return none
  | some d => do return some (← cast (rt.timestamptz (rt.toISOString d)))

/-- A text as a parameter: Postgres refuses one with a NUL. -/
def textParam (s : String) : Option String := if '\x00' ∈ s.toList then none else some s

/-- The keyset condition of `list`, with the casts of its parameters. -/
def listAfter : Option Cursor → Except Err (Option (Micros ×ₗ String))
  | none => return none
  | some c => do
    let τ ← cast (rt.timestamptz c.updatedAt)
    let id ← cast (textParam c.id)
    return some (toLex (τ, id))

/-- `list`. -/
def list (filters : DeliveryListFilters) (cursor : Option Cursor) (limit : ℕ) (σ : Snapshot) :
    Except Err (List DeliveryListRow × Bool) := do
  let from_ ← bound rt filters.fromDate
  let to_ ← bound rt filters.toDate
  let after ← listAfter rt cursor
  let rows := (orderBy Prod.fst (σ.joined.filter fun (d, _) =>
    filters.accepts from_ to_ d ∧ after.all fun p => d.textKey < p)).take (limit + 1)
  return ((rows.take limit).map fun (d, ev) => d.row ev, limit < rows.length)

/-- The keyset condition of `listDlq`, with the casts of its parameters. -/
def dlqAfter : Option (JsDate × String) → Except Err (Option (Micros ×ₗ Uuid))
  | none => return none
  | some (updatedAt, id) => do
    let τ ← cast (rt.dateTimestamptz updatedAt)
    let u ← cast (rt.uuid id)
    return some (toLex (τ, u))

/-- `listDlq`. -/
def listDlq (cursor : Option (JsDate × String)) (limit : ℕ) (σ : Snapshot) :
    Except Err (List DlqRow × Bool) := do
  let after ← dlqAfter rt cursor
  let entered := σ.joined.flatMap fun (d, ev) => (σ.lastDlq d.id).toList.map fun tr => (d, ev, tr)
  let rows := (orderBy Prod.fst (entered.filter fun (d, _) =>
    d.status = .dlq ∧ after.all fun p => d.key < p)).take (limit + 1)
  return ((rows.take limit).map fun (d, ev, tr) => ⟨d.row ev, tr.createdAt.toDate⟩,
    limit < rows.length)

/-- `encodeCursor`. -/
def encodeCursor (cursor : Cursor) : String := rt.toBase64url (rt.stringify cursor)

/-- `decodeCursor`. -/
def decodeCursor (value : String) : Except Err Cursor :=
  match rt.parse (rt.ofBase64url value) with
  | some (some cursor) => .ok cursor
  | some none => .error (.app 400 "INVALID_CURSOR")
  | none => .error (.app 400 "INVALID_CURSOR")

/-- The query parameter `cursor`; an empty one is none. -/
def cursorParam : Option String → Except Err (Option Cursor)
  | none => return none
  | some s => if s = "" then return none else do return some (← decodeCursor rt s)

/-- `next_cursor`, from the last row of the page. -/
def nextCursor (last : Option DeliveryListRow) (hasMore : Bool) : Option String :=
  if hasMore then last.map fun r => encodeCursor rt ⟨rt.toISOString r.updatedAt, r.id.text⟩
  else none

/-- `GET /v1/deliveries`: the page and `next_cursor`. -/
def getDeliveries (filters : DeliveryListFilters) (limit : ℕ) (cursor : Option String)
    (σ : Snapshot) : Except Err (List DeliveryListRow × Option String) := do
  let cursor ← cursorParam rt cursor
  let (rows, hasMore) ← list rt filters cursor limit σ
  return (rows, nextCursor rt rows.getLast? hasMore)

/-- `DlqCursor` of a cursor. An invalid date fails the statement it is sent with. -/
def dlqCursor : Option Cursor → Except Err (Option (JsDate × String))
  | none => return none
  | some c => do
    let updatedAt ← cast (rt.newDate c.updatedAt)
    return some (updatedAt, c.id)

/-- `GET /v1/dlq`: the page and `next_cursor`. -/
def getDlq (limit : ℕ) (cursor : Option String) (σ : Snapshot) :
    Except Err (List DlqRow × Option String) := do
  let cursor ← cursorParam rt cursor
  let (rows, hasMore) ← listDlq rt (← dlqCursor rt cursor) limit σ
  return (rows, nextCursor rt (rows.getLast?.map (·.toDeliveryListRow)) hasMore)

end WebhookEngine
