import WebhookEngine.Model.Statements
import WebhookEngine.Model.System

set_option autoImplicit false

/-!
# The endpoints

`POST /v1/endpoints` and `PATCH /v1/endpoints/:id`. The PATCH puts its statement together from the
fields of the request, counting the placeholders as it goes.

* `createEndpoint`, `patchEndpoint`: the routes;
* `SetClause`, `patchStatement`, `PatchStatement.run`: the statement of the PATCH;
* `Label.patch`: what a step of the system makes of the row of an endpoint.
-/

namespace WebhookEngine

open Placeholders

/-- What the body of the POST is before `createSchema`. -/
structure CreateBody where
  clientId : String
  url : String
  signingSecret : Option String

/-- What the routes use of their runtime: `z.string().url()` and `randomBytes(32)` as hex. -/
structure EndpointRuntime where
  production : Bool
  isUrl : String → Bool
  randomHex : String

/-- `POST /v1/endpoints`: the row it answers with, and the tables. -/
def createEndpoint (rt : EndpointRuntime) (body : CreateBody) (db : Db) :
    Except Err (EndpointRow × Db) :=
  if body.clientId = "" ∨ jsLength body.clientId > 255 ∨ rt.isUrl body.url = false then
    .error (.app 400 "VALIDATION_ERROR")
  else if rt.production ∧ ¬ "https://".toList <+: body.url.toList then
    .error (.app 400 "INVALID_URL")
  else do
    let clientId ← cast (textParam body.clientId)
    let url ← cast (textParam body.url)
    let secret ← cast (textParam (body.signingSecret.getD ("whsec_" ++ rt.randomHex)))
    let row : EndpointRow := ⟨db.uuidSeq, clientId, url, secret, true⟩
    return (row, { db with endpoints := db.endpoints ++ [row], uuidSeq := db.uuidSeq + 1 })

inductive SetClause where
  | isActive (n : ℕ)
  | url (n : ℕ)
  deriving DecidableEq

namespace SetClause

def text : SetClause → String
  | .isActive n => "is_active = $" ++ toString n
  | .url n => "url = $" ++ toString n

def placeholders : SetClause → List ℕ
  | .isActive n | .url n => [n]

/-- The assignment and those before it. -/
def bind (params : List Param) (f : EndpointRow → EndpointRow) :
    SetClause → Except Err (EndpointRow → EndpointRow)
  | .isActive n => do
    let v ← param params n Param.bool?
    return fun r => { f r with isActive := v }
  | .url n => do
    let v ← cast (textParam (← param params n Param.text?))
    return fun r => { f r with url := v }

end SetClause

/-- What the body of the PATCH is before `patchSchema`. -/
structure PatchBody where
  isActive : Option Bool
  url : Option String

/-- The statement of the PATCH: its assignments and parameters, and the position of the id. -/
structure PatchStatement extends Builder Param SetClause where
  id : ℕ
  deriving DecidableEq

def setIsActive (v : Option Bool) (b : Builder Param SetClause) (i : ℕ) :
    Builder Param SetClause × ℕ :=
  match v with
  | none => (b, i)
  | some v => ((b.piece (.isActive i)).push (.bool v), i + 1)

def setUrl (v : Option String) (b : Builder Param SetClause) (i : ℕ) :
    Builder Param SetClause × ℕ :=
  match v with
  | none => (b, i)
  | some v => ((b.piece (.url i)).push (.text v), i + 1)

/-- The statement the route puts together. -/
def patchStatement (body : PatchBody) (id : EndpointId) : PatchStatement :=
  let (b, i) := setIsActive body.isActive {} 1
  let (b, i) := setUrl body.url b i
  { toBuilder := b.push (.endpoint id), id := i }

def PatchStatement.text (st : PatchStatement) : String :=
  "UPDATE endpoints SET " ++ ", ".intercalate (st.pieces.map SetClause.text) ++
    " WHERE id = $" ++ toString st.id ++ " RETURNING *"

/-- **What Postgres does with the statement**: the table, and the rows it returns. -/
def PatchStatement.run (st : PatchStatement) (endpoints : List EndpointRow) :
    Except Err (List EndpointRow × List EndpointRow) :=
  if allBound st.params (st.pieces.flatMap SetClause.placeholders ++ [st.id]) then do
    let f ← st.pieces.foldlM (SetClause.bind st.params) fun r => r
    let ep ← param st.params st.id Param.endpoint?
    return (endpoints.map fun r => if r.id = ep then f r else r,
      (endpoints.filter fun r => r.id = ep).map f)
  else .error .infra

/-- `PATCH /v1/endpoints/:id`: the row it answers with, and the table. -/
def patchEndpoint (rt : EndpointRuntime) (body : PatchBody) (id : EndpointId)
    (endpoints : List EndpointRow) : Except Err (EndpointRow × List EndpointRow) :=
  if body.url.any (rt.isUrl · = false) then .error (.app 400 "VALIDATION_ERROR")
  else if body.isActive = none ∧ body.url = none then .error (.app 400 "VALIDATION_ERROR")
  else do
    let (endpoints, rows) ← (patchStatement body id).run endpoints
    match rows.head? with
    | none => .error (.app 404 "ENDPOINT_NOT_FOUND")
    | some row => return (row, endpoints)

/-! ## Beside the system -/

/-- What a request to change an endpoint makes of a row. -/
def PatchBody.apply (body : PatchBody) (r : EndpointRow) : EndpointRow :=
  { r with isActive := body.isActive.getD r.isActive, url := body.url.getD r.url }

/-- What a step of the system makes of the row of endpoint `ep`. -/
def Label.patch (ep : EndpointId) (r : EndpointRow) : Label → EndpointRow
  | .patchEndpoint ep' isActive url => if ep' = ep then PatchBody.apply ⟨isActive, url⟩ r else r
  | _ => r

end WebhookEngine
