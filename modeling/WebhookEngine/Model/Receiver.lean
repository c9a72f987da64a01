import WebhookEngine.Lib.Encodings
import WebhookEngine.Model.Worker

set_option autoImplicit false

/-!
# The receiver

`sign` and `verify` of `worker/signature.ts` for every number, and `logRequest` of the test receiver.

`Receiver` is its configuration with the functions of the runtime it uses as they are: `JSON.parse`,
what `Number` makes of a text that is not a plain decimal, and what `toString('utf8')` makes of bytes
that are no UTF-8.
-/

namespace WebhookEngine

open Encodings

/-- A number: an integer, or any other one by its text. -/
inductive JsNumber where
  | integer (n : IntNumber)
  | other (text : String)
  deriving DecidableEq

/-- `String` of a number. -/
def JsNumber.show : JsNumber → String
  | .integer n => showInt n
  | .other text => text

variable (env : Env)

/-- What is signed. -/
def signedPayload (timestampSeconds : JsNumber) (rawBody : String) : String :=
  timestampSeconds.show ++ "." ++ rawBody

/-- `sign`, for every number. -/
def signNumber (secret : String) (timestampSeconds : JsNumber) (rawBody : String) : String :=
  env.hmacSha256Hex secret (signedPayload timestampSeconds rawBody)

/-- **`verify`.** -/
def verify (secret : String) (timestampSeconds : JsNumber) (rawBody signatureHex : String) : Bool :=
  let expectedHex := signNumber env secret timestampSeconds rawBody
  let expected := hexDecode expectedHex
  let actual := hexDecode signatureHex
  if expected.length ≠ actual.length then false
  else expected = actual

/-- What arrives: the headers by their names in lower case, and the bytes of the body. -/
structure Incoming where
  path : String
  headers : List (String × String)
  body : ByteArray

/-- `req.header`. -/
def Incoming.header (req : Incoming) (name : String) : Option String :=
  (req.headers.find? fun h => h.1 = name).map (·.2)

/-- What is sent arrives: the body as its UTF-8 bytes. -/
def HttpRequest.arriving (req : HttpRequest) (path : String) : Incoming :=
  ⟨path, req.headers, req.body.toUTF8⟩

structure Receiver where
  signingSecret : String
  Json : Type
  jsonParse : String → Option Json
  otherNumber : String → JsNumber
  lossyUtf8 : ByteArray → String
  toISOString : Time → String

namespace Receiver

variable (rt : Receiver)

/-- `Number` of a text: digits with a value below `2 ^ 53` are that value. -/
def number (text : String) : JsNumber :=
  let n := Nat.ofDigitChars 10 text.toList 0
  if h : (text ≠ "" ∧ text.toList.all Char.isDigit) ∧ n < 2 ^ 53 then .integer (.ofNat n h.2)
  else rt.otherNumber text

/-- `toString('utf8')`. -/
def utf8 (bytes : ByteArray) : String :=
  match String.fromUTF8? bytes with
  | some text => text
  | none => rt.lossyUtf8 bytes

/-- The logged body: nothing, the parsed JSON, or the text that is none. -/
inductive LoggedBody where
  | null
  | json (value : rt.Json)
  | text (body : String)

/-- `LoggedRequest`. -/
structure LoggedRequest where
  id : Option String
  attempt : Option JsNumber
  ts : Option JsNumber
  path : String
  body : rt.LoggedBody
  validSignature : Bool
  receivedAt : String

/-- A header that is missing or empty counts as none. -/
def truthy (header : Option String) : Option String := header.filter (· ≠ "")

/-- **`logRequest`**, with the entry it pushes to `requestLog`. -/
def logRequest (req : Incoming) (now : Time) : rt.LoggedRequest :=
  let rawBody := req.body
  let idHeader := req.header "x-webhook-id"
  let attemptHeader := req.header "x-webhook-attempt"
  let tsHeader := req.header "x-webhook-timestamp"
  let sigHeader := (req.header "x-webhook-signature").getD ""
  let sigHex :=
    if "sha256=".toList.isPrefixOf sigHeader.toList then
      String.ofList (sigHeader.toList.drop "sha256=".length)
    else sigHeader
  let validSignature :=
    match truthy idHeader, truthy tsHeader, truthy (some sigHex) with
    | some _, some ts, some sigHex =>
      verify env rt.signingSecret (rt.number ts) (rt.utf8 rawBody) sigHex
    | _, _, _ => false
  let parsedBody :=
    if rawBody.size = 0 then LoggedBody.null
    else match rt.jsonParse (rt.utf8 rawBody) with
      | some value => .json value
      | none => .text (rt.utf8 rawBody)
  { id := idHeader
    attempt := (truthy attemptHeader).map rt.number
    ts := (truthy tsHeader).map rt.number
    path := req.path
    body := parsedBody
    validSignature := validSignature
    receivedAt := rt.toISOString now }

end Receiver

end WebhookEngine
