/-
The command line client (`static-node/src/main.rs`): a request to the local
API, and the polling for what a compute request came to.

# A connection

The client opens a connection, writes the whole request, closes its side
and reads until the server closes its own (no bytes). A read that fails
ends it, and so does a response that is too large.

# Polling

The list of what the polls come to is as long as the time allows. It ends
with the first answer that is not a pending one.
-/
import StaticNet.Api.Server

namespace StaticNet.Api

def MAX_RESPONSE_BYTES : Nat := 10 * 1024 * 1024

/-- The client's `serde_json` conversions. -/
structure ClientJson where
  toVec : ApiRequest → Except String (List UInt8)
  fromSlice : List UInt8 → Except String ApiResponse

inductive CallError
  | connect (e : String)
  | request (e : String)
  | write (e : String)
  /-- "API response too large" -/
  | tooLarge
  /-- "API read failed: {e}" -/
  | read (e : String)
  | response (e : String)
deriving DecidableEq

/-- How a connection goes, for the client. -/
structure Line where
  connect : Option String
  write : Option String
  reads : List (Except String (List UInt8))

def readResponse : List UInt8 → List (Except String (List UInt8)) →
    Except CallError (List UInt8)
  | buf, .ok (b :: bytes) :: reads =>
      if MAX_RESPONSE_BYTES < buf.length + (b :: bytes).length then
        .error .tooLarge
      else readResponse (buf ++ b :: bytes) reads
  | _, .error e :: _ => .error (.read e)
  | buf, _ => .ok buf

def sendApiRequest (json : ClientJson) (line : Line)
    (request : ApiRequest) : Except CallError ApiResponse :=
  match line.connect with
  | some e => .error (.connect e)
  | none =>
      match json.toVec request with
      | .error e => .error (.request e)
      | .ok _ =>
          match line.write with
          | some e => .error (.write e)
          | none =>
              (readResponse [] line.reads).bind fun buf =>
                (json.fromSlice buf).mapError .response

-- =========== polling

/-- What polling prints. -/
inductive Printed
  /-- "Poll failed: {e}" -/
  | pollFailed (e : CallError)
  /-- "Compute output (hex): {hex}" -/
  | output (hex : String)
  /-- "Compute execution failed: {reason}" -/
  | executionFailed (reason : String)
  /-- "Payment required: {amount} {currency} to {address}", and what to run
  after it -/
  | payment (amount : UInt64) (currency address : String)
  /-- "Compute failed: {message}" -/
  | failed (message : String)
  /-- "Payment not confirmed yet. ..." -/
  | unconfirmed
  /-- "Result not ready yet. ..." -/
  | notReady
deriving DecidableEq

def pollRequest (requestId : String) (token : Option String) :
    ApiRequest where
  action := "compute_result"
  data := some requestId
  contentPubKey := none
  computeCurrency := none
  requestId := none
  txHash := none
  token := token

/-- `message.contains("failed")`. -/
def saysFailed (message : String) : Bool :=
  decide ("failed".toList <:+: message.toList)

/-- `poll_compute_result`, from what each poll comes to; `announced` is
`payment_announced`. -/
def pollComputeResult : Bool → List (Except CallError ApiResponse) →
    List Printed
  | announced, [] => [if announced then .unconfirmed else .notReady]
  | _, .error e :: _ => [.pollFailed e]
  | announced, .ok r :: polls =>
      if r.status = "ok" then
        [if saysFailed r.message then .executionFailed (r.data.getD "")
          else .output (r.data.getD "")]
      else if r.status = "pending" then
        if r.paymentRequired && !announced then
          .payment (r.paymentAmount.getD 0) (r.paymentCurrency.getD "")
              (r.paymentAddress.getD "")
            :: pollComputeResult true polls
        else pollComputeResult announced polls
      else [.failed r.message]

end StaticNet.Api
