/-
The local API server (`static-node/src/api.rs`): one JSON request for each
connection, put together from what the reads of the socket yield, and the
action that it asks for.

# Reads

A read yields some bytes, or none when the peer has closed its side; or it
fails, or its time elapses. After the first read the buffer is parsed
before each further one. As soon as it parses, only what comes within 50 ms
is read once more.

# Errors of others

The texts of errors that the API passes on are parameters (`ApiTexts`), as
are the JSON conversions.
-/
import StaticNet.Api.Hex
import StaticNet.Compute.Requester
import StaticNet.Node.Publish

namespace StaticNet.Api

def MAX_API_REQUEST_BYTES : Nat := 1024 * 1024

structure ApiRequest where
  action : String
  data : Option String
  contentPubKey : Option String
  computeCurrency : Option String
  requestId : Option String
  txHash : Option String
  token : Option String
deriving DecidableEq

structure ApiResponse where
  status : String
  message : String
  contentId : Option String := none
  manifest : Option ContentManifest := none
  data : Option String := none
  contentPubKey : Option String := none
  requestId : Option String := none
  paymentRequired : Bool := false
  paymentCurrency : Option String := none
  paymentAddress : Option String := none
  paymentAmount : Option UInt64 := none
deriving DecidableEq

/-- The `serde_json` conversions, with the text of an error. -/
structure ApiJson where
  fromSlice : List UInt8 → Except String ApiRequest
  toVec : ApiResponse → Option (List UInt8)

/-- `Display` of the errors that other modules return. -/
structure ApiTexts where
  publish : PublishError → String
  retrieve : RetrieveError → String
  compute : SendError → String

def serializeResponse (json : ApiJson) (resp : ApiResponse) : List UInt8 :=
  (json.toVec resp).getD (asBytes
    "\x7b\"status\":\"error\",\"message\":\"response serialization failed\"\x7d")

/-- `api_error`. -/
def apiError (message : String) : ApiResponse :=
  { status := "error", message }

-- ========= a request

/-- The node, as far as the API reaches it. The chunk holder is taken once
a retrieval waits for itself with the holder locked. -/
structure ApiNode where
  publisher : PublisherState
  compute : Requester
  holderTaken : Bool

/-- What goes out on the network. -/
inductive ApiSent
  | prepayment (sponsor : NodeId) (p : Prepayment)
  | packets (s : Sending)

/-- What a request draws and meets outside the node's state; `later` are
the node's requests when a second lock section reads them. -/
structure ApiWorld where
  publishEnv : PublishEnv
  publish : PublishDraws
  retrieve : RetrieveEnv
  routing : RoutingTable
  order : IterOrder NodeId
  requestId : RequestId
  self : SelfRoute
  now : Nat
  turn : Turn
  takes : NodeId → SphinxPacket → Bool
  later : Requester

/-- What handling comes to: the response, unless the task panics, waits for
ever or finds the connection ended, the node, and what was sent. -/
structure ApiOutcome where
  response : Option ApiResponse
  node : ApiNode
  sent : List ApiSent

/-- A response that touches nothing. -/
def ApiNode.answers (node : ApiNode) (response : ApiResponse) : ApiOutcome :=
  ⟨some response, node, []⟩

/-- An argument that cannot be used, under the caller's words. -/
def ApiNode.halts (node : ApiNode) (words : String → String) :
    Halt String → ApiOutcome
  | .error e => node.answers (apiError (words e))
  | .panic => ⟨none, node, []⟩

/-- `to_lowercase`, as far as it leads to a ticker: besides the capitals
only the Kelvin sign has an ASCII lower case. -/
def lowercase (s : String) : String :=
  String.ofList (s.toList.map fun c =>
    if c = Char.ofNat 0x212A then 'k' else c.toLower)

/-- `Currency::from_str`. -/
def currencyFromStr (s : String) : Option Currency :=
  let name := lowercase s
  if name = "xmr" ∨ name = "monero" then some .monero
  else if name = "dark" ∨ name = "darkfi" then some .darkfi
  else if name = "nav" ∨ name = "navio" then some .navio
  else none

/-- `Currency::as_str`. -/
def currencyAsStr : Currency → String
  | .monero => "XMR"
  | .darkfi => "DARK"
  | .navio => "NAV"

/-- The currency of a compute request: Monero unless it names one. -/
def requestedCurrency : Option String → Except String Currency
  | none => .ok .monero
  | some ticker =>
      match currencyFromStr ticker with
      | some c => .ok c
      | none => .error ("Unsupported currency '" ++ ticker
          ++ "' (accepted: xmr, dark, nav)")

/-- A request id in hex. -/
def parseRequestId (hex : String) : Except (Halt String) RequestId :=
  match hexDecode hex with
  | .error .panic => .error .panic
  | .error (.error e) => .error (.error ("Invalid request ID: " ++ e))
  | .ok bytes =>
      if h : bytes.length = 32 then .ok ⟨bytes, h⟩
      else .error (.error "request ID must be 32 bytes")

section Actions

variable (P : Prims) (rs : ErasureCode) (json : Json) (texts : ApiTexts)
  (w : ApiWorld) (request : ApiRequest) (node : ApiNode)

/-- A full node's publication up to where it locks the chunk holder. -/
def publishToHolder (chunks : List EncryptedChunk)
    (manifest : ContentManifest) : ApiNode :=
  let runner := keepProofs P w.publish chunks
    (keepManifest P w.publish manifest
      (keepKeypair P w.publish node.publisher.runner))
  { node with publisher := { node.publisher with runner := runner } }

def publishData (data : List UInt8) : ApiOutcome :=
  let out := publishContentIn P rs json w.publishEnv w.publish data
    node.publisher
  { response := some (match out.1 with
      | .error e => apiError ("Publish failed: " ++ texts.publish e)
      | .ok (contentId, manifest, publicKey) =>
          { status := "ok", message := "Published",
            contentId := some (hexEncode contentId.toList),
            manifest := some manifest,
            contentPubKey := some (hexEncode publicKey.toList) })
    node := { node with publisher := out.2.1 }
    sent := (out.2.2.map fun x => .prepayment x.1 x.2).toList }

/-- A node that stores what it publishes waits for a holder that is
taken. -/
def publishAction : ApiOutcome :=
  match hexDecode (request.data.getD "") with
  | .error h => node.halts ("Invalid hex: " ++ ·) h
  | .ok data =>
      if node.holderTaken && w.publishEnv.mode ≠ .seedOnly then
        match prepareContent P rs w.publish data with
        | .error _ => publishData P rs json texts w node data
        | .ok r => ⟨none, publishToHolder P w node r.1 r.2, []⟩
      else publishData P rs json texts w node data

/-- A retrieval that waits for itself takes the chunk holder, and every
later one waits for it. -/
def retrieveAction : ApiOutcome :=
  match parseContentKey request.contentPubKey with
  | .error h => node.halts id h
  | .ok publicKey =>
      if node.holderTaken then ⟨none, node, []⟩
      else
        let out := retrieveContent P json w.retrieve publicKey
          node.publisher.runner
        { response := out.1.map fun
            | .error e => apiError ("Retrieve failed: " ++ texts.retrieve e)
            | .ok data =>
                { status := "ok", message := "Retrieved",
                  data := some (hexEncode data) }
          node := { node with
            publisher := { node.publisher with runner := out.2 }
            holderTaken := out.1.isNone }
          sent := [] }

/-- `submit_compute_request` on the node's requests. -/
def submission (publicKey : Bytes 32) (input : List UInt8)
    (currency : Currency) : ComputeSubmission where
  moduleContentPubKey := publicKey
  inputData := input
  currency := currency
  routing := w.routing
  order := w.order
  requestId := w.requestId
  self := w.self
  pendingRequests := node.compute.pendingRequests
  now := w.now
  turn := w.turn

def submitAction (publicKey : Bytes 32) (input : List UInt8)
    (currency : Currency) : ApiOutcome :=
  let out := (submission w node publicKey input
    currency).submitComputeRequest P w.takes
  { response := some (match out.1 with
      | .error e => apiError ("Compute failed: " ++ texts.compute e)
      | .ok id =>
          { status := "ok", message := "Compute request submitted",
            requestId := some (hexEncode id.toList) })
    node := { node with
      compute := { node.compute with pendingRequests := out.2.1 } }
    sent := out.2.2.map .packets }

def computeAction : ApiOutcome :=
  match parseContentKey request.contentPubKey with
  | .error h => node.halts id h
  | .ok publicKey =>
      match request.data.map hexDecode with
      | none => node.answers (apiError "Missing input data")
      | some (.error h) => node.halts ("Invalid input hex: " ++ ·) h
      | some (.ok input) =>
          match requestedCurrency request.computeCurrency with
          | .error e => node.answers (apiError e)
          | .ok currency =>
              submitAction P texts w node publicKey input currency

end Actions

/-- The node's requests, as two lock sections find them one after the
other. -/
structure Look where
  first : Requester
  later : Requester

/-- What polling finds: the result, else a quote to be paid, else
nothing. -/
def pollResponse (look : Look) (id : RequestId) : ApiResponse :=
  match look.first.computeResult id with
  | some result =>
      { status := "ok",
        message := if result.success then "Compute complete" else "failed",
        data := some (if result.success then hexEncode result.outputData
          else result.error.getD "unknown error"),
        requestId := some (hexEncode result.requestId.toList) }
  | none =>
      match look.later.pendingPayment id with
      | some quote =>
          { status := "pending",
            message := "payment required before execution",
            requestId := some (hexEncode id.toList),
            paymentRequired := true,
            paymentCurrency := some (currencyAsStr quote.currency),
            paymentAddress := some quote.address,
            paymentAmount := some quote.amount }
      | none =>
          { status := "pending", message := "Result not ready",
            requestId := some (hexEncode id.toList) }

section Handling

variable (P : Prims) (rs : ErasureCode) (json : Json) (texts : ApiTexts)
  (w : ApiWorld) (request : ApiRequest) (node : ApiNode)

def computeResultAction : ApiOutcome :=
  match parseRequestId (request.data.getD "") with
  | .error h => node.halts id h
  | .ok id => node.answers (pollResponse ⟨node.compute, w.later⟩ id)

def confirmAction (id : RequestId) (txHash : String) : ApiOutcome :=
  let out := PaymentSending.confirmComputePayment P w.takes
    ⟨id, txHash, node.compute.pendingRequests, w.turn⟩
  { response := some (match out.1 with
      | .error e => apiError ("Compute confirm failed: " ++ texts.compute e)
      | .ok () =>
          { status := "ok",
            message := "Payment confirmation sent; waiting for blockchain "
              ++ "confirmation",
            requestId := some (hexEncode id.toList) })
    node := node
    sent := out.2.map .packets }

def computeConfirmAction : ApiOutcome :=
  match request.requestId with
  | none => node.answers (apiError "Missing request_id")
  | some hex =>
      match request.txHash.filter (· ≠ "") with
      | none => node.answers (apiError "Missing tx_hash")
      | some txHash =>
          match parseRequestId hex with
          | .error h => node.halts id h
          | .ok id => confirmAction P texts w node id txHash

/-- `handle_request`: the token is checked before any action. -/
def handleRequest (expectedToken : Option String) : ApiOutcome :=
  if !verifyToken request.token expectedToken then
    node.answers (apiError "unauthorized: invalid or missing API token")
  else if request.action = "publish" then
    publishAction P rs json texts w request node
  else if request.action = "retrieve" then
    retrieveAction P json texts w request node
  else if request.action = "compute" then
    computeAction P texts w request node
  else if request.action = "compute_result" then
    computeResultAction w request node
  else if request.action = "compute_confirm" then
    computeConfirmAction P texts w request node
  else node.answers (apiError "Unknown action")

end Handling

-- ====== a connection

/-- What a read of the socket yields; no bytes when the peer has closed. -/
inductive SocketRead
  | data (bytes : List UInt8)
  | failed
  | elapsed
deriving DecidableEq

/-- What the reads of a connection come to. -/
inductive Gathered
  | nothing
  | tooLarge
  | request (bytes : List UInt8)
deriving DecidableEq

/-- The loop: a buffer that parses is read once more, any other until
there is nothing more to read. -/
def gatherFrom (json : ApiJson) : List UInt8 → List SocketRead → Gathered
  | buf, .data (b :: bytes) :: reads =>
      if MAX_API_REQUEST_BYTES < buf.length + (b :: bytes).length then
        .tooLarge
      else if (json.fromSlice buf).isOk then .request (buf ++ b :: bytes)
      else gatherFrom json (buf ++ b :: bytes) reads
  | buf, _ => .request buf

/-- The first read has to yield something. -/
def gather (json : ApiJson) : List SocketRead → Gathered
  | .data (b :: bytes) :: reads =>
      if MAX_API_REQUEST_BYTES < (b :: bytes).length then .tooLarge
      else gatherFrom json (b :: bytes) reads
  | _ => .nothing

/-- What is done with a buffer. -/
def handleBuffer (P : Prims) (rs : ErasureCode) (json : Json)
    (api : ApiJson) (texts : ApiTexts) (expectedToken : Option String)
    (w : ApiWorld) (node : ApiNode) (bytes : List UInt8) : ApiOutcome :=
  match api.fromSlice bytes with
  | .error e => node.answers (apiError ("Invalid request: " ++ e))
  | .ok request =>
      handleRequest P rs json texts w request node expectedToken

/-- The task of a connection. -/
def serve (P : Prims) (rs : ErasureCode) (json : Json) (api : ApiJson)
    (texts : ApiTexts) (expectedToken : Option String)
    (reads : List SocketRead) (w : ApiWorld) (node : ApiNode) :
    ApiOutcome :=
  match gather api reads with
  | .nothing => ⟨none, node, []⟩
  | .tooLarge => node.answers (apiError "request too large")
  | .request bytes =>
      handleBuffer P rs json api texts expectedToken w node bytes

end StaticNet.Api
