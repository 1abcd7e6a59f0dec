/-
The compute and payment messages, and their layouts
(`static-storage/src/compute.rs`).

Reader and writer check their bounds independently. A list is preceded by
its length in four bytes, a text is its UTF-8 bytes, and an absent error
is an empty text.
-/
import StaticNet.Lib.Cursor
import StaticNet.Retrieval.Basic

namespace StaticNet

-- ========= constants

def MSG_COMPUTE_REQUEST : UInt8 := 0x03

def MSG_COMPUTE_RESPONSE : UInt8 := 0x04

def MSG_PAYMENT_REQUEST : UInt8 := 0x05

def MSG_PAYMENT_CONFIRMATION : UInt8 := 0x06

def MAX_COMPUTE_INPUT_SIZE : Nat := 32 * 1024

def MAX_COMPUTE_OUTPUT_SIZE : Nat := 32 * 1024

def MAX_PAYMENT_ADDRESS_SIZE : Nat := 1024

def MAX_TX_HASH_SIZE : Nat := 1024

def MAX_PAYMENT_REQUEST_SIZE : Nat := 2048

def MAX_COMPUTE_ROUTE_HOPS : Nat := 32

-- ========== messages

abbrev RequestId := Bytes 32

inductive Currency
  | monero
  | darkfi
  | navio
deriving DecidableEq

namespace Currency

def toByte : Currency → UInt8
  | .monero => 0
  | .darkfi => 1
  | .navio => 2

def fromByte (b : UInt8) : Option Currency :=
  if b = 0 then some .monero
  else if b = 1 then some .darkfi
  else if b = 2 then some .navio
  else none

theorem fromByte_toByte (c : Currency) : fromByte c.toByte = some c := by
  cases c <;> decide

end Currency

structure ComputeRequest where
  fromNode : NodeId
  moduleContentId : ContentId
  moduleContentPubKey : Bytes 32
  currency : UInt8
  paymentAddress : List UInt8
  requestId : RequestId
  returnRoute : ReturnRoute
  inputData : List UInt8
deriving DecidableEq

structure ComputeResponse where
  requestId : RequestId
  outputData : List UInt8
  success : Bool
  error : Option String
  cpuTimeMs : UInt64
  memoryUsed : UInt64
  paymentRequired : Bool
  paymentRequest : List UInt8
deriving DecidableEq

structure PaymentRequest where
  requestId : RequestId
  currency : Currency
  amount : UInt64
  address : String
  requiredConfirmations : UInt32
deriving DecidableEq

structure PaymentConfirmation where
  requestId : RequestId
  txHash : String
  currency : Currency
deriving DecidableEq

-- ====== shared parts

/-- A list after its length. -/
def withLength (bytes : List UInt8) : List UInt8 :=
  beBytes 4 bytes.length ++ bytes

def flagByte (b : Bool) : UInt8 := if b then 1 else 0

/-- `append_return_route`, and the same loop in the other writers. -/
def serializeReturnRoute (route : ReturnRoute) : List UInt8 :=
  beBytes 4 route.hops.length
    ++ ((route.hops.map serializeHop).flatten
    ++ route.destination.toList)

/-- `as_bytes`: the UTF-8 bytes of a text. -/
def asBytes (s : String) : List UInt8 := s.toUTF8.data.toList

/-- `short`: the length that is needed, and the one there is. -/
def short (needed actual : Nat) : StorageError :=
  .invalidChunkSize needed actual

/-- `String::from_utf8`. -/
def utf8 (bytes : List UInt8) : Cursor StorageError String :=
  .ofOption (String.fromUTF8? ⟨bytes.toArray⟩) .decryptionFailed

open Cursor in
/-- The check of the type byte; readers differ in what they expect of an
empty buffer. -/
def typeByte (whenEmpty : Nat) (type : UInt8) :
    Cursor StorageError Unit := do
  let len ← size
  ensure (len ≠ 0) (.invalidChunkSize whenEmpty 0)
  let b ← next
  ensure (b = type) (.invalidChunkSize type.toNat b.toNat)

namespace Compute

open Cursor

/-- One hop, where the room for all of them is checked before. -/
def hop : Cursor StorageError RouteHop := do
  let publicKey ← raw 32
  let nodeId ← raw 16
  pure ⟨Bytes.ofList 32 publicKey, Bytes.ofList 16 nodeId⟩

/-- The return route of a request. -/
def returnRoute : Cursor StorageError ReturnRoute := do
  let hopCount ← uint 4 short
  let len ← size
  ensure (hopCount ≤ MAX_COMPUTE_ROUTE_HOPS)
    (short MAX_COMPUTE_ROUTE_HOPS len)
  need (hopCount * 48 + 16) short
  let hops ← many hop hopCount
  let destination ← raw 16
  pure ⟨hops, Bytes.ofList 16 destination⟩

-- ========== requests

def serializeRequest (req : ComputeRequest) :
    Except StorageError (List UInt8) :=
  if MAX_COMPUTE_INPUT_SIZE < req.inputData.length then
    .error (.invalidChunkSize MAX_COMPUTE_INPUT_SIZE req.inputData.length)
  else if MAX_PAYMENT_ADDRESS_SIZE < req.paymentAddress.length then
    .error (.invalidChunkSize MAX_PAYMENT_ADDRESS_SIZE
      req.paymentAddress.length)
  else
    .ok ([MSG_COMPUTE_REQUEST]
      ++ (req.fromNode.toList
      ++ (req.moduleContentId.toList
      ++ (req.moduleContentPubKey.toList
      ++ ([req.currency]
      ++ (withLength req.paymentAddress
      ++ (req.requestId.toList
      ++ (serializeReturnRoute req.returnRoute
      ++ withLength req.inputData))))))))

def deserializeRequest : Cursor StorageError ComputeRequest := do
  typeByte MSG_COMPUTE_REQUEST.toNat MSG_COMPUTE_REQUEST
  let fromNode ← array 16 short
  let moduleContentId ← array 32 short
  let moduleContentPubKey ← array 32 short
  let currency ← byte short
  let addrLen ← uint 4 short
  ensure (addrLen ≤ MAX_PAYMENT_ADDRESS_SIZE)
    (.invalidChunkSize MAX_PAYMENT_ADDRESS_SIZE addrLen)
  let paymentAddress ← take addrLen short
  let requestId ← array 32 short
  let returnRoute ← returnRoute
  let inputLen ← uint 4 short
  let inputData ← take inputLen short
  ensure (inputData.length ≤ MAX_COMPUTE_INPUT_SIZE)
    (.invalidChunkSize MAX_COMPUTE_INPUT_SIZE inputData.length)
  pure
    { fromNode := fromNode
      moduleContentId := moduleContentId
      moduleContentPubKey := moduleContentPubKey
      currency := currency
      paymentAddress := paymentAddress
      requestId := requestId
      returnRoute := returnRoute
      inputData := inputData }

-- ========= responses

def serializeResponse (resp : ComputeResponse) :
    Except StorageError (List UInt8) :=
  if MAX_COMPUTE_OUTPUT_SIZE < resp.outputData.length then
    .error (.invalidChunkSize MAX_COMPUTE_OUTPUT_SIZE
      resp.outputData.length)
  else if MAX_PAYMENT_REQUEST_SIZE < resp.paymentRequest.length then
    .error (.invalidChunkSize MAX_PAYMENT_REQUEST_SIZE
      resp.paymentRequest.length)
  else
    .ok ([MSG_COMPUTE_RESPONSE]
      ++ (resp.requestId.toList
      ++ ([flagByte resp.success]
      ++ (withLength (asBytes (resp.error.getD ""))
      ++ (beBytes 8 resp.cpuTimeMs.toNat
      ++ (beBytes 8 resp.memoryUsed.toNat
      ++ ([flagByte resp.paymentRequired]
      ++ (withLength resp.paymentRequest
      ++ withLength resp.outputData))))))))

/-- The error text: none when it is empty. -/
def errorText : Cursor StorageError (Option String) := do
  let errorLen ← uint 4 short
  let bytes ← take errorLen short
  if 0 < errorLen then
    let text ← utf8 bytes
    pure (some text)
  else pure none

def deserializeResponse : Cursor StorageError ComputeResponse := do
  typeByte MSG_COMPUTE_RESPONSE.toNat MSG_COMPUTE_RESPONSE
  let requestId ← array 32 short
  let success ← byte short
  let error ← errorText
  need 16 short
  let cpuTimeMs ← raw 8
  let memoryUsed ← raw 8
  let paymentRequired ← byte short
  let payreqLen ← uint 4 short
  ensure (payreqLen ≤ MAX_PAYMENT_REQUEST_SIZE)
    (.invalidChunkSize MAX_PAYMENT_REQUEST_SIZE payreqLen)
  let paymentRequest ← take payreqLen short
  let outputLen ← uint 4 short
  let outputData ← take outputLen short
  ensure (outputData.length ≤ MAX_COMPUTE_OUTPUT_SIZE)
    (.invalidChunkSize MAX_COMPUTE_OUTPUT_SIZE outputData.length)
  pure
    { requestId := requestId
      outputData := outputData
      success := success = 1
      error := error
      cpuTimeMs := UInt64.ofNat (ofBeBytes cpuTimeMs)
      memoryUsed := UInt64.ofNat (ofBeBytes memoryUsed)
      paymentRequired := paymentRequired = 1
      paymentRequest := paymentRequest }

-- ========== payments

def serializePaymentRequest (req : PaymentRequest) :
    Except StorageError (List UInt8) :=
  let address := asBytes req.address
  if MAX_PAYMENT_ADDRESS_SIZE < address.length then
    .error (.invalidChunkSize MAX_PAYMENT_ADDRESS_SIZE address.length)
  else
    .ok ([MSG_PAYMENT_REQUEST]
      ++ (req.requestId.toList
      ++ ([req.currency.toByte]
      ++ (beBytes 8 req.amount.toNat
      ++ (withLength address
      ++ beBytes 4 req.requiredConfirmations.toNat)))))

/-- The currency's byte. -/
def currencyByte : Cursor StorageError Currency := do
  let b ← byte short
  ofOption (Currency.fromByte b) .decryptionFailed

def deserializePaymentRequest : Cursor StorageError PaymentRequest := do
  typeByte MSG_PAYMENT_REQUEST.toNat MSG_PAYMENT_REQUEST
  let requestId ← array 32 short
  let currency ← currencyByte
  let amount ← uint 8 short
  let addrLen ← uint 4 short
  ensure (addrLen ≤ MAX_PAYMENT_ADDRESS_SIZE)
    (.invalidChunkSize MAX_PAYMENT_ADDRESS_SIZE addrLen)
  let addressBytes ← take addrLen short
  let address ← utf8 addressBytes
  let requiredConfirmations ← uint 4 short
  pure
    { requestId := requestId
      currency := currency
      amount := UInt64.ofNat amount
      address := address
      requiredConfirmations := UInt32.ofNat requiredConfirmations }

def serializePaymentConfirmation (confirmation : PaymentConfirmation) :
    Except StorageError (List UInt8) :=
  let txHash := asBytes confirmation.txHash
  if MAX_TX_HASH_SIZE < txHash.length then
    .error (.invalidChunkSize MAX_TX_HASH_SIZE txHash.length)
  else
    .ok ([MSG_PAYMENT_CONFIRMATION]
      ++ (confirmation.requestId.toList
      ++ ([confirmation.currency.toByte]
      ++ withLength txHash)))

def deserializePaymentConfirmation :
    Cursor StorageError PaymentConfirmation := do
  typeByte MSG_PAYMENT_CONFIRMATION.toNat MSG_PAYMENT_CONFIRMATION
  let requestId ← array 32 short
  let currency ← currencyByte
  let txHashLen ← uint 4 short
  ensure (txHashLen ≤ MAX_TX_HASH_SIZE)
    (.invalidChunkSize MAX_TX_HASH_SIZE txHashLen)
  let txHashBytes ← take txHashLen short
  let txHash ← utf8 txHashBytes
  pure ⟨requestId, txHash, currency⟩

end Compute

end StaticNet
