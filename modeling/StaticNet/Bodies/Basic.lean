/-
The bodies that travel in Sphinx packets, each behind its type byte: the
readers of chunk requests and responses, the verification messages
(`static-storage/src/verification.rs`), the missing-chunk gossip
(`gossip.rs`) and the heartbeat (`heartbeat.rs`).

The readers are written with the checks and the accesses of the source;
for chunk requests and responses, which are read by functions on byte
strings elsewhere, they are given a second time here (`Checked`).
-/
import StaticNet.Compute.Messages
import StaticNet.Storage.Heartbeat

namespace StaticNet

-- ========= constants

def MSG_VERIFICATION_CHALLENGE : UInt8 := 0x07

def MSG_VERIFICATION_RESPONSE : UInt8 := 0x08

def MSG_MISSING_CHUNK_GOSSIP : UInt8 := 0x09

def MSG_HEARTBEAT : UInt8 := 0x0A

def MAX_SEGMENT_DATA_SIZE : Nat := SEGMENT_SIZE

def MAX_GOSSIP_ROUTE_HOPS : Nat := 32

def MAX_HEARTBEAT_CHUNKS : Nat := 4096

-- ========== messages

structure VerificationChallenge where
  chunkId : ChunkId
  segmentIndex : UInt32
  nonce : Bytes 32
  returnRoute : ReturnRoute
deriving DecidableEq

structure VerificationResponse where
  chunkId : ChunkId
  segmentIndex : UInt32
  nonce : Bytes 32
  segmentData : List UInt8
  found : Bool
deriving DecidableEq

structure MissingChunkGossip where
  contentId : ContentId
  chunkId : ChunkId
  timestamp : UInt64
  returnRoute : ReturnRoute
deriving DecidableEq

open Cursor

-- ============ chunks

namespace Checked

/-- One hop of a return route, checked for itself. -/
def hop : Cursor StorageError RouteHop := do
  need 48 short
  let publicKey ← raw 32
  let nodeId ← raw 16
  pure ⟨Bytes.ofList 32 publicKey, Bytes.ofList 16 nodeId⟩

/-- The return route of a chunk request or a gossip. -/
def returnRoute (maxHops : Nat) : Cursor StorageError ReturnRoute := do
  let hopCount ← uint 4 short
  ensure (hopCount ≤ maxHops) (.invalidChunkSize maxHops hopCount)
  let hops ← many hop hopCount
  let destination ← array 16 short
  pure ⟨hops, destination⟩

/-- The reply block at the end of a request: an all-zero tail is
padding. -/
def surb : Cursor StorageError (Option (List UInt8)) := do
  let tail ← remaining
  if tail.any fun b => b ≠ 0 then
    let offset ← pos
    let len ← size
    need 5 short
    let marker ← next
    ensure (marker = 1) (.invalidChunkSize (offset + 5) len)
    let lenBytes ← raw 4
    let left ← remaining
    ensure (ofBeBytes lenBytes ≤ MAX_SERIALIZED_SURB_SIZE
        ∧ ofBeBytes lenBytes ≤ left.length)
      (.invalidChunkSize MAX_SERIALIZED_SURB_SIZE (ofBeBytes lenBytes))
    let bytes ← raw (ofBeBytes lenBytes)
    pure (some bytes)
  else pure none

def deserializeRequest : Cursor StorageError ChunkRequest := do
  typeByte 1 MSG_CHUNK_REQUEST
  let chunkId ← array 32 short
  let returnRoute ← returnRoute MAX_RETRIEVAL_ROUTE_HOPS
  let surb ← surb
  pure ⟨chunkId, returnRoute, surb⟩

def deserializeResponse : Cursor StorageError ChunkResponse := do
  typeByte 1 MSG_CHUNK_RESPONSE
  let chunkId ← array 32 short
  let found ← byte short
  let dataLen ← uint 4 short
  let chunkData ← take dataLen short
  pure ⟨chunkId, chunkData, found = 1⟩

end Checked

-- ====== verification

namespace Verification

/-- `take_return_route`. -/
def takeReturnRoute : Cursor StorageError ReturnRoute := do
  let hopCount ← uint 4 short
  ensure (hopCount ≤ 32) (.invalidChunkSize 32 hopCount)
  let hops ← many (do
    let publicKey ← array 32 short
    let nodeId ← array 16 short
    pure ⟨publicKey, nodeId⟩) hopCount
  let destination ← array 16 short
  pure ⟨hops, destination⟩

def serializeChallenge (challenge : VerificationChallenge) :
    Except StorageError (List UInt8) :=
  .ok ([MSG_VERIFICATION_CHALLENGE]
    ++ (challenge.chunkId.toList
    ++ (beBytes 4 challenge.segmentIndex.toNat
    ++ (challenge.nonce.toList
    ++ serializeReturnRoute challenge.returnRoute))))

def deserializeChallenge : Cursor StorageError VerificationChallenge := do
  typeByte 1 MSG_VERIFICATION_CHALLENGE
  let chunkId ← array 32 short
  let segmentIndex ← uint 4 short
  let nonce ← array 32 short
  let returnRoute ← takeReturnRoute
  pure ⟨chunkId, UInt32.ofNat segmentIndex, nonce, returnRoute⟩

def serializeResponse (resp : VerificationResponse) :
    Except StorageError (List UInt8) :=
  if MAX_SEGMENT_DATA_SIZE < resp.segmentData.length then
    .error (.invalidChunkSize MAX_SEGMENT_DATA_SIZE
      resp.segmentData.length)
  else
    .ok ([MSG_VERIFICATION_RESPONSE]
      ++ (resp.chunkId.toList
      ++ (beBytes 4 resp.segmentIndex.toNat
      ++ (resp.nonce.toList
      ++ ([flagByte resp.found]
      ++ withLength resp.segmentData)))))

def deserializeResponse : Cursor StorageError VerificationResponse := do
  typeByte 1 MSG_VERIFICATION_RESPONSE
  let chunkId ← array 32 short
  let segmentIndex ← uint 4 short
  let nonce ← array 32 short
  let found ← byte short
  let dataLen ← uint 4 short
  ensure (dataLen ≤ MAX_SEGMENT_DATA_SIZE)
    (.invalidChunkSize MAX_SEGMENT_DATA_SIZE dataLen)
  let segmentData ← take dataLen short
  pure ⟨chunkId, UInt32.ofNat segmentIndex, nonce, segmentData, found = 1⟩

end Verification

-- ============ gossip

def serializeGossip (gossip : MissingChunkGossip) : List UInt8 :=
  [MSG_MISSING_CHUNK_GOSSIP]
    ++ (gossip.contentId.toList
    ++ (gossip.chunkId.toList
    ++ (beBytes 8 gossip.timestamp.toNat
    ++ serializeReturnRoute gossip.returnRoute)))

def deserializeGossip : Cursor StorageError MissingChunkGossip := do
  typeByte 1 MSG_MISSING_CHUNK_GOSSIP
  let contentId ← array 32 short
  let chunkId ← array 32 short
  let timestamp ← uint 8 short
  let returnRoute ← Checked.returnRoute MAX_GOSSIP_ROUTE_HOPS
  pure ⟨contentId, chunkId, UInt64.ofNat timestamp, returnRoute⟩

-- ======== heartbeats

namespace Heartbeat

def serialize (hb : Heartbeat) : List UInt8 :=
  hb.renewalToken.toList
    ++ (beBytes 8 hb.newExpiresAt
    ++ (beBytes 4 hb.chunkIds.length
    ++ ((hb.chunkIds.map Bytes.toList).flatten
    ++ (hb.nonce.toList
    ++ (hb.contentPubKey.toList
    ++ withLength hb.signature)))))

def deserialize : Cursor StorageError Heartbeat := do
  let len ← size
  ensure (32 + 8 + 4 + 32 + 32 + 4 ≤ len) (short 112 len)
  let renewalToken ← raw 32
  let newExpiresAt ← raw 8
  let countBytes ← raw 4
  let chunkCount := ofBeBytes countBytes
  ensure (chunkCount ≤ MAX_HEARTBEAT_CHUNKS)
    (.invalidChunkSize MAX_HEARTBEAT_CHUNKS chunkCount)
  let chunkIds ← many (array 32 short) chunkCount
  need (32 + 32 + 4) short
  let nonce ← raw 32
  let contentPubKey ← raw 32
  let lenBytes ← raw 4
  let sigLen := ofBeBytes lenBytes
  let offset ← pos
  let left ← remaining
  ensure (sigLen ≤ 64 ∧ sigLen ≤ left.length)
    (short (offset + sigLen) len)
  let signature ← raw sigLen
  pure
    { renewalToken := Bytes.ofList 32 renewalToken
      newExpiresAt := ofBeBytes newExpiresAt
      chunkIds := chunkIds
      nonce := Bytes.ofList 32 nonce
      signature := signature
      contentPubKey := Bytes.ofList 32 contentPubKey }

def wireSerialize (hb : Heartbeat) : List UInt8 :=
  [MSG_HEARTBEAT] ++ hb.serialize

def wireDeserialize : Cursor StorageError Heartbeat := do
  typeByte MSG_HEARTBEAT.toNat MSG_HEARTBEAT
  onRest deserialize

end Heartbeat

-- ============ bodies

/-- A body with one of these layouts. -/
inductive Body
  | chunkRequest (req : ChunkRequest)
  | chunkResponse (resp : ChunkResponse)
  | computeRequest (req : ComputeRequest)
  | computeResponse (resp : ComputeResponse)
  | paymentRequest (req : PaymentRequest)
  | paymentConfirmation (confirmation : PaymentConfirmation)
  | challenge (challenge : VerificationChallenge)
  | response (resp : VerificationResponse)
  | gossip (gossip : MissingChunkGossip)
  | heartbeat (hb : Heartbeat)
deriving DecidableEq

inductive BodyKind
  | chunkRequest
  | chunkResponse
  | computeRequest
  | computeResponse
  | paymentRequest
  | paymentConfirmation
  | challenge
  | response
  | gossip
  | heartbeat
deriving DecidableEq

namespace BodyKind

def type : BodyKind → UInt8
  | .chunkRequest => MSG_CHUNK_REQUEST
  | .chunkResponse => MSG_CHUNK_RESPONSE
  | .computeRequest => MSG_COMPUTE_REQUEST
  | .computeResponse => MSG_COMPUTE_RESPONSE
  | .paymentRequest => MSG_PAYMENT_REQUEST
  | .paymentConfirmation => MSG_PAYMENT_CONFIRMATION
  | .challenge => MSG_VERIFICATION_CHALLENGE
  | .response => MSG_VERIFICATION_RESPONSE
  | .gossip => MSG_MISSING_CHUNK_GOSSIP
  | .heartbeat => MSG_HEARTBEAT

/-- The reader of each kind. -/
def deserialize : BodyKind → Cursor StorageError Body
  | .chunkRequest => .chunkRequest <$> Checked.deserializeRequest
  | .chunkResponse => .chunkResponse <$> Checked.deserializeResponse
  | .computeRequest => .computeRequest <$> Compute.deserializeRequest
  | .computeResponse => .computeResponse <$> Compute.deserializeResponse
  | .paymentRequest =>
      .paymentRequest <$> Compute.deserializePaymentRequest
  | .paymentConfirmation =>
      .paymentConfirmation <$> Compute.deserializePaymentConfirmation
  | .challenge => .challenge <$> Verification.deserializeChallenge
  | .response => .response <$> Verification.deserializeResponse
  | .gossip => .gossip <$> deserializeGossip
  | .heartbeat => .heartbeat <$> Heartbeat.wireDeserialize

end BodyKind

namespace Body

def kind : Body → BodyKind
  | .chunkRequest _ => .chunkRequest
  | .chunkResponse _ => .chunkResponse
  | .computeRequest _ => .computeRequest
  | .computeResponse _ => .computeResponse
  | .paymentRequest _ => .paymentRequest
  | .paymentConfirmation _ => .paymentConfirmation
  | .challenge _ => .challenge
  | .response _ => .response
  | .gossip _ => .gossip
  | .heartbeat _ => .heartbeat

/-- The writer of each kind. -/
def serialize : Body → Except StorageError (List UInt8)
  | .chunkRequest req => .ok (serializeRequest req)
  | .chunkResponse resp => .ok (StaticNet.serializeResponse resp)
  | .computeRequest req => Compute.serializeRequest req
  | .computeResponse resp => Compute.serializeResponse resp
  | .paymentRequest req => Compute.serializePaymentRequest req
  | .paymentConfirmation confirmation =>
      Compute.serializePaymentConfirmation confirmation
  | .challenge asked => Verification.serializeChallenge asked
  | .response resp => Verification.serializeResponse resp
  | .gossip report => .ok (serializeGossip report)
  | .heartbeat hb => .ok hb.wireSerialize

end Body

end StaticNet
