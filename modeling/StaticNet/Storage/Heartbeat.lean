/-
Leases and heartbeats (`static-storage/src/heartbeat.rs`): the signed
renewal message, the lease manager, and its upsert path.

# Failures keep their effects

`process_heartbeat_upsert` works on `&mut self` and returns early on a
bad token or a foreign key; whatever it changed before that point stays
changed. The model returns the manager beside the result, on both
outcomes.
-/
import StaticNet.Storage.Basic

namespace StaticNet

-- ========= constants

/-- Default heartbeat interval: 30 minutes. -/
def DEFAULT_HEARTBEAT_INTERVAL_SECS : Nat := 1800

/-- Lease renewal grace period: 2 hours after expiry. -/
def GRACE_PERIOD_SECS : Nat := 7200

-- ======== heartbeats

/-- A heartbeat packet sent by the content owner. `content_id` is local
bookkeeping only and is not read by any processing path. -/
structure Heartbeat where
  renewalToken : Bytes 32
  newExpiresAt : Nat
  chunkIds : List ChunkId
  nonce : Bytes 32
  signature : List UInt8
  contentPubKey : Bytes 32
deriving DecidableEq

inductive HeartbeatError
  | replayDetected (seenTime : Nat)
  | invalidToken
  | contentNotOwned
  | noChunks
  | invalidSignature
deriving DecidableEq

namespace Heartbeat

def signingBytes (hb : Heartbeat) : List UInt8 :=
  hb.chunkIds.flatMap Bytes.toList ++ beBytes 8 hb.newExpiresAt
    ++ hb.nonce.toList

def verifySignature (P : Prims) (hb : Heartbeat) : Bool :=
  P.edCheck hb.contentPubKey hb.signingBytes hb.signature

/-- `Heartbeat::new`: unsigned, with the nonce drawn. -/
def new (renewalToken : Bytes 32) (chunkIds : List ChunkId)
    (newDurationSecs currentTime : Nat) (nonce : Bytes 32) :
    Heartbeat where
  renewalToken := renewalToken
  newExpiresAt := currentTime + newDurationSecs
  chunkIds := chunkIds
  nonce := nonce
  signature := []
  contentPubKey := Bytes.zero 32

def sign (P : Prims) (hb : Heartbeat) (signingKey : SigningKey) :
    Heartbeat :=
  let hb := { hb with contentPubKey := P.edPublic signingKey }
  { hb with signature := (P.edSign signingKey hb.signingBytes).toList }

end Heartbeat

-- ===== lease manager

/-- `LeaseManager`: the leases of held chunks, the chunk list of each
owned content, the seen nonces and the owned contents' master keys. -/
structure LeaseManager where
  leases : FMap ChunkId ChunkLease
  contentChunks : FMap ContentId (List ChunkId)
  seenNonces : FMap (Bytes 32) Nat
  ownedContent : FMap ContentId SymmetricKey

namespace LeaseManager

def new : LeaseManager := ⟨∅, ∅, ∅, ∅⟩

def registerOwnedContent (mgr : LeaseManager) (contentId : ContentId)
    (masterKey : SymmetricKey) (chunkIds : List ChunkId) : LeaseManager :=
  { mgr with
    ownedContent := mgr.ownedContent.insert contentId masterKey
    contentChunks := mgr.contentChunks.insert contentId chunkIds }

def addLease (mgr : LeaseManager) (chunkId : ChunkId)
    (lease : ChunkLease) : LeaseManager :=
  { mgr with leases := mgr.leases.insert chunkId lease }

def removeLease (mgr : LeaseManager) (chunkId : ChunkId) : LeaseManager :=
  { mgr with leases := mgr.leases.erase chunkId }

/-- The filter of `get_expired_chunks`: past expiry and grace. -/
def lapsed (currentTime : Nat) (lease : ChunkLease) : Bool :=
  lease.expiresAt < currentTime - GRACE_PERIOD_SECS

def getExpiredChunks (mgr : LeaseManager) (order : IterOrder ChunkId)
    (currentTime : Nat) : List ChunkId :=
  (order.iter mgr.leases.keys).filter fun c =>
    (mgr.leases.get c).any (lapsed currentTime)

def cleanupNonces (mgr : LeaseManager) (currentTime : Nat) :
    LeaseManager :=
  let threshold := currentTime - DEFAULT_LEASE_DURATION_SECS
  { mgr with seenNonces := mgr.seenNonces.retain fun _ t => threshold < t }

/-- `match_lease_content_key`: an all-zero key adopts the heartbeat's,
any other key must equal it. -/
def matchLeaseContentKey (lease : ChunkLease) (hb : Heartbeat) :
    Option ChunkLease :=
  if lease.contentPubKey = Bytes.zero 32 then
    some { lease with contentPubKey := hb.contentPubKey }
  else if lease.contentPubKey ≠ hb.contentPubKey then none
  else some lease

/-- The loop of `process_heartbeat_upsert` over the remaining ids. -/
def upsertLoop (hb : Heartbeat) (expiresAt : Nat)
    (held : ChunkId → Bool) : List ChunkId → LeaseManager → List ChunkId →
    Except HeartbeatError (List ChunkId) × LeaseManager
  | [], mgr, renewed => (.ok renewed, mgr)
  | c :: rest, mgr, renewed =>
      if !held c then upsertLoop hb expiresAt held rest mgr renewed
      else
        match mgr.leases.get c with
        | some lease =>
            if lease.renewalToken ≠ hb.renewalToken then
              (.error .invalidToken, mgr)
            else
              match matchLeaseContentKey lease hb with
              | none => (.error .invalidSignature, mgr)
              | some lease' =>
                  upsertLoop hb expiresAt held rest
                    (mgr.addLease c { lease' with expiresAt := expiresAt })
                    (renewed ++ [c])
        | none =>
            upsertLoop hb expiresAt held rest
              (mgr.addLease c
                { chunkId := c
                  expiresAt := expiresAt
                  renewalToken := hb.renewalToken
                  contentPubKey := hb.contentPubKey })
              (renewed ++ [c])

/-- The expiry a heartbeat is applied with: capped at one duration. -/
def cappedExpiry (hb : Heartbeat) (currentTime : Nat) : Nat :=
  min hb.newExpiresAt (satAdd currentTime DEFAULT_LEASE_DURATION_SECS)

def processHeartbeatUpsert (P : Prims) (mgr : LeaseManager)
    (hb : Heartbeat) (currentTime : Nat) (held : ChunkId → Bool) :
    Except HeartbeatError (List ChunkId) × LeaseManager :=
  if !hb.verifySignature P then (.error .invalidSignature, mgr)
  else
    match mgr.seenNonces.get hb.nonce with
    | some seenTime => (.error (.replayDetected seenTime), mgr)
    | none =>
        let mgr' := { mgr with
          seenNonces := mgr.seenNonces.insert hb.nonce currentTime }
        upsertLoop hb (cappedExpiry hb currentTime) held hb.chunkIds
          mgr' []

/-- The loop of `process_heartbeat` over the remaining ids: chunks
without a lease are passed over. -/
def renewLoop (hb : Heartbeat) : List ChunkId → LeaseManager →
    List ChunkId → Except HeartbeatError (List ChunkId) × LeaseManager
  | [], mgr, renewed => (.ok renewed, mgr)
  | c :: rest, mgr, renewed =>
      match mgr.leases.get c with
      | some lease =>
          if lease.renewalToken ≠ hb.renewalToken then
            (.error .invalidToken, mgr)
          else
            match matchLeaseContentKey lease hb with
            | none => (.error .invalidSignature, mgr)
            | some lease' =>
                renewLoop hb rest
                  (mgr.addLease c
                    { lease' with expiresAt := hb.newExpiresAt })
                  (renewed ++ [c])
      | none => renewLoop hb rest mgr renewed

def processHeartbeat (P : Prims) (mgr : LeaseManager) (hb : Heartbeat)
    (currentTime : Nat) :
    Except HeartbeatError (List ChunkId) × LeaseManager :=
  if !hb.verifySignature P then (.error .invalidSignature, mgr)
  else
    match mgr.seenNonces.get hb.nonce with
    | some seenTime => (.error (.replayDetected seenTime), mgr)
    | none =>
        let mgr' := { mgr with
          seenNonces := mgr.seenNonces.insert hb.nonce currentTime }
        renewLoop hb hb.chunkIds mgr' []

/-- `create_heartbeat`: the token is the one of the first chunk's lease
under the content's master key. -/
def createHeartbeat (P : Prims) (mgr : LeaseManager)
    (contentId : ContentId) (newDurationSecs : Nat)
    (signingKey : SigningKey) (currentTime : Nat) (nonce : Bytes 32) :
    Except HeartbeatError Heartbeat :=
  match mgr.ownedContent.get contentId with
  | none => .error .contentNotOwned
  | some masterKey =>
      match (mgr.contentChunks.get contentId).getD [] with
      | [] => .error .noChunks
      | first :: rest =>
          let lease := createLease P first masterKey
            DEFAULT_LEASE_DURATION_SECS currentTime
          .ok ((Heartbeat.new lease.renewalToken (first :: rest)
            newDurationSecs currentTime nonce).sign P signingKey)

end LeaseManager

end StaticNet
