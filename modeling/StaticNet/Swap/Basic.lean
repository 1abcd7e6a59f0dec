/-
The storage swap's data (`static-storage/src/swap.rs`): the four signed
messages with the bytes their signatures cover, the swap registry with
its operations, the capacity counters, and the accept decision.

A proposal id is the hash of five fields of the proposal; the registry
keys everything by it. `reserved_bytes` lives twice: in the capacity
counter and, per swap, in the pending entry.
-/
import StaticNet.Storage.Heartbeat

namespace StaticNet

-- ========= constants

/-- Timeout of a pending 2-phase swap: 5 minutes. -/
def DEFAULT_PENDING_SWAP_TIMEOUT_SECS : Nat := 300

def MAX_PENDING_SWAPS : Nat := 32

def MAX_PENDING_PROPOSALS : Nat := 128

def MAX_COMPLETED_SWAPS : Nat := 256

abbrev ProposalId := Bytes 32

/-- The all-zero root: a barter chunk without content binding. -/
def zeroRoot : MerkleRoot := Bytes.zero 32

def emptyProof : MerkleProof := ⟨0, []⟩

-- ========== messages

structure SwapProposal where
  fromNode : NodeId
  chunkId : ChunkId
  lease : ChunkLease
  encryptedMasterKey : List UInt8
  contentRoot : MerkleRoot
  merkleProof : MerkleProof
  proposalNonce : Bytes 32
  contentPublicKey : Bytes 32
  contentSignature : List UInt8
deriving DecidableEq

structure SwapAccept where
  fromNode : NodeId
  chunkId : ChunkId
  lease : ChunkLease
  proposalId : ProposalId
  encryptedMasterKey : List UInt8
  returnContentRoot : MerkleRoot
  returnMerkleProof : MerkleProof
  returnContentSignature : List UInt8
  nonce : Bytes 32
  identityPublicKey : Bytes 32
  signature : List UInt8
deriving DecidableEq

structure SwapCommit where
  proposalId : ProposalId
  fromNode : NodeId
  nonce : Bytes 32
  identityPublicKey : Bytes 32
  signature : List UInt8
deriving DecidableEq

structure SwapAbort where
  proposalId : ProposalId
  fromNode : NodeId
  reason : String
  nonce : Bytes 32
  identityPublicKey : Bytes 32
  signature : List UInt8
deriving DecidableEq

inductive SwapRejectReason
  | noCapacity
  | tooManyFromPeer
  | invalidChunkSize
  | invalidLease
  | invalidIntegrityTag
  | invalidSignature
deriving DecidableEq

structure SwapReject where
  fromNode : NodeId
  proposalId : ProposalId
  reason : SwapRejectReason
deriving DecidableEq

/-- The bytes of a Rust string. -/
def stringBytes (s : String) : List UInt8 := s.toUTF8.toList

/-- What `sign` does to a nonce: an all-zero one is drawn again. -/
def freshNonce (nonce resampled : Bytes 32) : Bytes 32 :=
  if nonce = Bytes.zero 32 then resampled else nonce

namespace SwapProposal

def signingBytes (p : SwapProposal) : List UInt8 :=
  p.contentRoot.toList ++ p.chunkId.toList ++ p.fromNode.toList
    ++ p.proposalNonce.toList

def verifyContentSignature (P : Prims) (p : SwapProposal) : Bool :=
  P.edCheck p.contentPublicKey p.signingBytes p.contentSignature

def sign (P : Prims) (p : SwapProposal) (key : SigningKey)
    (drawn : Bytes 32) : SwapProposal :=
  let p' := { p with
    contentPublicKey := P.edPublic key
    proposalNonce := freshNonce p.proposalNonce drawn }
  { p' with contentSignature := (P.edSign key p'.signingBytes).toList }

end SwapProposal

namespace SwapAccept

def signingBytes (a : SwapAccept) : List UInt8 :=
  a.proposalId.toList ++ a.fromNode.toList ++ a.chunkId.toList
    ++ a.returnContentRoot.toList ++ a.nonce.toList

def verifySignature (P : Prims) (a : SwapAccept) : Bool :=
  P.edCheck a.identityPublicKey a.signingBytes a.signature

def sign (P : Prims) (a : SwapAccept) (key : SigningKey)
    (resampled : Bytes 32) : SwapAccept :=
  let a' := { a with
    identityPublicKey := P.edPublic key
    nonce := freshNonce a.nonce resampled }
  { a' with signature := (P.edSign key a'.signingBytes).toList }

end SwapAccept

namespace SwapCommit

def signingBytes (c : SwapCommit) : List UInt8 :=
  c.proposalId.toList ++ c.fromNode.toList ++ c.nonce.toList

def verifySignature (P : Prims) (c : SwapCommit) : Bool :=
  P.edCheck c.identityPublicKey c.signingBytes c.signature

def sign (P : Prims) (c : SwapCommit) (key : SigningKey)
    (resampled : Bytes 32) : SwapCommit :=
  let c' := { c with
    identityPublicKey := P.edPublic key
    nonce := freshNonce c.nonce resampled }
  { c' with signature := (P.edSign key c'.signingBytes).toList }

end SwapCommit

namespace SwapAbort

def signingBytes (a : SwapAbort) : List UInt8 :=
  a.proposalId.toList ++ a.fromNode.toList ++ stringBytes a.reason
    ++ a.nonce.toList

def verifySignature (P : Prims) (a : SwapAbort) : Bool :=
  P.edCheck a.identityPublicKey a.signingBytes a.signature

def sign (P : Prims) (a : SwapAbort) (key : SigningKey)
    (resampled : Bytes 32) : SwapAbort :=
  let a' := { a with
    identityPublicKey := P.edPublic key
    nonce := freshNonce a.nonce resampled }
  { a' with signature := (P.edSign key a'.signingBytes).toList }

end SwapAbort

/-- `proposal_id`: the hash of chunk, sender, root, expiry and nonce. -/
def proposalId (P : Prims) (p : SwapProposal) : ProposalId :=
  P.blake3 (p.chunkId.toList ++ p.fromNode.toList ++ p.contentRoot.toList
    ++ beBytes 8 p.lease.expiresAt ++ p.proposalNonce.toList)

/-- `create_swap_proposal`: unsigned without a content key. -/
def createSwapProposal (P : Prims) (fromNode : NodeId) (chunkId : ChunkId)
    (masterKey : SymmetricKey) (leaseDurationSecs currentTime : Nat)
    (contentRoot : MerkleRoot) (merkleProof : MerkleProof)
    (contentPublicKey : Bytes 32) (contentKey : Option SigningKey)
    (drawn : Bytes 32) : SwapProposal :=
  let proposal : SwapProposal :=
    { fromNode := fromNode
      chunkId := chunkId
      lease := createLease P chunkId masterKey leaseDurationSecs currentTime
      encryptedMasterKey := []
      contentRoot := contentRoot
      merkleProof := merkleProof
      proposalNonce := Bytes.zero 32
      contentPublicKey := contentPublicKey
      contentSignature := [] }
  match contentKey with
  | some key => proposal.sign P key drawn
  | none => proposal

/-- `create_swap_accept`: barter, so no binding of the return chunk. -/
def createSwapAccept (P : Prims) (fromNode : NodeId) (chunkId : ChunkId)
    (masterKey : SymmetricKey) (pid : ProposalId)
    (leaseDurationSecs currentTime : Nat) (nonce : Bytes 32) :
    SwapAccept where
  fromNode := fromNode
  chunkId := chunkId
  lease := createLease P chunkId masterKey leaseDurationSecs currentTime
  proposalId := pid
  encryptedMasterKey := []
  returnContentRoot := zeroRoot
  returnMerkleProof := emptyProof
  returnContentSignature := []
  nonce := nonce
  identityPublicKey := Bytes.zero 32
  signature := []

def createSwapCommit (pid : ProposalId) (fromNode : NodeId)
    (nonce : Bytes 32) : SwapCommit where
  proposalId := pid
  fromNode := fromNode
  nonce := nonce
  identityPublicKey := Bytes.zero 32
  signature := []

def createSwapAbort (pid : ProposalId) (fromNode : NodeId)
    (reason : String) (nonce : Bytes 32) : SwapAbort where
  proposalId := pid
  fromNode := fromNode
  reason := reason
  nonce := nonce
  identityPublicKey := Bytes.zero 32
  signature := []

-- ========== registry

/-- A pending 2-phase swap: capacity is reserved, nothing is stored. -/
structure PendingSwap where
  proposalId : ProposalId
  peer : NodeId
  ourChunkId : ChunkId
  theirChunkId : ChunkId
  theirChunkData : List UInt8
  reservedBytes : Nat
  receivedTheirChunk : Bool
  retrievalRequested : Bool
  contentRoot : MerkleRoot
  merkleProof : MerkleProof
  sentCommit : Bool
  receivedCommit : Bool
  renewalToken : Bytes 32
  leaseExpiresAt : Nat
  contentPubKey : Bytes 32
  startedAt : Nat
deriving DecidableEq

/-- The condition under which a pending swap is finalized. -/
def PendingSwap.ready (swap : PendingSwap) : Bool :=
  swap.sentCommit && swap.receivedCommit && swap.receivedTheirChunk

/-- `SwapState`: the local registry of proposals and swaps. -/
structure SwapState where
  pendingProposals : FMap ProposalId SwapProposal
  pendingSwaps : FMap ProposalId PendingSwap
  activeSwaps : FMap ChunkId NodeId
  completedSwaps : List ProposalId
  abortedSwaps : List ProposalId
  totalSwappedBytes : Nat
  successfulSwaps : Nat
  rejectedSwaps : Nat

/-- Push onto a bounded log, dropping from the front past the bound. -/
def pushCapped (log : List ProposalId) (pid : ProposalId) :
    List ProposalId :=
  (log ++ [pid]).drop ((log ++ [pid]).length - MAX_COMPLETED_SWAPS)

namespace SwapState

def new : SwapState := ⟨∅, ∅, ∅, [], [], 0, 0, 0⟩

def removeProposal (st : SwapState) (pid : ProposalId) : SwapState :=
  { st with pendingProposals := st.pendingProposals.erase pid }

def startPendingSwap (st : SwapState) (swap : PendingSwap) : SwapState :=
  { st with pendingSwaps := st.pendingSwaps.insert swap.proposalId swap }

def getPendingSwap (st : SwapState) (pid : ProposalId) :
    Option PendingSwap := st.pendingSwaps.get pid

/-- Update one pending entry; nothing happens when it is gone. -/
def modifyPending (st : SwapState) (pid : ProposalId)
    (f : PendingSwap → PendingSwap) : SwapState :=
  { st with pendingSwaps := st.pendingSwaps.modify pid f }

/-- `receive_their_chunk`: whether the pending swap existed. -/
def receiveTheirChunk (st : SwapState) (pid : ProposalId)
    (data : List UInt8) : Bool × SwapState :=
  ((st.pendingSwaps.get pid).isSome,
    st.modifyPending pid fun swap =>
      { swap with theirChunkData := data, receivedTheirChunk := true })

def markCommitSent (st : SwapState) (pid : ProposalId) : SwapState :=
  st.modifyPending pid fun swap => { swap with sentCommit := true }

/-- `mark_commit_received`; its result is not used by the handlers. -/
def markCommitReceived (st : SwapState) (pid : ProposalId) : SwapState :=
  st.modifyPending pid fun swap => { swap with receivedCommit := true }

def completeSwap (st : SwapState) (pid : ProposalId) :
    Option PendingSwap × SwapState :=
  match st.pendingSwaps.get pid with
  | none => (none, st)
  | some swap =>
      (some swap,
        { st with
          pendingSwaps := st.pendingSwaps.erase pid
          activeSwaps := st.activeSwaps.insert swap.theirChunkId swap.peer
          successfulSwaps := st.successfulSwaps + 1
          totalSwappedBytes := st.totalSwappedBytes + swap.reservedBytes
          completedSwaps := pushCapped st.completedSwaps pid })

def abortSwap (st : SwapState) (pid : ProposalId) :
    Option PendingSwap × SwapState :=
  match st.pendingSwaps.get pid with
  | none => (none, st)
  | some swap =>
      (some swap,
        { st with
          pendingSwaps := st.pendingSwaps.erase pid
          abortedSwaps := pushCapped st.abortedSwaps pid })

/-- The timeout test of `expire_pending_swaps`. -/
def timedOut (currentTime timeoutSecs : Nat) (swap : PendingSwap) : Bool :=
  timeoutSecs < currentTime - swap.startedAt

/-- The removal loop of `expire_pending_swaps` over the collected ids. -/
def expireIds : List ProposalId → SwapState →
    List PendingSwap × SwapState
  | [], st => ([], st)
  | pid :: rest, st =>
      let st' := { st with
        abortedSwaps := pushCapped st.abortedSwaps pid
        pendingSwaps := st.pendingSwaps.erase pid }
      let r := expireIds rest st'
      ((st.pendingSwaps.get pid).toList ++ r.1, r.2)

def expirePendingSwaps (st : SwapState) (order : IterOrder ProposalId)
    (currentTime timeoutSecs : Nat) : List PendingSwap × SwapState :=
  let expired := (order.iter st.pendingSwaps.keys).filter fun pid =>
    (st.pendingSwaps.get pid).any (timedOut currentTime timeoutSecs)
  expireIds expired st

end SwapState

-- ========== capacity

/-- `StorageCapacity`: stored and reserved bytes under one maximum. -/
structure StorageCapacity where
  maxBytes : Nat
  currentBytes : Nat
  reservedBytes : Nat
  maxChunksPerPeer : Nat
deriving DecidableEq

namespace StorageCapacity

def new (maxBytes : Nat) : StorageCapacity := ⟨maxBytes, 0, 0, 100⟩

def canAccept (cap : StorageCapacity) (chunkSize peerChunks : Nat) :
    Bool :=
  cap.currentBytes + cap.reservedBytes + chunkSize ≤ cap.maxBytes
    && peerChunks < cap.maxChunksPerPeer

def reserve (cap : StorageCapacity) (chunkSize : Nat) : StorageCapacity :=
  { cap with reservedBytes := cap.reservedBytes + chunkSize }

/-- `release_reserved`: `store` moves the bytes into `current_bytes`. -/
def releaseReserved (cap : StorageCapacity) (chunkSize : Nat)
    (store : Bool) : StorageCapacity :=
  { cap with
    reservedBytes := cap.reservedBytes - chunkSize
    currentBytes :=
      if store then cap.currentBytes + chunkSize else cap.currentBytes }

def recordRemove (cap : StorageCapacity) (chunkSize : Nat) :
    StorageCapacity :=
  { cap with currentBytes := cap.currentBytes - chunkSize }

def reconcile (cap : StorageCapacity) (actualBytes : Nat) :
    StorageCapacity :=
  { cap with currentBytes := actualBytes }

end StorageCapacity

-- ========== decision

/-- `validate_swap_proposal`: the lease, then the content signature. -/
def validateSwapProposal (P : Prims) (p : SwapProposal)
    (currentTime : Nat) : Except SwapRejectReason Unit :=
  if !isLeaseValid p.lease currentTime then .error .invalidLease
  else if !p.verifyContentSignature P then .error .invalidSignature
  else .ok ()

def decideOnSwap (P : Prims) (p : SwapProposal) (cap : StorageCapacity)
    (peerChunks expectedChunkSize currentTime : Nat) :
    Except SwapRejectReason Unit :=
  match validateSwapProposal P p currentTime with
  | .error e => .error e
  | .ok () =>
      if !cap.canAccept expectedChunkSize peerChunks then
        if cap.maxChunksPerPeer ≤ peerChunks then .error .tooManyFromPeer
        else .error .noCapacity
      else .ok ()

end StaticNet
