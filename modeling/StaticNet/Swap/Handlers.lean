/-
The swap handlers of `static-mesh/src/transport.rs`, as programs over
the transport state.

# One section per lock

Every handler takes its locks one at a time and never nests them, so it
is a sequence of sections: what stands between `lock().await` and the
guard's drop is one `Proc` section here, in the source's order. The
clock, the random nonces and the order in which a hash table yields its
entries come from outside and are the fields of `Env`.

Sending is a section too: it changes nothing and leaves the message in
its label. Whether and when the message arrives is the network's
business.
-/
import StaticNet.Lib.Proc
import StaticNet.Routing.Basic
import StaticNet.Swap.Basic
import Mathlib.Tactic.Simps.Basic

namespace StaticNet

/-- Handshake and maintenance nonce replay window, in seconds. -/
def HANDSHAKE_NONCE_TTL_SECS : Nat := 300

def MAX_HANDSHAKE_NONCES : Nat := 4096

-- ============= state

/-- The part of `TransportState` the swap handlers read and write. The
lease manager is the runner's, as in production. -/
structure TransportState where
  nodeId : NodeId
  identityKey : SigningKey
  storageKey : SymmetricKey
  pendingSwapTimeoutSecs : Nat
  routingTable : FMap NodeId KnownNode
  swapState : SwapState
  storageCapacity : StorageCapacity
  chunkHolder : ChunkHolder
  leaseManager : LeaseManager
  peerChunkCounts : FMap NodeId Nat
  peerActivity : FMap NodeId Nat
  maintenanceNonces : FMap (Bytes 32) Nat

/-- What one handler invocation reads from outside: the clock at each of
its reads, the draws of the random generator (a nonce and, in case it is
all-zero, its replacement), and the iteration orders of the tables it
scans. -/
structure Env where
  activityAt : Nat
  now : Nat
  leaseAt : Nat
  nonce : Nat → Bytes 32
  resampled : Nat → Bytes 32
  chunkOrder : IterOrder ChunkId
  swapOrder : IterOrder ProposalId
  nonceOrder : IterOrder (Bytes 32)

/-- The messages the handlers send. -/
inductive SwapMessage
  | accept (a : SwapAccept)
  | reject (r : SwapReject)
  | commit (c : SwapCommit)
  | abort (a : SwapAbort)
deriving DecidableEq

/-- What a section does. Sections whose content no statement refers to
are told apart only by the lock they hold. -/
inductive Act
  | activity
  | routing
  | nonces
  | holder
  | capacity
  | swaps
  | counts
  | leases
  | key
  /-- the scan for the pending swap that waits for a delivered chunk -/
  | deliver (chunkId : ChunkId) (data : List UInt8)
  /-- an accept overwrites the terms of its pending swap -/
  | terms (a : SwapAccept)
  /-- a verified chunk is buffered in its pending swap -/
  | buffer (pid : ProposalId) (chunkId : ChunkId) (data : List UInt8)
  /-- a finalized swap's chunk is put into the holder -/
  | put (swap : PendingSwap)
  | send (dest : NodeId) (msg : SwapMessage)

/-- A handler over the transport state. -/
abbrev Handler := Proc Act TransportState

open Proc

namespace TransportState

/-- Update the swap registry. -/
@[simps]
def updSwaps (f : SwapState → SwapState) (s : TransportState) :
    TransportState := { s with swapState := f s.swapState }

/-- Update the capacity counters. -/
@[simps]
def updCapacity (f : StorageCapacity → StorageCapacity)
    (s : TransportState) : TransportState :=
  { s with storageCapacity := f s.storageCapacity }

@[simps]
def note (env : Env) (peer : NodeId) (s : TransportState) :
    TransportState :=
  { s with peerActivity := s.peerActivity.insert peer env.activityAt }

@[simps]
def setNonces (cache : FMap (Bytes 32) Nat) (s : TransportState) :
    TransportState := { s with maintenanceNonces := cache }

/-- `check_maintenance_nonce` on the cache: prune, look up, make room,
insert. The evicted entry is one with the smallest time stamp. -/
def checkNonceCache (env : Env) (nonce : Bytes 32)
    (cache : FMap (Bytes 32) Nat) : Bool × FMap (Bytes 32) Nat :=
  let cache := cache.retain fun _ ts =>
    env.now - ts ≤ HANDSHAKE_NONCE_TTL_SECS
  if cache.contains nonce then (false, cache)
  else
    let cache :=
      if MAX_HANDSHAKE_NONCES ≤ cache.len then
        match (env.nonceOrder.iter cache.keys).argmin
            (fun k => (cache.get k).getD 0) with
        | some oldest => cache.erase oldest
        | none => cache
      else cache
    (true, cache.insert nonce env.now)

end TransportState

open TransportState

-- =========== helpers

def notePeerActivity (env : Env) (peer : NodeId) : Handler Unit :=
  write .activity (note env peer)

def checkMaintenanceNonce (env : Env) (nonce : Bytes 32) : Handler Bool :=
  atom .nonces fun s =>
    let r := checkNonceCache env nonce s.maintenanceNonces
    (r.1, s.setNonces r.2)

/-- `check_maintenance_sender`: a pinned identity key must match. -/
def checkMaintenanceSender (claimed : NodeId)
    (presentedIdentity : Bytes 32) : Handler Bool :=
  read .routing fun s =>
    match s.routingTable.get claimed with
    | some known =>
        match known.identityPublicKey with
        | some stored => stored == presentedIdentity
        | none => true
    | none => true

def sendMessage (dest : NodeId) (msg : SwapMessage) : Handler Unit :=
  write (.send dest msg) id

def sendMaintenanceReject (dest : NodeId) (pid : ProposalId)
    (reason : SwapRejectReason) : Handler Unit := do
  let nodeId ← read .key fun s => s.nodeId
  sendMessage dest (.reject ⟨nodeId, pid, reason⟩)

/-- Build, sign and send a `SwapAbort`. -/
def sendAbort (P : Prims) (env : Env) (draw : Nat) (dest : NodeId)
    (pid : ProposalId) (reason : String) : Handler Unit := do
  let k ← read .key fun s => (s.nodeId, s.identityKey)
  let abort := createSwapAbort pid k.1 reason (env.nonce draw)
  sendMessage dest (.abort (abort.sign P k.2 (env.resampled draw)))

/-- Build, sign and send a `SwapCommit`. -/
def sendCommit (P : Prims) (env : Env) (dest : NodeId)
    (pid : ProposalId) : Handler Unit := do
  let k ← read .key fun s => (s.nodeId, s.identityKey)
  let commit := createSwapCommit pid k.1 (env.nonce 0)
  sendMessage dest (.commit (commit.sign P k.2 (env.resampled 0)))

/-- Abort a pending swap and release its reservation: two sections. -/
def abortAndRelease (pid : ProposalId) : Handler Unit := do
  let swap ← atom .swaps fun s =>
    let r := s.swapState.abortSwap pid
    (r.1, { s with swapState := r.2 })
  match swap with
  | none => pure ()
  | some swap =>
      write .capacity (updCapacity fun cap =>
        cap.releaseReserved swap.reservedBytes false)

/-- The frame of the three signed messages: note the sender, verify the
signature, check the pinned key and the nonce, then act. -/
def signedMessage (env : Env) (sender : NodeId) (verified : Bool)
    (identity nonce : Bytes 32) (body : Handler Unit) : Handler Unit := do
  notePeerActivity env sender
  if !verified then pure ()
  else
    let pinned ← checkMaintenanceSender sender identity
    if !pinned then pure ()
    else
      let fresh ← checkMaintenanceNonce env nonce
      if !fresh then pure () else body

/-- Is there a pending swap under this id with this peer? -/
def pendingWith (pid : ProposalId) (sender : NodeId)
    (s : TransportState) : Bool :=
  (s.swapState.getPendingSwap pid).any fun swap => swap.peer == sender

-- ========= proposing

/-- The entry `begin_swap_proposal` records for the proposer. -/
def proposerEntry (P : Prims) (peer : NodeId) (p : SwapProposal)
    (now : Nat) : PendingSwap where
  proposalId := proposalId P p
  peer := peer
  ourChunkId := p.chunkId
  theirChunkId := Bytes.zero 32
  theirChunkData := []
  reservedBytes := 0
  receivedTheirChunk := false
  retrievalRequested := false
  contentRoot := zeroRoot
  merkleProof := emptyProof
  sentCommit := false
  receivedCommit := false
  renewalToken := Bytes.zero 32
  leaseExpiresAt := 0
  contentPubKey := Bytes.zero 32
  startedAt := now

def beginSwapProposal (P : Prims) (env : Env) (peer : NodeId)
    (p : SwapProposal) : Handler ProposalId := do
  write .swaps (updSwaps fun st =>
    st.startPendingSwap (proposerEntry P peer p env.now))
  pure (proposalId P p)

/-- The entry `handle_maintenance_proposal` records for the accepter. -/
def accepterEntry (P : Prims) (p : SwapProposal) (retId : ChunkId)
    (chunkLen now : Nat) : PendingSwap where
  proposalId := proposalId P p
  peer := p.fromNode
  ourChunkId := retId
  theirChunkId := p.chunkId
  theirChunkData := []
  reservedBytes := chunkLen
  receivedTheirChunk := false
  retrievalRequested := false
  contentRoot := p.contentRoot
  merkleProof := p.merkleProof
  sentCommit := false
  receivedCommit := false
  renewalToken := p.lease.renewalToken
  leaseExpiresAt := p.lease.expiresAt
  contentPubKey := p.contentPublicKey
  startedAt := now

/-- The return chunk: the first held one that is not the offered one. -/
def pickReturn (env : Env) (p : SwapProposal) (s : TransportState) :
    Option ChunkId :=
  (env.chunkOrder.find s.chunkHolder.chunks
    fun id _ => id != p.chunkId).map Prod.fst

/-- Check room and reserve under one lock. -/
def tryReserve (chunkLen peerChunks : Nat) : Handler Bool :=
  atom .capacity fun s =>
    if s.storageCapacity.canAccept chunkLen peerChunks then
      (true, s.updCapacity fun cap => cap.reserve chunkLen)
    else (false, s)

/-- The prepare phase, once the decision is positive. -/
def prepareSwap (P : Prims) (env : Env) (p : SwapProposal)
    (chunkLen peerChunks : Nat) : Handler Unit := do
  let pid := proposalId P p
  let returnEntry ← read .holder (pickReturn env p)
  match returnEntry with
  | none => sendMaintenanceReject p.fromNode pid .noCapacity
  | some retId =>
      let pendingLen ← read .swaps fun s => s.swapState.pendingSwaps.len
      if MAX_PENDING_SWAPS ≤ pendingLen then
        sendMaintenanceReject p.fromNode pid .noCapacity
      else
        let reserved ← tryReserve chunkLen peerChunks
        if !reserved then
          sendMaintenanceReject p.fromNode pid .noCapacity
        else
          write .swaps (updSwaps fun st =>
            (st.removeProposal pid).startPendingSwap
              (accepterEntry P p retId chunkLen env.now))
          let k ← read .key fun s =>
            (s.nodeId, s.storageKey, s.identityKey)
          let accept := createSwapAccept P k.1 retId k.2.1 pid 86400
            env.leaseAt (env.nonce 0)
          sendMessage p.fromNode
            (.accept (accept.sign P k.2.2 (env.resampled 0)))

def handleMaintenanceProposal (P : Prims) (env : Env)
    (p : SwapProposal) : Handler Unit := do
  notePeerActivity env p.fromNode
  -- reconcile the counter with the holder before deciding
  let actualBytes ← read .holder fun s => s.chunkHolder.totalBytes
  write .capacity (updCapacity fun cap => cap.reconcile actualBytes)
  let peerChunks ← read .counts fun s =>
    (s.peerChunkCounts.get p.fromNode).getD 0
  let result ← read .capacity fun s =>
    decideOnSwap P p s.storageCapacity peerChunks ENCRYPTED_CHUNK_SIZE
      env.now
  match result with
  | .ok () => prepareSwap P env p ENCRYPTED_CHUNK_SIZE peerChunks
  | .error reason =>
      write .swaps (updSwaps fun st =>
        st.removeProposal (proposalId P p))
      write .swaps (updSwaps fun st =>
        { st with rejectedSwaps := st.rejectedSwaps + 1 })
      sendMaintenanceReject p.fromNode (proposalId P p) reason

-- ========= accepting

/-- The overwrite of the pending terms by an accept: the return chunk
and its lease always, its root and proof only when the root is set. -/
def adoptTerms (a : SwapAccept) (chunkLen : Nat) (swap : PendingSwap) :
    PendingSwap :=
  let swap := { swap with
    theirChunkId := a.chunkId
    reservedBytes := chunkLen
    renewalToken := a.lease.renewalToken
    leaseExpiresAt := a.lease.expiresAt }
  if a.returnContentRoot ≠ zeroRoot then
    { swap with
      contentRoot := a.returnContentRoot
      merkleProof := a.returnMerkleProof }
  else swap

/-- The accept handler once the message is authenticated. -/
def adoptAccept (P : Prims) (env : Env) (a : SwapAccept)
    (chunkLen : Nat) : Handler Unit := do
  let peerOk ← read .swaps (pendingWith a.proposalId a.fromNode)
  if !peerOk then pure ()
  else
    let fits ← tryReserve chunkLen 0
    if !fits then
      abortAndRelease a.proposalId
      sendAbort P env 0 a.fromNode a.proposalId
        "no capacity for return chunk"
    else
      write (.terms a) (updSwaps fun st =>
        st.modifyPending a.proposalId (adoptTerms a chunkLen))

def handleMaintenanceAccept (P : Prims) (env : Env) (a : SwapAccept) :
    Handler Unit :=
  signedMessage env a.fromNode (a.verifySignature P) a.identityPublicKey
    a.nonce (adoptAccept P env a ENCRYPTED_CHUNK_SIZE)

-- ======== finalizing

/-- The lease `finalize_swap_if_ready` inserts for the stored chunk. -/
def swapLease (swap : PendingSwap) : ChunkLease where
  chunkId := swap.theirChunkId
  expiresAt := swap.leaseExpiresAt
  renewalToken := swap.renewalToken
  contentPubKey := swap.contentPubKey

/-- Remove the entry as completed when all three flags are set. -/
def completeReady (pid : ProposalId) (s : TransportState) :
    Option PendingSwap × TransportState :=
  if (s.swapState.getPendingSwap pid).any PendingSwap.ready then
    ((s.swapState.completeSwap pid).1,
      s.updSwaps fun st => (st.completeSwap pid).2)
  else (none, s)

def completeIfReady (pid : ProposalId) : Handler (Option PendingSwap) :=
  atom .swaps (completeReady pid)

/-- Store a chunk unless it is already held; whether it was new. -/
def storeChunk (swap : PendingSwap) : Handler Bool :=
  atom (.put swap) fun s =>
    if s.chunkHolder.hasChunk swap.theirChunkId then (false, s)
    else
      (true,
        { s with
          chunkHolder := s.chunkHolder.addChunk swap.theirChunkId
            swap.theirChunkData (Bytes.zero 32) })

/-- After the put: the reservation becomes stored bytes, and a new chunk
counts for its peer and gets a lease. -/
def accountStored (swap : PendingSwap) (storedNew : Bool) :
    Handler Bool := do
  write .capacity (updCapacity fun cap =>
    cap.releaseReserved swap.reservedBytes storedNew)
  if storedNew then
    write .counts fun s =>
      { s with
        peerChunkCounts := s.peerChunkCounts.insert swap.peer
          ((s.peerChunkCounts.get swap.peer).getD 0 + 1) }
    write .leases fun s =>
      { s with
        leaseManager := s.leaseManager.addLease swap.theirChunkId
          (swapLease swap) }
  pure true

def finalizeSwapIfReady (pid : ProposalId) : Handler Bool := do
  let completed ← completeIfReady pid
  match completed with
  | none => pure false
  | some swap =>
      let storedNew ← storeChunk swap
      accountStored swap storedNew

def commitPending (c : SwapCommit) : Handler Unit := do
  let peerOk ← read .swaps (pendingWith c.proposalId c.fromNode)
  if !peerOk then pure ()
  else
    write .swaps (updSwaps fun st => st.markCommitReceived c.proposalId)
    let _ ← finalizeSwapIfReady c.proposalId
    pure ()

def handleMaintenanceCommit (P : Prims) (env : Env) (c : SwapCommit) :
    Handler Unit :=
  signedMessage env c.fromNode (c.verifySignature P) c.identityPublicKey
    c.nonce (commitPending c)

-- ========== aborting

def abortPending (a : SwapAbort) : Handler Unit := do
  let peerOk ← read .swaps (pendingWith a.proposalId a.fromNode)
  if !peerOk then
    -- still allow cleanup of proposer-side proposal records
    write .swaps (updSwaps fun st => st.removeProposal a.proposalId)
  else abortAndRelease a.proposalId

def handleMaintenanceAbort (P : Prims) (env : Env) (a : SwapAbort) :
    Handler Unit :=
  signedMessage env a.fromNode (a.verifySignature P) a.identityPublicKey
    a.nonce (abortPending a)

def handleMaintenanceReject (r : SwapReject) : Handler Unit := do
  write .swaps (updSwaps fun st =>
    { st with rejectedSwaps := st.rejectedSwaps + 1 })
  write .swaps (updSwaps fun st => st.removeProposal r.proposalId)

-- ========= retrieval

/-- Does this pending swap wait for this chunk? -/
def awaits (chunkId : ChunkId) (swap : PendingSwap) : Bool :=
  !swap.receivedTheirChunk && swap.theirChunkId == chunkId

/-- The pending swap a delivered chunk is for: the first in iteration
order that waits for it. -/
def findAwaiting (env : Env) (chunkId : ChunkId) (s : TransportState) :
    Option PendingSwap :=
  (env.swapOrder.find s.swapState.pendingSwaps
    fun _ swap => awaits chunkId swap).map Prod.snd

/-- The integrity gate: an all-zero root accepts the data as it is. -/
def passesGate (P : Prims) (root : MerkleRoot) (proof : MerkleProof)
    (data : List UInt8) : Bool :=
  root == zeroRoot || verifyChunk P data proof root

/-- Mark our commit as sent; whether it still has to be sent. -/
def claimCommit (pid : ProposalId) : Handler Bool :=
  atom .swaps fun s =>
    let already :=
      (s.swapState.getPendingSwap pid).any fun swap => swap.sentCommit
    if already then (false, s)
    else (true, s.updSwaps fun st => st.markCommitSent pid)

/-- The chunk is buffered: send our commit unless it is already in
flight, then finalize if their commit has arrived. -/
def commitRetrieved (P : Prims) (env : Env) (pid : ProposalId)
    (peer : NodeId) : Handler Bool := do
  let needCommit ← claimCommit pid
  if needCommit then sendCommit P env peer pid
  let _ ← finalizeSwapIfReady pid
  pure true

def bufferRetrieved (P : Prims) (env : Env) (pid : ProposalId)
    (peer : NodeId) (chunkId : ChunkId) (data : List UInt8) :
    Handler Bool := do
  let received ← atom (.buffer pid chunkId data) fun s =>
    let r := s.swapState.receiveTheirChunk pid data
    (r.1, { s with swapState := r.2 })
  if !received then pure false else commitRetrieved P env pid peer

def handleSwapChunkRetrieval (P : Prims) (env : Env) (chunkId : ChunkId)
    (data : List UInt8) : Handler Bool :=
  if data.length ≠ ENCRYPTED_CHUNK_SIZE then pure false
  else do
    let found ← read (.deliver chunkId data) (findAwaiting env chunkId)
    match found with
    | none => pure false
    | some swap =>
        if !passesGate P swap.contentRoot swap.merkleProof data then
          abortAndRelease swap.proposalId
          sendAbort P env 0 swap.peer swap.proposalId
            "retrieved chunk failed integrity verification"
          pure true
        else
          bufferRetrieved P env swap.proposalId swap.peer chunkId data

-- ============ expiry

/-- Release each expired swap's reservation and tell its peer; each
abort draws its own nonce. -/
def releaseExpired (P : Prims) (env : Env) :
    Nat → List PendingSwap → Handler Unit
  | _, [] => pure ()
  | draw, swap :: rest => do
      write .capacity (updCapacity fun cap =>
        cap.releaseReserved swap.reservedBytes false)
      sendAbort P env draw swap.peer swap.proposalId
        "pending swap timed out"
      releaseExpired P env (draw + 1) rest

def expirePendingSwaps (P : Prims) (env : Env) : Handler Nat := do
  let expired ← atom .swaps fun s =>
    let r := s.swapState.expirePendingSwaps env.swapOrder env.now
      s.pendingSwapTimeoutSecs
    (r.1, { s with swapState := r.2 })
  releaseExpired P env 0 expired
  pure expired.length

end StaticNet
