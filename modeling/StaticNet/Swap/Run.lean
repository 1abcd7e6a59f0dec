/-
Runs of one node's swap handlers, each handled as one step.

An event is a call of one of the seven entry points with its arguments
and what it reads from outside; a run folds the handlers' sequential
reading (`Proc.post`) over a list of events. Messages are arbitrary: the
handlers authenticate them themselves, so a run over arbitrary messages
covers the verifying ones and the others.
-/
import StaticNet.Swap.Handlers

namespace StaticNet

/-- A node before its first swap. -/
def freshNode (nodeId : NodeId) (identityKey : SigningKey)
    (holder : ChunkHolder) (maxBytes : Nat) : TransportState where
  nodeId := nodeId
  identityKey := identityKey
  storageKey := Bytes.zero 32
  pendingSwapTimeoutSecs := DEFAULT_PENDING_SWAP_TIMEOUT_SECS
  routingTable := ∅
  swapState := SwapState.new
  storageCapacity := StorageCapacity.new maxBytes
  chunkHolder := holder
  leaseManager := LeaseManager.new
  peerChunkCounts := ∅
  peerActivity := ∅
  maintenanceNonces := ∅

/-- A peer known with its identity key. -/
def knownPeer (id : UInt8) : KnownNode where
  nodeId := Bytes.fill 16 id
  publicKey := Bytes.fill 32 id
  address := ""
  kemPublicKey := none
  computeEnabled := false
  computeCapacity := 0
  identityPublicKey := some (Bytes.fill 32 id)

/-- A handler call at time `now` that draws the nonce `seed` and scans
its tables in the order of their keys. -/
def quietEnv (seed : UInt8) (now : Nat) : Env where
  activityAt := now
  now := now
  leaseAt := now
  nonce := fun _ => Bytes.fill 32 seed
  resampled := fun _ => Bytes.fill 32 seed
  chunkOrder := IterOrder.bytewise
  swapOrder := IterOrder.bytewise
  nonceOrder := IterOrder.bytewise

/-- One call of a swap entry point. -/
inductive SwapEvent
  | propose (env : Env) (peer : NodeId) (p : SwapProposal)
  | proposal (env : Env) (p : SwapProposal)
  | accept (env : Env) (a : SwapAccept)
  | commit (env : Env) (c : SwapCommit)
  | abort (env : Env) (a : SwapAbort)
  | retrieval (env : Env) (chunkId : ChunkId) (data : List UInt8)
  | expire (env : Env)

namespace SwapEvent

/-- The handler an event calls, its result discarded. -/
def program (P : Prims) : SwapEvent → Handler Unit
  | propose env peer p => do let _ ← beginSwapProposal P env peer p
  | proposal env p => handleMaintenanceProposal P env p
  | accept env a => handleMaintenanceAccept P env a
  | commit env c => handleMaintenanceCommit P env c
  | abort env a => handleMaintenanceAbort P env a
  | retrieval env chunkId data => do
      let _ ← handleSwapChunkRetrieval P env chunkId data
  | expire env => do let _ ← expirePendingSwaps P env

/-- One event handled as one step. -/
def step (P : Prims) (s : TransportState) (e : SwapEvent) :
    TransportState := (e.program P).post s

/-- The state after a run of events. -/
def run (P : Prims) (s : TransportState) (es : List SwapEvent) :
    TransportState := es.foldl (step P) s

end SwapEvent

-- ============ guards

/-- Would the proposal handler open a swap for `p` in this state? The
decision is positive after reconciling, a return chunk is held, and the
pending table has room. -/
def opens (P : Prims) (env : Env) (p : SwapProposal)
    (s : TransportState) : Bool :=
  (decideOnSwap P p
      (s.storageCapacity.reconcile s.chunkHolder.totalBytes)
      ((s.peerChunkCounts.get p.fromNode).getD 0)
      ENCRYPTED_CHUNK_SIZE env.now).isOk
    && (pickReturn env p s).isSome
    && s.swapState.pendingSwaps.len < MAX_PENDING_SWAPS

/-- Does the sender's key agree with the routing table's pinned one? -/
def pinnedKeyOk (sender : NodeId) (identity : Bytes 32)
    (s : TransportState) : Bool :=
  (checkMaintenanceSender sender identity).out s

/-- Does a signed message pass key continuity and the nonce cache? -/
def authentic (env : Env) (sender : NodeId) (identity nonce : Bytes 32)
    (s : TransportState) : Bool :=
  pinnedKeyOk sender identity s
    && (TransportState.checkNonceCache env nonce s.maintenanceNonces).1

/-- The state in which an authentic message is acted on. -/
def heard (env : Env) (sender : NodeId) (nonce : Bytes 32)
    (s : TransportState) : TransportState :=
  (s.note env sender).setNonces
    (TransportState.checkNonceCache env nonce s.maintenanceNonces).2

/-- Would the accept handler get past authentication and the peer
check in this state? -/
def acceptBinds (P : Prims) (env : Env) (a : SwapAccept)
    (s : TransportState) : Bool :=
  a.verifySignature P
    && authentic env a.fromNode a.identityPublicKey a.nonce s
    && pendingWith a.proposalId a.fromNode s

/-- Would the accept handler then find room and overwrite the terms? -/
def adopts (P : Prims) (env : Env) (a : SwapAccept)
    (s : TransportState) : Bool :=
  acceptBinds P env a s
    && s.storageCapacity.canAccept ENCRYPTED_CHUNK_SIZE 0

-- ==== the signed messages

open Proc

variable {env : Env} {sender : NodeId} {verified : Bool}
  {identity nonce : Bytes 32} {body : Handler Unit} {s : TransportState}

theorem out_checkMaintenanceSender_note :
    (checkMaintenanceSender sender identity).out (s.note env sender)
      = pinnedKeyOk sender identity s := rfl

theorem post_checkMaintenanceSender :
    (checkMaintenanceSender sender identity).post s = s := rfl

theorem out_checkMaintenanceNonce_note :
    (checkMaintenanceNonce env nonce).out (s.note env sender)
      = (TransportState.checkNonceCache env nonce
          s.maintenanceNonces).1 := rfl

theorem post_checkMaintenanceNonce_note :
    (checkMaintenanceNonce env nonce).post (s.note env sender)
      = heard env sender nonce s := rfl

/-- An authentic message is acted on, in the state `heard`. -/
theorem post_signedMessage
    (h : (verified && authentic env sender identity nonce s) = true) :
    (signedMessage env sender verified identity nonce body).post s
      = body.post (heard env sender nonce s) := by
  unfold authentic at h
  rw [Bool.and_eq_true, Bool.and_eq_true] at h
  obtain ⟨hv, hp, hn⟩ := h
  unfold signedMessage notePeerActivity
  simp only [post_bind, post_write, hv, Bool.not_true, Bool.false_eq_true,
    if_false, out_checkMaintenanceSender_note, hp,
    post_checkMaintenanceSender, out_checkMaintenanceNonce_note, hn,
    post_checkMaintenanceNonce_note]

/-- Any other message leaves everything but the activity table and the
nonce cache as it was. -/
theorem post_signedMessage_ignored (body : Handler Unit)
    (h : (verified && authentic env sender identity nonce s) = false) :
    ∃ cache,
      (signedMessage env sender verified identity nonce body).post s
        = (s.note env sender).setNonces cache := by
  unfold signedMessage notePeerActivity
  simp only [post_bind, post_write]
  cases hv : verified with
  | false => exact ⟨s.maintenanceNonces, rfl⟩
  | true =>
      simp only [Bool.not_true, Bool.false_eq_true, if_false, post_bind,
        out_checkMaintenanceSender_note, post_checkMaintenanceSender]
      by_cases hp : pinnedKeyOk sender identity s = true
      · have hn : (TransportState.checkNonceCache env nonce
            s.maintenanceNonces).1 = false := by
          simpa [hv, authentic, hp] using h
        simp only [hp, Bool.not_true, Bool.false_eq_true, if_false,
          post_bind, out_checkMaintenanceNonce_note, hn, Bool.not_false,
          if_true, post_checkMaintenanceNonce_note, post_pure]
        exact ⟨_, rfl⟩
      · simp only [hp, Bool.not_false, if_true, post_pure]
        exact ⟨s.maintenanceNonces, rfl⟩

/-- Seen without the activity table and the nonce cache, a message leaves
what its body leaves, where it is acted on, and nothing new elsewhere. -/
theorem view_signedMessage {α : Type} (view : TransportState → α)
    (hview : ∀ cache, view ((s.note env sender).setNonces cache) = view s)
    (body : Handler Unit) :
    view ((signedMessage env sender verified identity nonce body).post s)
      = if verified && authentic env sender identity nonce s then
          view (body.post (heard env sender nonce s))
        else view s := by
  cases hauth : verified && authentic env sender identity nonce s with
  | true => rw [post_signedMessage hauth, if_pos rfl]
  | false =>
      obtain ⟨cache, hpost⟩ := post_signedMessage_ignored body hauth
      rw [hpost, hview, if_neg Bool.false_ne_true]

-- ======== completion

theorem completeSwap_of_get {st : SwapState} {pid : ProposalId}
    {swap : PendingSwap} (h : st.pendingSwaps.get pid = some swap) :
    (st.completeSwap pid).1 = some swap
      ∧ (st.completeSwap pid).2.pendingSwaps = st.pendingSwaps.erase pid
      ∧ (st.completeSwap pid).2.abortedSwaps = st.abortedSwaps
      ∧ (st.completeSwap pid).2.completedSwaps
        = pushCapped st.completedSwaps pid := by
  unfold SwapState.completeSwap
  simp only [h, and_self]

/-- The completion section does nothing, or removes a ready entry. -/
theorem completeReady_cases (pid : ProposalId) (s : TransportState) :
    completeReady pid s = (none, s)
      ∨ ∃ swap, s.swapState.pendingSwaps.get pid = some swap
          ∧ swap.ready = true
          ∧ completeReady pid s
            = (some swap, s.updSwaps fun st => (st.completeSwap pid).2) := by
  unfold completeReady SwapState.getPendingSwap
  cases hg : s.swapState.pendingSwaps.get pid with
  | none => exact .inl rfl
  | some swap =>
      cases hready : swap.ready with
      | false =>
          left
          simp only [Option.any_some, hready, Bool.false_eq_true, if_false]
      | true =>
          right
          refine ⟨swap, rfl, hready, ?_⟩
          simp only [Option.any_some, hready, if_true,
            (completeSwap_of_get hg).1]

end StaticNet
