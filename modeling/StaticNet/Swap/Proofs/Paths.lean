/-
The successful path of each handler, run alone: the state it leaves and
the labels it executes.

Each lemma assumes the guards of one path (the message is authentic, the
swap is pending, there is room, the chunk passes) and gives the outcome
in closed form, so that a run on fixed messages is evaluated handler by
handler and never by unfolding a handler again.
-/
import StaticNet.Swap.Run

namespace StaticNet

open Proc TransportState

variable {P : Prims} {env : Env} {s : TransportState}
  {pid : ProposalId} {swap : PendingSwap}

-- ========== outcomes

/-- The state after a successful prepare phase. -/
def prepared (P : Prims) (env : Env) (p : SwapProposal) (retId : ChunkId)
    (size : Nat) (s : TransportState) : TransportState :=
  (s.updCapacity fun cap => cap.reserve size).updSwaps fun st =>
    (st.removeProposal (proposalId P p)).startPendingSwap
      (accepterEntry P p retId size env.now)

/-- The state after an accept is adopted. -/
def adopted (a : SwapAccept) (size : Nat) (s : TransportState) :
    TransportState :=
  (s.updCapacity fun cap => cap.reserve size).updSwaps fun st =>
    st.modifyPending a.proposalId (adoptTerms a size)

/-- The state after a chunk is buffered and our commit claimed. -/
def buffered (pid : ProposalId) (data : List UInt8) (s : TransportState) :
    TransportState :=
  s.updSwaps fun st =>
    (st.receiveTheirChunk pid data).2.markCommitSent pid

/-- The state after a swap is completed, stored and accounted for, its
chunk being new. -/
def finalized (pid : ProposalId) (swap : PendingSwap)
    (s : TransportState) : TransportState :=
  { s.updSwaps (fun st => (st.completeSwap pid).2) with
    chunkHolder := s.chunkHolder.addChunk swap.theirChunkId
      swap.theirChunkData (Bytes.zero 32)
    storageCapacity :=
      s.storageCapacity.releaseReserved swap.reservedBytes true
    peerChunkCounts := s.peerChunkCounts.insert swap.peer
      ((s.peerChunkCounts.get swap.peer).getD 0 + 1)
    leaseManager := s.leaseManager.addLease swap.theirChunkId
      (swapLease swap) }

/-- The accept a node answers a proposal with. -/
def answer (P : Prims) (env : Env) (p : SwapProposal) (retId : ChunkId)
    (s : TransportState) : SwapAccept :=
  (createSwapAccept P s.nodeId retId s.storageKey (proposalId P p) 86400
    env.leaseAt (env.nonce 0)).sign P s.identityKey (env.resampled 0)

/-- The commit a node sends once it holds the chunk. -/
def ownCommit (P : Prims) (env : Env) (pid : ProposalId)
    (s : TransportState) : SwapCommit :=
  (createSwapCommit pid s.nodeId (env.nonce 0)).sign P s.identityKey
    (env.resampled 0)

-- ========= proposals

/-- The state in which the proposal handler decides: the sender is
noted and the counter reconciled. -/
def reconciled (env : Env) (p : SwapProposal) (s : TransportState) :
    TransportState :=
  (s.note env p.fromNode).updCapacity fun cap =>
    cap.reconcile s.chunkHolder.totalBytes

theorem reconciled_storageCapacity (env : Env) (p : SwapProposal) :
    (reconciled env p s).storageCapacity
      = s.storageCapacity.reconcile s.chunkHolder.totalBytes := rfl

theorem reconciled_swapState (env : Env) (p : SwapProposal) :
    (reconciled env p s).swapState = s.swapState := rfl

theorem pickReturn_reconciled (p : SwapProposal) :
    pickReturn env p (reconciled env p s) = pickReturn env p s := rfl

/-- The proposal handler's two outcomes, from the reconciled state. -/
theorem post_proposal (p : SwapProposal) :
    (handleMaintenanceProposal P env p).post s =
      match decideOnSwap P p
          (s.storageCapacity.reconcile s.chunkHolder.totalBytes)
          ((s.peerChunkCounts.get p.fromNode).getD 0)
          ENCRYPTED_CHUNK_SIZE env.now with
      | .ok () =>
          (prepareSwap P env p ENCRYPTED_CHUNK_SIZE
            ((s.peerChunkCounts.get p.fromNode).getD 0)).post
              (reconciled env p s)
      | .error _ =>
          (reconciled env p s).updSwaps fun st =>
            { st.removeProposal (proposalId P p) with
              rejectedSwaps := st.rejectedSwaps + 1 } := by
  unfold handleMaintenanceProposal
  simp only [post_bind, out_read, post_read, notePeerActivity, post_write,
    note_chunkHolder, note_storageCapacity, note_peerChunkCounts,
    updCapacity_storageCapacity, updCapacity_peerChunkCounts]
  generalize decideOnSwap P p
    (s.storageCapacity.reconcile s.chunkHolder.totalBytes)
    ((s.peerChunkCounts.get p.fromNode).getD 0)
    ENCRYPTED_CHUNK_SIZE env.now = verdict
  cases verdict with
  | ok _ => rfl
  | error e => rfl

/-- A positive decision includes the room the reservation asks for. -/
theorem canAccept_of_decide {p : SwapProposal} {cap : StorageCapacity}
    {n size now : Nat} (h : (decideOnSwap P p cap n size now).isOk = true) :
    cap.canAccept size n = true := by
  unfold decideOnSwap at h
  split at h
  next => simp [Except.isOk, Except.toBool] at h
  next =>
    cases hc : cap.canAccept size n with
    | true => rfl
    | false =>
        rw [hc] at h
        simp only [Bool.not_false, if_true] at h
        split at h <;> simp [Except.isOk, Except.toBool] at h

/-- The prepare phase records the swap, reserves and answers. -/
theorem run_prepareSwap (P : Prims) {p : SwapProposal} {size n : Nat}
    {retId : ChunkId} (hpick : pickReturn env p s = some retId)
    (hlen : s.swapState.pendingSwaps.len < MAX_PENDING_SWAPS)
    (hroom : s.storageCapacity.canAccept size n = true) :
    (prepareSwap P env p size n).post s = prepared P env p retId size s
      ∧ (prepareSwap P env p size n).acts s
        = [.holder, .swaps, .capacity, .swaps, .key,
            .send p.fromNode (.accept (answer P env p retId s))] := by
  have hlen' : ¬ MAX_PENDING_SWAPS ≤ s.swapState.pendingSwaps.len :=
    Nat.not_le.2 hlen
  unfold prepareSwap
  constructor
  · rw [post_bind, out_read, post_read, hpick]
    simp only [post_bind, out_read, post_read, hlen', if_false, tryReserve,
      out_atom, post_atom, hroom, if_true]
    rfl
  · rw [acts_bind, out_read, post_read, hpick]
    simp only [acts_bind, out_read, post_read, hlen', if_false, tryReserve,
      out_atom, post_atom, hroom, if_true]
    rfl

/-- A proposal that opens: the state left and the answer sent. -/
theorem run_proposal {p : SwapProposal} (h : opens P env p s = true) :
    ∃ retId, pickReturn env p s = some retId
      ∧ (handleMaintenanceProposal P env p).post s
        = prepared P env p retId ENCRYPTED_CHUNK_SIZE (reconciled env p s)
      ∧ (handleMaintenanceProposal P env p).acts s
        = [.activity, .holder, .capacity, .counts, .capacity, .holder,
            .swaps, .capacity, .swaps, .key,
            .send p.fromNode (.accept (answer P env p retId s))] := by
  unfold opens at h
  rw [Bool.and_eq_true, Bool.and_eq_true, decide_eq_true_eq] at h
  obtain ⟨⟨hdec, hpick⟩, hlen⟩ := h
  obtain ⟨retId, hret⟩ := Option.isSome_iff_exists.1 hpick
  have hroom := canAccept_of_decide hdec
  rw [← reconciled_storageCapacity env p] at hroom
  have hret' := hret
  rw [← pickReturn_reconciled] at hret'
  rw [← reconciled_swapState env p] at hlen
  obtain ⟨hpost, hacts⟩ := run_prepareSwap P hret' hlen hroom
  obtain ⟨u, hd⟩ : ∃ u, decideOnSwap P p
      (s.storageCapacity.reconcile s.chunkHolder.totalBytes)
      ((s.peerChunkCounts.get p.fromNode).getD 0)
      ENCRYPTED_CHUNK_SIZE env.now = .ok u := by
    cases hd : decideOnSwap P p
        (s.storageCapacity.reconcile s.chunkHolder.totalBytes)
        ((s.peerChunkCounts.get p.fromNode).getD 0)
        ENCRYPTED_CHUNK_SIZE env.now with
    | ok u => exact ⟨u, rfl⟩
    | error e =>
        rw [hd] at hdec
        simp [Except.isOk, Except.toBool] at hdec
  refine ⟨retId, hret, ?_, ?_⟩
  · rw [post_proposal, hd]
    exact hpost
  · unfold handleMaintenanceProposal
    simp only [acts_bind, out_read, post_read, notePeerActivity,
      post_write, note_chunkHolder, note_storageCapacity,
      note_peerChunkCounts, updCapacity_storageCapacity,
      updCapacity_peerChunkCounts, hd]
    exact congrArg ([Act.activity, .holder, .capacity, .counts,
      .capacity] ++ ·) hacts

-- ==== signed messages

/-- An authentic message executes its checks, then its body. -/
theorem acts_signedMessage {sender : NodeId} {verified : Bool}
    {identity nonce : Bytes 32} {body : Handler Unit}
    (h : (verified && authentic env sender identity nonce s) = true) :
    (signedMessage env sender verified identity nonce body).acts s
      = [Act.activity, .routing, .nonces]
          ++ body.acts (heard env sender nonce s) := by
  unfold authentic at h
  rw [Bool.and_eq_true, Bool.and_eq_true] at h
  obtain ⟨hv, hp, hn⟩ := h
  unfold signedMessage notePeerActivity
  simp only [acts_bind, post_write, hv, Bool.not_true, Bool.false_eq_true,
    if_false, out_checkMaintenanceSender_note, hp,
    post_checkMaintenanceSender, out_checkMaintenanceNonce_note, hn,
    post_checkMaintenanceNonce_note]
  rfl

/-- A message that is not acted on never reaches its body. -/
theorem acts_signedMessage_ignored {sender : NodeId} {verified : Bool}
    {identity nonce : Bytes 32} (body : Handler Unit)
    (h : (verified && authentic env sender identity nonce s) = false) :
    (signedMessage env sender verified identity nonce body).acts s
      = (signedMessage env sender verified identity nonce
          (pure ())).acts s := by
  unfold signedMessage notePeerActivity
  simp only [acts_bind, post_write]
  cases hv : verified with
  | false => rfl
  | true =>
      simp only [Bool.not_true, Bool.false_eq_true, if_false, acts_bind,
        out_checkMaintenanceSender_note, post_checkMaintenanceSender]
      by_cases hp : pinnedKeyOk sender identity s = true
      · have hn : (TransportState.checkNonceCache env nonce
            s.maintenanceNonces).1 = false := by
          simpa [hv, authentic, hp] using h
        simp only [hp, Bool.not_true, Bool.false_eq_true, if_false,
          acts_bind, out_checkMaintenanceNonce_note, hn, Bool.not_false,
          if_true]
      · simp only [hp, Bool.not_false, if_true]

/-- An accept with room overwrites the terms of its swap. -/
theorem run_adoptAccept (P : Prims) (env : Env) {a : SwapAccept}
    {size : Nat}
    (hpeer : pendingWith a.proposalId a.fromNode s = true)
    (hroom : s.storageCapacity.canAccept size 0 = true) :
    (adoptAccept P env a size).post s = adopted a size s
      ∧ (adoptAccept P env a size).acts s
        = [.swaps, .capacity, .terms a] := by
  unfold adoptAccept tryReserve
  constructor
  · simp only [post_bind, out_read, post_read, hpeer, Bool.not_true,
      Bool.false_eq_true, if_false, out_atom, post_atom, hroom, if_true,
      post_write]
    rfl
  · simp only [acts_bind, out_read, post_read, hpeer, Bool.not_true,
      Bool.false_eq_true, if_false, out_atom, post_atom, hroom, if_true,
      acts_write]
    rfl

/-- An accept without room aborts its swap. -/
theorem post_adoptAccept_full (P : Prims) (env : Env) {a : SwapAccept}
    {size : Nat} (hpeer : pendingWith a.proposalId a.fromNode s = true)
    (hroom : s.storageCapacity.canAccept size 0 = false) :
    (adoptAccept P env a size).post s
      = (abortAndRelease a.proposalId).post s := by
  unfold adoptAccept tryReserve
  simp only [post_bind, out_read, post_read, hpeer, Bool.not_true,
    Bool.false_eq_true, if_false, out_atom, post_atom, hroom,
    Bool.not_false, if_true]
  rfl

/-- An accept for no pending swap of its sender does nothing. -/
theorem post_adoptAccept_foreign (P : Prims) (env : Env) {a : SwapAccept}
    {size : Nat}
    (hpeer : pendingWith a.proposalId a.fromNode s = false) :
    (adoptAccept P env a size).post s = s := by
  unfold adoptAccept
  simp only [post_bind, out_read, post_read, hpeer, Bool.not_false,
    if_true, post_pure]

/-- Aborting a pending swap: its entry moves to the aborted log. -/
theorem abortSwap_of_get {st : SwapState}
    (hget : st.pendingSwaps.get pid = some swap) :
    (st.abortSwap pid).1 = some swap
      ∧ (st.abortSwap pid).2.pendingSwaps = st.pendingSwaps.erase pid
      ∧ (st.abortSwap pid).2.abortedSwaps = pushCapped st.abortedSwaps pid
      ∧ (st.abortSwap pid).2.completedSwaps = st.completedSwaps := by
  unfold SwapState.abortSwap
  simp only [hget, and_self]

theorem post_abortAndRelease
    (hget : s.swapState.pendingSwaps.get pid = some swap) :
    (abortAndRelease pid).post s
      = (s.updSwaps fun st => (st.abortSwap pid).2).updCapacity fun cap =>
          cap.releaseReserved swap.reservedBytes false := by
  unfold abortAndRelease
  rw [post_bind, out_atom, post_atom, (abortSwap_of_get hget).1]
  rfl

theorem post_abortAndRelease_absent
    (hget : s.swapState.pendingSwaps.get pid = none) :
    (abortAndRelease pid).post s = s := by
  unfold abortAndRelease
  rw [post_bind, out_atom, post_atom]
  unfold SwapState.abortSwap
  rw [hget]
  rfl

-- ======== finalizing

/-- Without the three flags nothing happens. -/
theorem run_finalize_waiting
    (h : (s.swapState.getPendingSwap pid).any PendingSwap.ready = false) :
    (finalizeSwapIfReady pid).post s = s
      ∧ (finalizeSwapIfReady pid).acts s = [.swaps] := by
  have hc : completeReady pid s = (none, s) := by
    unfold completeReady
    rw [h]
    rfl
  unfold finalizeSwapIfReady completeIfReady
  constructor
  · rw [post_bind, out_atom, post_atom, hc]
    rfl
  · rw [acts_bind, out_atom, post_atom, hc]
    rfl

theorem completeReady_ready
    (hget : s.swapState.pendingSwaps.get pid = some swap)
    (hready : swap.ready = true) :
    completeReady pid s
      = (some swap, s.updSwaps fun st => (st.completeSwap pid).2) := by
  rcases completeReady_cases pid s with hc | ⟨swap', hg, -, hc⟩
  · exfalso
    unfold completeReady SwapState.getPendingSwap at hc
    rw [hget] at hc
    simp [hready, (completeSwap_of_get hget).1] at hc
  · rw [hget] at hg
    injection hg with hg
    rw [hc, hg]

/-- With them the swap is completed and its chunk put. -/
theorem run_finalize_ready
    (hget : s.swapState.pendingSwaps.get pid = some swap)
    (hready : swap.ready = true)
    (hnew : s.chunkHolder.hasChunk swap.theirChunkId = false) :
    (finalizeSwapIfReady pid).post s = finalized pid swap s
      ∧ (finalizeSwapIfReady pid).acts s
        = [.swaps, .put swap, .capacity, .counts, .leases] := by
  have hc := completeReady_ready hget hready
  have hnew' : (s.updSwaps fun st =>
      (st.completeSwap pid).2).chunkHolder.hasChunk swap.theirChunkId
        = false := hnew
  unfold finalizeSwapIfReady completeIfReady
  constructor
  · rw [post_bind, out_atom, post_atom, hc]
    simp only [post_bind, storeChunk, out_atom, post_atom, hnew']
    rfl
  · rw [acts_bind, out_atom, post_atom, hc]
    simp only [acts_bind, storeChunk, out_atom, post_atom, hnew']
    rfl

/-- A ready swap whose chunk is held already is completed, and its
reservation given back; nothing is put, counted or leased. -/
theorem post_finalize_held
    (hget : s.swapState.pendingSwaps.get pid = some swap)
    (hready : swap.ready = true)
    (hheld : s.chunkHolder.hasChunk swap.theirChunkId = true) :
    (finalizeSwapIfReady pid).post s
      = (s.updSwaps fun st => (st.completeSwap pid).2).updCapacity
          fun cap => cap.releaseReserved swap.reservedBytes false := by
  have hheld' : (s.updSwaps fun st =>
      (st.completeSwap pid).2).chunkHolder.hasChunk swap.theirChunkId
        = true := hheld
  unfold finalizeSwapIfReady completeIfReady
  rw [post_bind, out_atom, post_atom, completeReady_ready hget hready]
  simp only [post_bind, storeChunk, out_atom, post_atom, hheld']
  rfl

/-- A commit for a pending swap marks it and finalizes. -/
theorem run_commitPending (c : SwapCommit)
    (hpeer : pendingWith c.proposalId c.fromNode s = true) :
    (commitPending c).post s
        = (finalizeSwapIfReady c.proposalId).post
            (s.updSwaps fun st => st.markCommitReceived c.proposalId)
      ∧ (commitPending c).acts s
        = [.swaps, .swaps] ++ (finalizeSwapIfReady c.proposalId).acts
            (s.updSwaps fun st => st.markCommitReceived c.proposalId) := by
  unfold commitPending
  constructor
  · simp only [post_bind, out_read, post_read, hpeer, Bool.not_true,
      Bool.false_eq_true, if_false, post_write, post_pure]
  · simp only [acts_bind, out_read, post_read, hpeer, Bool.not_true,
      Bool.false_eq_true, if_false, post_write, acts_write, acts_pure,
      List.append_nil]
    rfl

-- ========= retrieval

/-- Claiming the commit of a swap that has not sent one. -/
theorem run_claimCommit
    (hget : s.swapState.pendingSwaps.get pid = some swap)
    (hsent : swap.sentCommit = false) :
    (claimCommit pid).out s = true
      ∧ (claimCommit pid).post s
        = s.updSwaps fun st => st.markCommitSent pid := by
  unfold claimCommit SwapState.getPendingSwap
  rw [out_atom, post_atom, hget]
  simp only [Option.any_some, hsent, Bool.false_eq_true, if_false]
  exact ⟨trivial, trivial⟩

/-- Once our commit is claimed the entry says so, whoever claimed it. -/
theorem claimCommit_pending :
    ((claimCommit pid).post s).swapState.getPendingSwap pid
      = (s.swapState.getPendingSwap pid).map fun swap =>
          { swap with sentCommit := true } := by
  unfold claimCommit
  rw [post_atom]
  dsimp only
  split
  next hsent =>
    cases hget : s.swapState.getPendingSwap pid with
    | none => rfl
    | some swap =>
        rw [hget, Option.any_some] at hsent
        rw [Option.map_some, ← hsent]
  next => exact FMap.get_modify_self _ _ _

/-- Claiming our commit touches the pending table only. -/
theorem view_claimCommit {α : Type} (view : TransportState → α)
    (hview : ∀ f, view (s.updSwaps f) = view s) :
    view ((claimCommit pid).post s) = view s := by
  unfold claimCommit
  rw [post_atom]
  dsimp only
  split
  · rfl
  · exact hview fun st => st.markCommitSent pid

theorem post_sendCommit (dest : NodeId) :
    (sendCommit P env dest pid).post s = s := rfl

/-- A buffered chunk leaves what finalizing leaves once the commit is
claimed, whether this call sent it or another. -/
theorem post_commitRetrieved (peer : NodeId) :
    (commitRetrieved P env pid peer).post s
      = (finalizeSwapIfReady pid).post ((claimCommit pid).post s) := by
  unfold commitRetrieved
  rw [post_bind]
  dsimp only
  split
  · rw [post_bind, post_sendCommit, post_bind, post_pure]
  · rw [post_bind, post_pure]

/-- The entry after its chunk is buffered, and that it is. -/
theorem get_received (data : List UInt8)
    (hget : s.swapState.pendingSwaps.get pid = some swap) :
    (s.updSwaps fun st => (st.receiveTheirChunk
        pid data).2).swapState.pendingSwaps.get pid
      = some { swap with
          theirChunkData := data, receivedTheirChunk := true } := by
  show (s.swapState.pendingSwaps.modify pid _).get pid = _
  rw [FMap.get_modify_self, hget]
  rfl

theorem receives (data : List UInt8)
    (hget : s.swapState.pendingSwaps.get pid = some swap) :
    (s.swapState.receiveTheirChunk pid data).1 = true := by
  unfold SwapState.receiveTheirChunk
  rw [hget]
  rfl

/-- The entry after the peer's commit. -/
theorem get_heardCommit
    (hget : s.swapState.pendingSwaps.get pid = some swap) :
    (s.updSwaps fun st =>
        st.markCommitReceived pid).swapState.pendingSwaps.get pid
      = some { swap with receivedCommit := true } := by
  show (s.swapState.pendingSwaps.modify pid _).get pid = _
  rw [FMap.get_modify_self, hget]
  rfl

/-- With the commit the last of the three flags is set. -/
theorem ready_of_flags (hsent : swap.sentCommit = true)
    (hrec : swap.receivedTheirChunk = true) :
    ({ swap with receivedCommit := true } : PendingSwap).ready = true := by
  unfold PendingSwap.ready
  dsimp only
  rw [hsent, hrec]
  rfl

/-- A full-size chunk that a swap waits for and that passes is buffered,
our commit is sent, and the swap finalized if it is ready. -/
theorem run_retrieval (P : Prims) {chunkId : ChunkId} {data : List UInt8}
    (hsize : data.length = ENCRYPTED_CHUNK_SIZE)
    (hfind : findAwaiting env chunkId s = some swap)
    (hgate : passesGate P swap.contentRoot swap.merkleProof data = true)
    (hget : s.swapState.pendingSwaps.get swap.proposalId = some swap)
    (hsent : swap.sentCommit = false) :
    (handleSwapChunkRetrieval P env chunkId data).post s
        = (finalizeSwapIfReady swap.proposalId).post
            (buffered swap.proposalId data s)
      ∧ (handleSwapChunkRetrieval P env chunkId data).acts s
        = [Act.deliver chunkId data,
            .buffer swap.proposalId chunkId data, .swaps, .key,
            .send swap.peer (.commit (ownCommit P env swap.proposalId s))]
          ++ (finalizeSwapIfReady swap.proposalId).acts
            (buffered swap.proposalId data s) := by
  have hlen : ¬ data.length ≠ ENCRYPTED_CHUNK_SIZE := not_not.2 hsize
  have hget' := get_received data hget
  have hrec := receives data hget
  obtain ⟨hclaim, hclaimed⟩ := run_claimCommit hget' hsent
  have hclaimed' : (s.updSwaps fun st => (st.receiveTheirChunk
      swap.proposalId data).2).updSwaps
        (fun st => st.markCommitSent swap.proposalId)
      = buffered swap.proposalId data s := rfl
  rw [hclaimed'] at hclaimed
  unfold handleSwapChunkRetrieval
  rw [if_neg hlen]
  constructor
  · rw [post_bind, out_read, post_read, hfind]
    simp only [hgate, Bool.not_true, Bool.false_eq_true, if_false,
      bufferRetrieved, post_bind, out_atom, post_atom, hrec,
      commitRetrieved]
    rw [show ({ s with swapState := (s.swapState.receiveTheirChunk
        swap.proposalId data).2 } : TransportState)
      = s.updSwaps fun st => (st.receiveTheirChunk
        swap.proposalId data).2 from rfl]
    simp only [hclaim, if_true, post_bind, hclaimed, post_pure]
    rfl
  · rw [acts_bind, out_read, post_read, hfind]
    simp only [hgate, Bool.not_true, Bool.false_eq_true, if_false,
      bufferRetrieved, acts_bind, out_atom, post_atom, hrec,
      commitRetrieved]
    rw [show ({ s with swapState := (s.swapState.receiveTheirChunk
        swap.proposalId data).2 } : TransportState)
      = s.updSwaps fun st => (st.receiveTheirChunk
        swap.proposalId data).2 from rfl]
    simp only [hclaim, if_true, acts_bind, hclaimed, acts_pure,
      List.append_nil]
    rfl

-- ========= read sets

/-- Authentication reads the routing table and the nonce cache only. -/
theorem authentic_congr (s s' : TransportState) {sender : NodeId}
    {identity nonce : Bytes 32} (hr : s.routingTable = s'.routingTable)
    (hn : s.maintenanceNonces = s'.maintenanceNonces) :
    authentic env sender identity nonce s
      = authentic env sender identity nonce s' := by
  unfold authentic pinnedKeyOk checkMaintenanceSender
  rw [out_read, out_read, hr, hn]

theorem pendingWith_of_get {sender : NodeId}
    (hget : s.swapState.pendingSwaps.get pid = some swap)
    (hpeer : swap.peer = sender) : pendingWith pid sender s = true := by
  unfold pendingWith SwapState.getPendingSwap
  rw [hget]
  simp [hpeer]

-- ==== whole messages

/-- A chunk that arrives before the peer's commit is buffered. -/
theorem post_retrieval_waiting {chunkId : ChunkId} {data : List UInt8}
    (hsize : data.length = ENCRYPTED_CHUNK_SIZE)
    (hfind : findAwaiting env chunkId s = some swap)
    (hgate : passesGate P swap.contentRoot swap.merkleProof data = true)
    (hget : s.swapState.pendingSwaps.get swap.proposalId = some swap)
    (hsent : swap.sentCommit = false)
    (hcommit : swap.receivedCommit = false) :
    (SwapEvent.program P (.retrieval env chunkId data)).post s
      = buffered swap.proposalId data s := by
  have hwait : ((buffered swap.proposalId data
      s).swapState.getPendingSwap swap.proposalId).any PendingSwap.ready
        = false := by
    show (((s.swapState.pendingSwaps.modify swap.proposalId _).modify
      swap.proposalId _).get swap.proposalId).any _ = false
    rw [FMap.get_modify_self, FMap.get_modify_self, hget]
    simp [PendingSwap.ready, hcommit]
  unfold SwapEvent.program
  rw [post_bind, post_pure,
    (run_retrieval P hsize hfind hgate hget hsent).1]
  exact (run_finalize_waiting hwait).1

/-- The peer's commit to a swap whose chunk is buffered and whose own
commit is sent finalizes it. -/
theorem post_commit_ready {c : SwapCommit}
    (hauth : (c.verifySignature P && authentic env c.fromNode
      c.identityPublicKey c.nonce s) = true)
    (hget : s.swapState.pendingSwaps.get c.proposalId = some swap)
    (hpeer : swap.peer = c.fromNode) (hsent : swap.sentCommit = true)
    (hrec : swap.receivedTheirChunk = true)
    (hnew : s.chunkHolder.hasChunk swap.theirChunkId = false) :
    (SwapEvent.program P (.commit env c)).post s
      = finalized c.proposalId { swap with receivedCommit := true }
          ((heard env c.fromNode c.nonce s).updSwaps fun st =>
            st.markCommitReceived c.proposalId) := by
  have hwith : pendingWith c.proposalId c.fromNode
      (heard env c.fromNode c.nonce s) = true :=
    pendingWith_of_get hget hpeer
  have hget' := get_heardCommit
    (s := heard env c.fromNode c.nonce s) hget
  exact (post_signedMessage hauth).trans
    ((run_commitPending c hwith).1.trans
      (run_finalize_ready hget'
        (ready_of_flags hsent hrec) hnew).1)

end StaticNet
