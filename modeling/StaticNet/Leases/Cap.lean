/-
How far ahead a lease may end
(`static-storage/src/heartbeat.rs`, `static-mesh/src/transport.rs`).

Four kinds of messages carry an expiry that ends up in a lease. The upsert
caps the one it writes; `process_heartbeat` writes the heartbeat's own,
and a swap's lease ends when the proposal or the last accept said, however
far that was ahead. `leaseManager_step` names the lease that each step
writes, and with it the cap is a matter of the step's input and of the
pending swap that it completes (`lease_cap_iff`).
-/
import StaticNet.Leases.Atomic
import StaticNet.Lib.Exact
import StaticNet.Node.Proofs.Durable
import StaticNet.Swap.Proofs.ThirdParty

namespace StaticNet

open Proc TransportState LeaseManager

-- ============= steps

/-- An inbound message: a heartbeat through one of the two entry points,
or a call of a swap handler. -/
inductive LeaseInput
  | beat (call : BeatCall)
  | swap (e : SwapEvent)

/-- The clock of a call. -/
def SwapEvent.time : SwapEvent → Nat
  | propose env _ _ | proposal env _ | accept env _ | commit env _
  | abort env _ | retrieval env _ _ | expire env => env.now

/-- The pending swap that a step completes with a chunk that is not held
yet: by the peer's commit, or by the chunk itself. -/
def SwapEvent.stores (P : Prims) (s : TransportState) :
    SwapEvent → Option PendingSwap
  | commit env c => finalizes P s (.commit env c)
  | retrieval env chunkId data =>
      if data.length = ENCRYPTED_CHUNK_SIZE then
        (findAwaiting env chunkId s).bind fun found =>
          if passesGate P found.contentRoot found.merkleProof data then
            (s.swapState.getPendingSwap found.proposalId).filter fun swap =>
              swap.receivedCommit
                && !s.chunkHolder.hasChunk swap.theirChunkId
          else none
      else none
  | _ => none

namespace LeaseInput

def time : LeaseInput → Nat
  | beat call => call.time
  | swap e => e.time

def step (P : Prims) (s : TransportState) : LeaseInput → TransportState
  | beat call => { s with leaseManager := (call.result P s.leaseManager).2 }
  | swap e => e.step P s

/-- Does the step write this chunk's lease? -/
def writes (P : Prims) (s : TransportState) (e : LeaseInput)
    (c : ChunkId) : Prop :=
  match e with
  | beat call => call.Admitted P s.leaseManager
      ∧ s.leaseManager.writes call.beat (call.looksAt s.leaseManager) c
        = true
  | swap e => ∃ swap, e.stores P s = some swap ∧ swap.theirChunkId = c

/-- Every lease after the step is one the step has left alone, or ends
within one lease duration of the step's clock. -/
def Capped (P : Prims) (s : TransportState) (e : LeaseInput) : Prop :=
  ∀ c lease, (e.step P s).leaseManager.leases.get c = some lease →
    (¬e.writes P s c ∧ s.leaseManager.leases.get c = some lease)
      ∨ lease.expiresAt ≤ e.time + DEFAULT_LEASE_DURATION_SECS

/-- A heartbeat to `process_heartbeat` that renews a lease carries an
expiry within the cap, and so does the pending swap that is completed. -/
def Within (P : Prims) (s : TransportState) : LeaseInput → Prop
  | beat (.heartbeat hb t) =>
      (∃ c, (beat (.heartbeat hb t)).writes P s c) →
        hb.newExpiresAt ≤ t + DEFAULT_LEASE_DURATION_SECS
  | beat (.upsert _ _ _) => True
  | swap e => ∀ swap, e.stores P s = some swap →
      swap.leaseExpiresAt ≤ e.time + DEFAULT_LEASE_DURATION_SECS

end LeaseInput

-- ======== finalizing

/-- The leases after a swap's chunk is put, if one is. -/
def leasing (mgr : LeaseManager) : Option PendingSwap → LeaseManager
  | some swap => mgr.addLease swap.theirChunkId (swapLease swap)
  | none => mgr

variable {P : Prims} {s : TransportState} {env : Env} {pid : ProposalId}

/-- Flags and data are not part of the lease. -/
theorem leasing_map_filter (mgr : LeaseManager) (o : Option PendingSwap)
    {f : PendingSwap → PendingSwap} {p q : PendingSwap → Bool}
    (hf : ∀ swap, swapLease (f swap) = swapLease swap)
    (hp : ∀ swap, p (f swap) = q swap) :
    leasing mgr ((o.map f).filter p) = leasing mgr (o.filter q) := by
  cases o with
  | none => rfl
  | some swap =>
      have hchunk : (f swap).theirChunkId = swap.theirChunkId :=
        congrArg ChunkLease.chunkId (hf swap)
      rw [Option.map_some]
      unfold Option.filter
      simp only [hp]
      cases q swap with
      | false => rfl
      | true =>
          show mgr.addLease (f swap).theirChunkId (swapLease (f swap)) = _
          rw [hf, hchunk]
          rfl

theorem leaseManager_finalize (pid : ProposalId) (s : TransportState) :
    ((finalizeSwapIfReady pid).post s).leaseManager
      = leasing s.leaseManager
          ((s.swapState.getPendingSwap pid).filter fun swap =>
            swap.ready && !s.chunkHolder.hasChunk swap.theirChunkId) := by
  cases hready : (s.swapState.getPendingSwap pid).any
      PendingSwap.ready with
  | false =>
      rw [(run_finalize_waiting hready).1]
      cases hget : s.swapState.getPendingSwap pid with
      | none => rfl
      | some swap =>
          rw [hget] at hready
          have hswap : swap.ready = false := hready
          simp [Option.filter, hswap, leasing]
  | true =>
      obtain ⟨swap, hget, hready⟩ := (Option.any_eq_true _ _).1 hready
      rw [hget]
      cases hheld : s.chunkHolder.hasChunk swap.theirChunkId with
      | true =>
          rw [post_finalize_held hget hready hheld]
          simp [Option.filter, hready, hheld, leasing]
      | false =>
          rw [(run_finalize_ready hget hready hheld).1]
          simp [Option.filter, hready, hheld, leasing, finalized]

theorem leaseManager_commitPending (c : SwapCommit) :
    ((commitPending c).post s).leaseManager
      = leasing s.leaseManager (lacking c s) := by
  cases hwith : pendingWith c.proposalId c.fromNode s with
  | false => rw [post_commitPending_ignored hwith, lacking_none hwith]; rfl
  | true =>
      rw [(run_commitPending c hwith).1, leaseManager_finalize]
      simp only [updSwaps_chunkHolder]
      rw [ready_marked hwith]
      cases lacking c s with
      | none => rfl
      | some swap => rfl

/-- A commit leaves a lease when its sender's swap lacked only that. -/
theorem leaseManager_commit (c : SwapCommit) :
    ((handleMaintenanceCommit P env c).post s).leaseManager
      = leasing s.leaseManager ((SwapEvent.commit env c).stores P s) := by
  show _ = leasing s.leaseManager (if c.verifySignature P
    && authentic env c.fromNode c.identityPublicKey c.nonce s then
      lacking c s else none)
  unfold handleMaintenanceCommit
  rw [view_signedMessage leaseManager (fun _ => rfl) (commitPending c)]
  split
  · exact leaseManager_commitPending c
  · rfl

-- ========= retrieval

theorem leaseManager_commitRetrieved (pid : ProposalId) (peer : NodeId)
    (s : TransportState) :
    ((commitRetrieved P env pid peer).post s).leaseManager
      = leasing s.leaseManager
          ((s.swapState.getPendingSwap pid).filter fun swap =>
            swap.receivedCommit && swap.receivedTheirChunk
              && !s.chunkHolder.hasChunk swap.theirChunkId) := by
  rw [post_commitRetrieved, leaseManager_finalize, claimCommit_pending,
    view_claimCommit leaseManager fun _ => rfl,
    view_claimCommit chunkHolder fun _ => rfl]
  refine leasing_map_filter s.leaseManager _ (fun _ => rfl) fun swap => ?_
  simp [PendingSwap.ready]

/-- A buffered chunk leaves a lease when the swap lacked only that. -/
theorem leaseManager_bufferRetrieved (pid : ProposalId) (peer : NodeId)
    (chunkId : ChunkId) (data : List UInt8) :
    ((bufferRetrieved P env pid peer chunkId data).post s).leaseManager
      = leasing s.leaseManager
          ((s.swapState.getPendingSwap pid).filter fun swap =>
            swap.receivedCommit
              && !s.chunkHolder.hasChunk swap.theirChunkId) := by
  have hpost : (bufferRetrieved P env pid peer chunkId data).post s
      = (if !(s.swapState.getPendingSwap pid).isSome then pure false
        else commitRetrieved P env pid peer).post
          (s.updSwaps fun st => (st.receiveTheirChunk pid data).2) := rfl
  have hget : (s.updSwaps fun st =>
      (st.receiveTheirChunk pid data).2).swapState.getPendingSwap pid
      = (s.swapState.getPendingSwap pid).map fun swap =>
        { swap with theirChunkData := data, receivedTheirChunk := true } :=
    FMap.get_modify_self _ _ _
  rw [hpost]
  cases hpending : s.swapState.getPendingSwap pid with
  | none => rfl
  | some swap =>
      rw [Option.isSome_some, Bool.not_true, if_neg Bool.false_ne_true,
        leaseManager_commitRetrieved, hget, hpending]
      refine leasing_map_filter s.leaseManager _ (fun _ => rfl)
        fun swap => ?_
      simp

theorem leaseManager_retrieval (chunkId : ChunkId) (data : List UInt8) :
    ((handleSwapChunkRetrieval P env chunkId data).post s).leaseManager
      = leasing s.leaseManager
          ((SwapEvent.retrieval env chunkId data).stores P s) := by
  show _ = leasing s.leaseManager (if data.length = ENCRYPTED_CHUNK_SIZE
    then (findAwaiting env chunkId s).bind fun found =>
      if passesGate P found.contentRoot found.merkleProof data then
        (s.swapState.getPendingSwap found.proposalId).filter fun swap =>
          swap.receivedCommit
            && !s.chunkHolder.hasChunk swap.theirChunkId
      else none
    else none)
  unfold handleSwapChunkRetrieval
  by_cases hsize : data.length = ENCRYPTED_CHUNK_SIZE
  swap
  · rw [if_pos hsize, if_neg hsize]
    rfl
  rw [if_neg (not_not.2 hsize), if_pos hsize, post_bind, out_read,
    post_read]
  cases hfind : findAwaiting env chunkId s with
  | none => rfl
  | some found =>
      rw [Option.bind_some]
      cases hgate : passesGate P found.contentRoot found.merkleProof
          data with
      | false =>
          have hkeeps : Sections Leaves (abortAndRelease found.proposalId >>=
              fun _ => sendAbort P env 0 found.peer found.proposalId
                "retrieved chunk failed integrity verification") :=
            leaves_abortAndRelease.bind fun _ => leaves_sendAbort _ _ _
          have hsame := hkeeps.post_eq (fun s => s.leaseManager)
            (fun _ _ _ h => h.leases) s
          simp only [hgate, Bool.not_false, if_true, Bool.false_eq_true,
            if_false, post_bind, post_pure]
          rw [post_bind] at hsame
          exact hsame
      | true =>
          simp only [hgate, Bool.not_true, Bool.false_eq_true, if_false,
            if_true]
          exact leaseManager_bufferRetrieved _ _ _ _

-- ============ a step

/-- The frame of a signed message keeps the leases if its body does. -/
theorem leaseManager_signed {sender : NodeId} {verified : Bool}
    {identity nonce : Bytes 32} {body : Handler Unit}
    (hbody : Sections Leaves body) :
    ((signedMessage env sender verified identity nonce body).post
      s).leaseManager = s.leaseManager := by
  rw [view_signedMessage leaseManager (fun _ => rfl) body]
  split
  · exact hbody.post_eq (fun s => s.leaseManager)
      (fun _ _ _ h => h.leases) _
  · rfl

/-- What a swap step does to the leases. -/
theorem leaseManager_step (P : Prims) (s : TransportState)
    (e : SwapEvent) :
    (e.step P s).leaseManager = leasing s.leaseManager (e.stores P s) := by
  cases e with
  | propose env peer p => rfl
  | proposal env p =>
      exact (leaves_proposal p).post_eq (fun s => s.leaseManager)
        (fun _ _ _ h => h.leases) s
  | accept env a => exact leaseManager_signed (leaves_adoptAccept a _)
  | commit env c => exact leaseManager_commit c
  | abort env a => exact leaseManager_signed (leaves_abortPending a)
  | retrieval env chunkId data =>
      show ((handleSwapChunkRetrieval P env chunkId data >>=
        fun _ => pure ()).post s).leaseManager = _
      rw [post_bind, post_pure]
      exact leaseManager_retrieval chunkId data
  | expire env =>
      show ((expirePendingSwaps P env >>= fun _ => pure ()).post
        s).leaseManager = _
      rw [post_bind, post_pure]
      exact leaves_expire.post_eq (fun s => s.leaseManager)
        (fun _ _ _ h => h.leases) s

instance (P : Prims) (mgr : LeaseManager) (call : BeatCall) :
    Decidable (call.Admitted P mgr) :=
  inferInstanceAs (Decidable (_ = true ∧ _ = none))

/-- What a heartbeat does to the leases. -/
theorem result_get (P : Prims) (mgr : LeaseManager) (call : BeatCall)
    (c : ChunkId) :
    (call.result P mgr).2.leases.get c
      = if call.Admitted P mgr
            ∧ mgr.writes call.beat (call.looksAt mgr) c = true then
          some (stamp call.beat call.expiry c (mgr.leases.get c))
        else mgr.leases.get c := by
  by_cases hadmitted : call.Admitted P mgr
  · rw [result_admitted hadmitted, upsertLoop_get]
    simp only [hadmitted, true_and, mem_writes]
    rfl
  · obtain ⟨e, he⟩ := result_not_admitted hadmitted
    rw [he, if_neg fun h => hadmitted h.1]

namespace LeaseInput

/-- A lease the step writes ends when the heartbeat, or the completed
swap, says; any other is as before. -/
theorem step_get (P : Prims) (s : TransportState) (e : LeaseInput)
    (c : ChunkId) :
    (¬e.writes P s c ∧ (e.step P s).leaseManager.leases.get c
        = s.leaseManager.leases.get c)
      ∨ e.writes P s c ∧ ∃ lease,
        (e.step P s).leaseManager.leases.get c = some lease
          ∧ ((∃ call, e = beat call ∧ lease.expiresAt = call.expiry)
            ∨ ∃ e' swap, e = LeaseInput.swap e'
              ∧ e'.stores P s = some swap
              ∧ lease.expiresAt = swap.leaseExpiresAt) := by
  cases e with
  | beat call =>
      have hget := result_get P s.leaseManager call c
      by_cases hwrites : call.Admitted P s.leaseManager
          ∧ s.leaseManager.writes call.beat (call.looksAt s.leaseManager) c
            = true
      · rw [if_pos hwrites] at hget
        exact Or.inr ⟨hwrites, _, hget, Or.inl ⟨call, rfl, rfl⟩⟩
      · rw [if_neg hwrites] at hget
        exact Or.inl ⟨hwrites, hget⟩
  | swap e =>
      have hstep := leaseManager_step P s e
      cases hstores : e.stores P s with
      | none =>
          rw [hstores] at hstep
          refine Or.inl ⟨?_, congrArg (fun mgr => mgr.leases.get c) hstep⟩
          rintro ⟨swap, hswap, -⟩
          rw [hstores] at hswap
          cases hswap
      | some swap =>
          rw [hstores] at hstep
          have hget : ((LeaseInput.swap e).step P
              s).leaseManager.leases.get c = (s.leaseManager.leases.insert
                swap.theirChunkId (swapLease swap)).get c :=
            congrArg (fun mgr => mgr.leases.get c) hstep
          by_cases hc : c = swap.theirChunkId
          · subst hc
            rw [FMap.get_insert_self] at hget
            exact Or.inr ⟨⟨swap, hstores, rfl⟩, _, hget,
              Or.inr ⟨e, swap, rfl, hstores, rfl⟩⟩
          · rw [FMap.get_insert_ne _ _ hc] at hget
            refine Or.inl ⟨?_, hget⟩
            rintro ⟨swap', hswap', hchunk⟩
            rw [hstores] at hswap'
            cases hswap'
            exact hc hchunk.symm

/-- A step keeps the cap exactly when what it writes is within it. -/
theorem capped_iff (P : Prims) (s : TransportState) (e : LeaseInput) :
    e.Capped P s ↔ e.Within P s := by
  constructor
  · -- what the step writes is in the table after it
    intro hcap
    have hwritten : ∀ c, e.writes P s c → ∃ lease : ChunkLease,
        lease.expiresAt ≤ e.time + DEFAULT_LEASE_DURATION_SECS
          ∧ ((∃ call, e = beat call ∧ lease.expiresAt = call.expiry)
            ∨ ∃ e' swap, e = LeaseInput.swap e'
              ∧ e'.stores P s = some swap
              ∧ lease.expiresAt = swap.leaseExpiresAt) := by
      intro c hwrites
      rcases step_get P s e c with ⟨hnot, -⟩ | ⟨-, lease, hget, hfrom⟩
      · exact absurd hwrites hnot
      rcases hcap c lease hget with ⟨hnot, -⟩ | hle
      · exact absurd hwrites hnot
      exact ⟨lease, hle, hfrom⟩
    cases e with
    | beat call =>
        cases call with
        | upsert hb t held => trivial
        | heartbeat hb t =>
            rintro ⟨c, hwrites⟩
            obtain ⟨lease, hle, ⟨call, hcall, hexp⟩ | ⟨e', -, h, -⟩⟩ :=
              hwritten c hwrites
            · cases hcall
              rw [hexp] at hle
              exact hle
            · cases h
    | swap e =>
        intro swap hstores
        obtain ⟨lease, hle, ⟨call, hcall, -⟩ | ⟨e', swap', he, hs, hexp⟩⟩ :=
          hwritten swap.theirChunkId ⟨swap, hstores, rfl⟩
        · cases hcall
        · cases he
          rw [hstores] at hs
          cases hs
          rw [hexp] at hle
          exact hle
  · intro hwithin c lease hget
    rcases step_get P s e c with ⟨hnot, hsame⟩ | ⟨hwrites, lease', hget',
      ⟨call, rfl, hexp⟩ | ⟨e', swap, rfl, hstores, hexp⟩⟩
    · rw [hsame] at hget
      exact Or.inl ⟨hnot, hget⟩
    · rw [hget'] at hget
      cases hget
      right
      rw [hexp]
      cases call with
      | heartbeat hb t => exact hwithin ⟨c, hwrites⟩
      | upsert hb t held =>
          show cappedExpiry hb t ≤ t + DEFAULT_LEASE_DURATION_SECS
          unfold cappedExpiry satAdd
          exact (Nat.min_le_right _ _).trans (Nat.min_le_left _ _)
    · rw [hget'] at hget
      cases hget
      right
      rw [hexp]
      exact hwithin swap hstores

end LeaseInput

/-- In a run over inbound messages no lease is written beyond the cap
exactly when each `process_heartbeat` that renews something carries an
expiry within it, and so does each pending swap that is completed with a
new chunk. -/
theorem lease_cap_iff (P : Prims) (s : TransportState)
    (es : List LeaseInput) :
    Exact.Along (LeaseInput.step P) (fun s e => e.Capped P s) s es
      ↔ Exact.Along (LeaseInput.step P) (fun s e => e.Within P s) s es :=
  ⟨fun h => h.imp fun s e => (e.capped_iff P s).1,
    fun h => h.imp fun s e => (e.capped_iff P s).2⟩

-- ======== concretely

/-- A signed offer whose lease runs for some thirty years. -/
def pinOffer : SwapProposal :=
  createSwapProposal Prims.plain (Bytes.fill 16 1) (Bytes.fill 32 3)
    (Bytes.fill 32 5) 1000000000 100 zeroRoot emptyProof (Bytes.fill 32 4)
    (some (Bytes.fill 32 4)) (Bytes.fill 32 3)

def pinCommit : SwapCommit :=
  (createSwapCommit (proposalId Prims.plain pinOffer) (Bytes.fill 16 1)
    (Bytes.fill 32 3)).sign Prims.plain (Bytes.fill 32 1) (Bytes.fill 32 3)

/-- The offer, its chunk and the commit. -/
def pinRun (data : List UInt8) : List LeaseInput :=
  [.swap (.proposal (quietEnv 41 200) pinOffer),
    .swap (.retrieval (quietEnv 42 200) (Bytes.fill 32 3) data),
    .swap (.commit (quietEnv 44 200) pinCommit)]

/-- The node when the commit arrives. -/
theorem pinRun_retrieved {data : List UInt8}
    (hsize : data.length = ENCRYPTED_CHUNK_SIZE) :
    SwapEvent.step Prims.plain
        (SwapEvent.step Prims.plain cachingNode.transport
          (.proposal (quietEnv 41 200) pinOffer))
        (.retrieval (quietEnv 42 200) (Bytes.fill 32 3) data)
      = buffered (proposalId Prims.plain pinOffer) data
          (prepared Prims.plain (quietEnv 41 200) pinOffer (Bytes.fill 32 9)
            ENCRYPTED_CHUNK_SIZE
            (reconciled (quietEnv 41 200) pinOffer
              cachingNode.transport)) := by
  have hfull : ¬ data.length ≠ ENCRYPTED_CHUNK_SIZE := not_not.2 hsize
  show (handleSwapChunkRetrieval Prims.plain (quietEnv 42 200)
    (Bytes.fill 32 3) data >>= fun _ => pure ()).post (SwapEvent.step
      Prims.plain cachingNode.transport
        (.proposal (quietEnv 41 200) pinOffer)) = _
  rw [post_bind, post_pure]
  unfold handleSwapChunkRetrieval
  rw [if_neg hfull]
  rfl

/-- The commit stores the chunk under that lease. -/
theorem lease_not_capped :
    ¬Exact.Along (LeaseInput.step Prims.plain)
      (fun s e => e.Capped Prims.plain s) cachingNode.transport
      (pinRun (List.replicate ENCRYPTED_CHUNK_SIZE 0)) := by
  have hsize : (List.replicate ENCRYPTED_CHUNK_SIZE (0 : UInt8)).length
      = ENCRYPTED_CHUNK_SIZE := List.length_replicate
  generalize List.replicate ENCRYPTED_CHUNK_SIZE (0 : UInt8) = data
    at hsize
  rintro ⟨-, -, hcommit, -⟩
  have hwithin : LeaseInput.Within Prims.plain (SwapEvent.step Prims.plain
      (SwapEvent.step Prims.plain cachingNode.transport
        (.proposal (quietEnv 41 200) pinOffer))
      (.retrieval (quietEnv 42 200) (Bytes.fill 32 3) data))
      (.swap (.commit (quietEnv 44 200) pinCommit)) :=
    (LeaseInput.capped_iff _ _ _).1 hcommit
  rw [pinRun_retrieved hsize] at hwithin
  have hlong : 1000000100 ≤ 200 + DEFAULT_LEASE_DURATION_SECS :=
    hwithin _ rfl
  exact absurd hlong (by decide)

end StaticNet
