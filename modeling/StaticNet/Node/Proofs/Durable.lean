/-
How long a committed chunk stays.

# Where it breaks

A chunk enters the holder as a cache entry or as a commitment, and each
path does nothing when the chunk is already there. `finalize_swap_if_ready`
then completes the swap without writing its lease, and leaves the chunk
on the cache's list: the chunk goes with the next eviction, or with the
lease it happened to have.

# The invariant

`Durable`: the chunk is held, is not on the cache's list, and has a lease
with the swap's token that does not expire before the swap's. Once it
holds, no task breaks it, however the tasks interleave: an eviction takes
a listed chunk, a sweep a lapsed one, a later put of the chunk finds it
held and writes no lease. Only a renewal can lower the expiry, if it
carries one that is lower (`Respects` excludes these, and sweeps after
the time up to which the chunk is promised).
-/
import StaticNet.Leases.Kept
import StaticNet.Node.Proofs.Walks
import StaticNet.Swap.Proofs.Overcommit

namespace StaticNet

open Proc TransportState NodeState

-- ===== the invariant

/-- The transport's part of the invariant, for the swap's chunk and the
owned contents `K`. -/
structure Secured (swap : PendingSwap)
    (K : FMap ContentId (List ChunkId)) (s : TransportState) : Prop where
  held : s.chunkHolder.hasChunk swap.theirChunkId = true
  leased : ∃ lease, s.leaseManager.leases.get swap.theirChunkId = some lease
    ∧ swap.leaseExpiresAt ≤ lease.expiresAt
    ∧ lease.renewalToken = swap.renewalToken
  chunks : s.leaseManager.contentChunks = K

/-- The chunk is secured and not on the cache's list. -/
structure Durable (swap : PendingSwap) (K : FMap ContentId (List ChunkId))
    (n : NodeState) : Prop where
  secured : Secured swap K n.transport
  uncached : n.rotationState.cachedChunks.get swap.theirChunkId = none

/-- A handler keeps the chunk secured in any pool. -/
abbrev Secures {α : Type} (swap : PendingSwap)
    (K : FMap ContentId (List ChunkId)) (p : Handler α) : Prop :=
  Keeps (Secured swap K) (fun _ _ => True) (fun _ => True) p

/-- A task keeps the chunk in any pool. -/
abbrev Protects {α : Type} (swap : PendingSwap)
    (K : FMap ContentId (List ChunkId)) (p : Task α) : Prop :=
  Keeps (Durable swap K) (fun _ _ => True) (fun _ => True) p

variable {P : Prims} {env : Env} {pid : ProposalId} {swap : PendingSwap}
  {K : FMap ContentId (List ChunkId)} {s s' : TransportState}
  {n : NodeState}

-- ==== the swap handlers

/-- Is the section the one that stores a finalized swap's chunk? -/
def Act.isPut : Act → Bool
  | .put _ => true
  | _ => false

theorem Act.ne_put {l : Act} (h : l.isPut = false) (swap : PendingSwap) :
    l ≠ .put swap := by
  intro heq
  rw [heq] at h
  exact Bool.noConfusion h

/-- The section touches neither the holder nor the leases, and is no
put. -/
structure Leaves (l : Act) (s s' : TransportState) : Prop where
  noPut : ∀ swap, l ≠ .put swap
  holder : s'.chunkHolder = s.chunkHolder
  leases : s'.leaseManager = s.leaseManager

/-- Such a section breaks nothing, -/
theorem Secured.leaves {l : Act} (h : Leaves l s s')
    (hs : Secured swap K s) : Secured swap K s' := by
  obtain ⟨-, hholder, hleases⟩ := h
  exact ⟨by rw [hholder]; exact hs.held, by rw [hleases]; exact hs.leased,
    by rw [hleases]; exact hs.chunks⟩

/-- nor does a handler of such sections. -/
theorem secures_leaves {α : Type} {p : Handler α}
    (h : Sections Leaves p) : Secures swap K p :=
  .of_sections h fun _ _ _ hG _ => Secured.leaves hG

/-- A read is one, -/
theorem leaves_read {α : Type} (l : Act) (f : TransportState → α)
    (hl : l.isPut = false) :
    Sections Leaves (Proc.read l f) := fun _ => ⟨⟨Act.ne_put hl, rfl, rfl⟩, trivial⟩

/-- so is an update of the swaps, -/
theorem leaves_swaps (l : Act) (f : SwapState → SwapState)
    (hl : l.isPut = false) :
    Sections Leaves (Proc.write l (updSwaps f)) :=
  fun _ => ⟨⟨Act.ne_put hl, rfl, rfl⟩, trivial⟩

/-- and one of the capacity. -/
theorem leaves_capacity (f : StorageCapacity → StorageCapacity) :
    Sections Leaves (Proc.write .capacity (updCapacity f)) :=
  fun _ => ⟨⟨Act.ne_put rfl, rfl, rfl⟩, trivial⟩

theorem leaves_sendMessage (dest : NodeId) (msg : SwapMessage) :
    Sections Leaves (sendMessage dest msg) :=
  fun _ => ⟨⟨Act.ne_put rfl, rfl, rfl⟩, trivial⟩

theorem leaves_sendMaintenanceReject (dest : NodeId)
    (reason : SwapRejectReason) :
    Sections Leaves (sendMaintenanceReject dest pid reason) :=
  (leaves_read _ _ rfl).bind fun _ => leaves_sendMessage _ _

theorem leaves_sendAbort (draw : Nat) (dest : NodeId) (reason : String) :
    Sections Leaves (sendAbort P env draw dest pid reason) :=
  (leaves_read _ _ rfl).bind fun _ => leaves_sendMessage _ _

theorem leaves_sendCommit (dest : NodeId) :
    Sections Leaves (sendCommit P env dest pid) :=
  (leaves_read _ _ rfl).bind fun _ => leaves_sendMessage _ _

/-- A reservation is a read, or writes the capacity. -/
theorem leaves_tryReserve (size peerChunks : Nat) :
    Sections Leaves (tryReserve size peerChunks) := by
  intro s
  refine ⟨?_, trivial⟩
  dsimp only
  split <;> exact ⟨Act.ne_put rfl, rfl, rfl⟩

/-- An abort releases capacity. -/
theorem leaves_abortAndRelease :
    Sections Leaves (abortAndRelease pid) := by
  apply Sections.bind
  · exact fun _ => ⟨⟨Act.ne_put rfl, rfl, rfl⟩, trivial⟩
  intro aborted
  cases aborted with
  | none => trivial
  | some swap => exact leaves_capacity _

/-- A proposal puts nothing. -/
theorem leaves_proposal (p : SwapProposal) :
    Sections Leaves (handleMaintenanceProposal P env p) := by
  refine Sections.bind (fun _ => ⟨⟨Act.ne_put rfl, rfl, rfl⟩, trivial⟩) fun _ => ?_
  refine Sections.bind (leaves_read _ _ rfl) fun actualBytes => ?_
  refine Sections.bind (leaves_capacity _) fun _ => ?_
  refine Sections.bind (leaves_read _ _ rfl) fun peerChunks => ?_
  refine Sections.bind (leaves_read _ _ rfl) fun result => ?_
  cases result with
  | error reason =>
      exact Sections.bind (leaves_swaps _ _ rfl) fun _ =>
        Sections.bind (leaves_swaps _ _ rfl) fun _ =>
          leaves_sendMaintenanceReject _ _
  | ok u =>
      refine Sections.bind (leaves_read _ _ rfl) fun returnEntry => ?_
      cases returnEntry with
      | none => exact leaves_sendMaintenanceReject _ _
      | some retId =>
          refine Sections.bind (leaves_read _ _ rfl) fun pendingLen => ?_
          split
          · exact leaves_sendMaintenanceReject _ _
          refine Sections.bind (leaves_tryReserve _ _) fun reserved => ?_
          split
          · exact leaves_sendMaintenanceReject _ _
          refine Sections.bind (leaves_swaps _ _ rfl) fun _ => ?_
          exact Sections.bind (leaves_read _ _ rfl) fun _ =>
            leaves_sendMessage _ _

/-- Nor does an accept, -/
theorem leaves_adoptAccept (a : SwapAccept) (size : Nat) :
    Sections Leaves (adoptAccept P env a size) := by
  refine Sections.bind (leaves_read _ _ rfl) fun peerOk => ?_
  split
  · trivial
  refine Sections.bind (leaves_tryReserve _ _) fun fits => ?_
  split
  · exact leaves_abortAndRelease.bind fun _ => leaves_sendAbort _ _ _
  · exact leaves_swaps _ _ rfl

/-- or an abort. -/
theorem leaves_abortPending (a : SwapAbort) :
    Sections Leaves (abortPending a) := by
  refine Sections.bind (leaves_read _ _ rfl) fun peerOk => ?_
  split
  · exact leaves_swaps _ _ rfl
  · exact leaves_abortAndRelease

theorem leaves_claimCommit : Sections Leaves (claimCommit pid) := by
  intro s
  refine ⟨?_, trivial⟩
  dsimp only
  split <;> exact ⟨Act.ne_put rfl, rfl, rfl⟩

/-- Nor does expiry. -/
theorem leaves_expire : Sections Leaves (expirePendingSwaps P env) := by
  apply Sections.bind
  · exact fun _ => ⟨⟨Act.ne_put rfl, rfl, rfl⟩, trivial⟩
  intro expired
  refine Sections.bind ?_ fun _ => trivial
  generalize 0 = draw
  induction expired generalizing draw with
  | nil => trivial
  | cons swap rest ih =>
      refine Sections.bind (leaves_capacity _) fun _ => ?_
      exact Sections.bind (leaves_sendAbort _ _ _) fun _ => ih _

/-- The checks before a body put nothing. -/
theorem secures_signedMessage {sender : NodeId} {verified : Bool}
    {identity nonce : Bytes 32} {body : Handler Unit}
    (hbody : Secures swap K body) :
    Secures swap K
      (signedMessage env sender verified identity nonce body) := by
  refine Keeps.then (secures_leaves fun _ => ⟨⟨Act.ne_put rfl, rfl, rfl⟩, trivial⟩) ?_
  intro _
  split
  · trivial
  refine Keeps.then (secures_leaves (leaves_read _ _ rfl)) ?_
  intro pinned
  split
  · trivial
  refine Keeps.then (secures_leaves fun _ => ⟨⟨Act.ne_put rfl, rfl, rfl⟩, trivial⟩) ?_
  intro fresh
  split
  · trivial
  · exact hbody

/-- A put of the secured chunk finds it held; a put of another leaves
it. Only after the latter is a lease written. -/
theorem secures_finalize : Secures swap K (finalizeSwapIfReady pid) := by
  unfold finalizeSwapIfReady
  refine Keeps.then ?_ ?_
  · refine secures_leaves fun s => ⟨?_, trivial⟩
    rcases completeReady_cases pid s with hc | ⟨done, -, -, hc⟩
    · dsimp only
      rw [hc]
      exact ⟨Act.ne_put rfl, rfl, rfl⟩
    · dsimp only
      rw [hc]
      exact ⟨Act.ne_put rfl, rfl, rfl⟩
  intro completed
  cases completed with
  | none => trivial
  | some done =>
      refine Keeps.bind (Q := fun storedNew => storedNew = true →
        done.theirChunkId ≠ swap.theirChunkId) ?_ ?_
      · refine keeps_atom fun s hs => ?_
        split
        next => exact ⟨hs, nofun⟩
        next hnew =>
          have hne : done.theirChunkId ≠ swap.theirChunkId := by
            intro heq
            rw [heq] at hnew
            exact hnew hs.held
          refine ⟨⟨?_, hs.leased, hs.chunks⟩, fun _ => hne⟩
          show (s.chunkHolder.chunks.insert done.theirChunkId
            done.theirChunkData).contains swap.theirChunkId = true
          unfold FMap.contains
          rw [FMap.get_insert_ne _ _ hne.symm]
          exact hs.held
      · intro storedNew hother
        refine Keeps.then (secures_leaves (leaves_capacity _)) ?_
        intro _
        dsimp only
        split
        next hstored =>
          refine Keeps.then (secures_leaves
            fun _ => ⟨⟨Act.ne_put rfl, rfl, rfl⟩, trivial⟩) ?_
          intro _
          refine Keeps.then (keeps_write fun s hs => ?_) fun _ => trivial
          have hne := hother hstored
          refine ⟨hs.held, ?_, hs.chunks⟩
          show ∃ lease, (s.leaseManager.leases.insert done.theirChunkId
            (swapLease done)).get swap.theirChunkId = some lease ∧ _
          rw [FMap.get_insert_ne _ _ hne.symm]
          exact hs.leased
        next => trivial

/-- A commit may finalize its swap. -/
theorem secures_commitPending (c : SwapCommit) :
    Secures swap K (commitPending c) := by
  refine Keeps.then (secures_leaves (leaves_read _ _ rfl)) ?_
  intro peerOk
  split
  · trivial
  refine Keeps.then (secures_leaves (leaves_swaps _ _ rfl)) ?_
  intro _
  exact secures_finalize.then fun _ => trivial

/-- So may a chunk. -/
theorem secures_retrieval (chunkId : ChunkId) (data : List UInt8) :
    Secures swap K (handleSwapChunkRetrieval P env chunkId data) := by
  unfold handleSwapChunkRetrieval
  split
  · trivial
  refine Keeps.then (secures_leaves (leaves_read _ _ rfl)) ?_
  intro found
  cases found with
  | none => trivial
  | some pending =>
      dsimp only
      split
      · refine Keeps.then (secures_leaves leaves_abortAndRelease) ?_
        intro _
        exact Keeps.then (secures_leaves (leaves_sendAbort _ _ _))
          fun _ => trivial
      refine Keeps.then (secures_leaves
        fun _ => ⟨⟨Act.ne_put rfl, rfl, rfl⟩, trivial⟩) ?_
      intro received
      split
      · trivial
      refine Keeps.then (secures_leaves leaves_claimCommit) ?_
      intro needCommit
      dsimp only
      split
      · refine Keeps.then (secures_leaves (leaves_sendCommit _)) ?_
        intro _
        exact secures_finalize.then fun _ => trivial
      · exact secures_finalize.then fun _ => trivial

-- ==== the lease tasks

/-- A later call respects the commitment: a sweep comes before the time
up to which the chunk is promised, and a renewal the holder would take
for this chunk's does not shorten the lease. -/
def Respects (P : Prims) (swap : PendingSwap)
    (K : FMap ContentId (List ChunkId)) : NodeEvent → Prop
  | .lease now (.sweep _) => now ≤ swap.leaseExpiresAt + GRACE_PERIOD_SECS
  | .lease now (.heartbeat hb) => hb.verifySignature P = true →
      swap.theirChunkId ∈ hb.chunkIds →
      hb.renewalToken = swap.renewalToken →
        swap.leaseExpiresAt ≤ LeaseManager.cappedExpiry hb now
  | .lease now (.tick _) =>
      (∃ id ids, K.get id = some ids ∧ swap.theirChunkId ∈ ids) →
        swap.leaseExpiresAt ≤ now + DEFAULT_LEASE_DURATION_SECS
  | _ => True

/-- A renewal that respects the promise. -/
theorem secures_heartbeat {now : Nat} {hb : Heartbeat}
    (h : Respects P swap K (.lease now (.heartbeat hb))) :
    Secures swap K (handleHeartbeat P now hb) := by
  refine Keeps.then (secures_leaves (leaves_read _ _ rfl)) ?_
  intro held
  refine Keeps.then (keeps_atom fun s hs => ⟨?_, trivial⟩) fun _ => trivial
  refine ⟨hs.held, ?_, ?_⟩
  · obtain ⟨lease, hget, hexp, htoken⟩ := hs.leased
    dsimp only
    rcases LeaseManager.processHeartbeatUpsert_leases P s.leaseManager hb
      now held swap.theirChunkId with
      hold | ⟨hsig, -, hwrites, lease', hget', hstamp⟩
    · exact ⟨lease, hold.trans hget, hexp, htoken⟩
    · obtain ⟨hmem, hrecord⟩ := LeaseManager.writes_spec hwrites
      have hsame := (hrecord lease hget).symm.trans htoken
      refine ⟨lease', hget', ?_, hstamp.token.trans hsame⟩
      rw [hstamp.expiry]
      exact h hsig hmem hsame
  · exact (LeaseManager.processHeartbeatUpsert_contentChunks P _ _ _ _).trans
      hs.chunks

/-- A tick that respects it. -/
theorem secures_tick {now : Nat} {order : IterOrder ContentId}
    (h : Respects P swap K (.lease now (.tick order))) :
    Secures swap K (heartbeatTickOnce now order) := by
  refine keeps_atom fun s hs => ⟨⟨hs.held, ?_, ?_⟩, trivial⟩
  · obtain ⟨lease, hget, hexp, htoken⟩ := hs.leased
    have hnew := LeaseManager.refreshAll_get
      (now + DEFAULT_LEASE_DURATION_SECS)
      (s.leaseManager.ownedChunks order) (0, s.leaseManager)
      swap.theirChunkId
    rw [hget] at hnew
    by_cases hmem : swap.theirChunkId ∈ s.leaseManager.ownedChunks order
    · rw [if_pos hmem] at hnew
      obtain ⟨id, ids, hid, hc⟩ := LeaseManager.of_mem_ownedChunks hmem
      exact ⟨_, hnew, h ⟨id, ids, by rw [← hs.chunks]; exact hid, hc⟩,
        htoken⟩
    · rw [if_neg hmem] at hnew
      exact ⟨lease, hnew, hexp, htoken⟩
  · exact (LeaseManager.refreshAll_contentChunks _ _ _).trans hs.chunks

/-- The removal loop keeps a chunk it is not given. -/
theorem secures_dropExpired {ids : List ChunkId}
    (h : swap.theirChunkId ∉ ids) : Secures swap K (dropExpired ids) := by
  induction ids with
  | nil => trivial
  | cons c rest ih =>
      rw [List.mem_cons, not_or] at h
      obtain ⟨hne, hrest⟩ := h
      refine Keeps.then (keeps_atom fun s hs =>
        ⟨⟨?_, hs.leased, hs.chunks⟩, trivial⟩) ?_
      · show (s.chunkHolder.chunks.erase c).contains swap.theirChunkId
          = true
        unfold FMap.contains
        rw [FMap.get_erase_ne _ hne]
        exact hs.held
      intro size
      refine Keeps.then (keeps_write fun s hs =>
        ⟨hs.held, ?_, hs.chunks⟩) ?_
      · show ∃ lease, (s.leaseManager.leases.erase c).get
          swap.theirChunkId = some lease ∧ _
        rw [FMap.get_erase_ne _ hne]
        exact hs.leased
      intro _
      exact Keeps.then (secures_leaves (leaves_capacity _))
        fun _ => ih hrest

/-- A sweep in time does not list the chunk. -/
theorem secures_sweep {now : Nat} {order : IterOrder ChunkId}
    (h : Respects P swap K (.lease now (.sweep order))) :
    Secures swap K (expireChunksOnce now order) := by
  refine Keeps.bind (Q := fun expired => swap.theirChunkId ∉ expired)
    (keeps_read fun s hs hmem => ?_) ?_
  · have hlapsed := (List.mem_filter.1 hmem).2
    rw [Option.any_eq_true] at hlapsed
    obtain ⟨lease, hget, hlate⟩ := hlapsed
    obtain ⟨lease', hget', hexp, -⟩ := hs.leased
    obtain rfl := Option.some.inj (hget.symm.trans hget')
    unfold LeaseManager.lapsed at hlate
    rw [decide_eq_true_eq] at hlate
    have h : now ≤ swap.leaseExpiresAt + GRACE_PERIOD_SECS := h
    omega
  intro expired hspared
  refine Keeps.then (secures_dropExpired hspared) ?_
  intro _
  refine Keeps.then (keeps_write fun s hs => ?_) fun _ => trivial
  exact ⟨hs.held, hs.leased, hs.chunks⟩

-- ==== the node's tasks

/-- The update touches neither the holder nor the leases nor the cache's
list. -/
structure Spared (n n' : NodeState) : Prop where
  holder : n'.transport.chunkHolder = n.transport.chunkHolder
  leases : n'.transport.leaseManager = n.transport.leaseManager
  cached : n'.rotationState.cachedChunks = n.rotationState.cachedChunks

/-- An update that spares all three keeps the promise. -/
theorem Durable.spared {n' : NodeState} (hn : Durable swap K n)
    (h : Spared n n') : Durable swap K n' := by
  refine ⟨⟨?_, ?_, ?_⟩, ?_⟩
  · rw [h.holder]
    exact hn.secured.held
  · rw [h.leases]
    exact hn.secured.leased
  · rw [h.leases]
    exact hn.secured.chunks
  · rw [h.cached]
    exact hn.uncached

theorem protects_read {α : Type} (l : NodeAct) (f : NodeState → α) :
    Protects swap K (Proc.read l f) := keeps_read fun _ _ => trivial

theorem protects_write {l : NodeAct} {upd : NodeState → NodeState}
    (h : ∀ n, Spared n (upd n)) : Protects swap K (Proc.write l upd) :=
  keeps_write fun _ hn => hn.spared (h _)

theorem protects_atom {α : Type} {l : NodeAct}
    {f : NodeState → α × NodeState} (h : ∀ n, Spared n (f n).2) :
    Protects swap K (Proc.atom l f) :=
  keeps_atom fun _ hn => ⟨hn.spared (h _), trivial⟩

/-- A handler that secures the chunk protects it. -/
theorem protects_onTransport {α : Type} {p : Handler α}
    (hp : Secures swap K p) : Protects swap K (onTransport p) :=
  hp.zoom (fun _ h => h.secured) (fun _ _ _ => trivial)
    fun _ _ ht hs => ⟨hs, ht.uncached⟩

/-- Putting a chunk, whichever it is, removes none. -/
theorem Durable.addChunk (hn : Durable swap K n) (c : ChunkId)
    (data : List UInt8) (contentId : ContentId) :
    Durable swap K (n.updHolder fun h => h.addChunk c data contentId) := by
  refine ⟨⟨?_, hn.secured.leased, hn.secured.chunks⟩, hn.uncached⟩
  have hheld := hn.secured.held
  show (n.transport.chunkHolder.chunks.insert c data).contains
    swap.theirChunkId = true
  unfold FMap.contains
  by_cases h : swap.theirChunkId = c
  · rw [h, FMap.get_insert_self]
    rfl
  · rw [FMap.get_insert_ne _ _ h]
    exact hheld

/-- Removing another chunk keeps it. -/
theorem Durable.removeChunk (hn : Durable swap K n) {c : ChunkId}
    (h : swap.theirChunkId ≠ c) :
    Durable swap K (n.updHolder fun holder => holder.removeChunk c) := by
  refine ⟨⟨?_, hn.secured.leased, hn.secured.chunks⟩, hn.uncached⟩
  show (n.transport.chunkHolder.chunks.erase c).contains
    swap.theirChunkId = true
  unfold FMap.contains
  rw [FMap.get_erase_ne _ h]
  exact hn.secured.held

/-- So does taking an entry off the cache's list. -/
theorem Durable.removeCache (hn : Durable swap K n) (c : ChunkId) :
    Durable swap K (n.updRotation fun st => st.removeCache c) := by
  refine ⟨⟨hn.secured.held, hn.secured.leased, hn.secured.chunks⟩, ?_⟩
  show (n.rotationState.cachedChunks.erase c).get swap.theirChunkId = none
  by_cases h : swap.theirChunkId = c
  · rw [h, FMap.get_erase_self]
  · rw [FMap.get_erase_ne _ h]
    exact hn.uncached

/-- A chunk the cache evicts is on its list. -/
theorem Durable.lru_ne (hn : Durable swap K n) {order : IterOrder ChunkId}
    {c : ChunkId} (h : n.rotationState.lruCachedChunk order = some c) :
    swap.theirChunkId ≠ c := by
  intro heq
  have hmem := RotationState.lruCachedChunk_mem h
  rw [FMap.mem_keys, ← heq, hn.uncached] at hmem
  cases hmem

-- ------ the cache

/-- Caching another chunk lists that one. -/
theorem protects_storeCached (now : Nat) {c : ChunkId} (data : List UInt8)
    (h : swap.theirChunkId ≠ c) :
    Protects swap K (storeCached now c data) := by
  unfold storeCached
  refine Keeps.then (keeps_write fun _ hn => hn.addChunk c data _) ?_
  intro _
  refine Keeps.then (protects_write fun _ => ⟨rfl, rfl, rfl⟩) ?_
  intro _
  refine keeps_write fun n hn => ⟨?_, ?_⟩
  · exact ⟨hn.secured.held, hn.secured.leased, hn.secured.chunks⟩
  · show (n.rotationState.cachedChunks.insert c now).get
      swap.theirChunkId = none
    rw [FMap.get_insert_ne _ _ h]
    exact hn.uncached

/-- Caching begins only for a chunk not held, and evicts only a listed
one. -/
theorem protects_cacheRetrievedChunk (cfg : NodeConfig) (now : Nat)
    (order : IterOrder ChunkId) (c : ChunkId) (data : List UInt8) :
    Protects swap K (cacheRetrievedChunk cfg now order c data) := by
  unfold cacheRetrievedChunk
  split
  · trivial
  split
  · trivial
  refine Keeps.bind (Q := fun held => held = false →
    swap.theirChunkId ≠ c) (keeps_read fun n hn hnot heq => ?_) ?_
  · have hheld := hn.secured.held
    rw [heq, hnot] at hheld
    cases hheld
  intro held hne
  cases held with
  | true => trivial
  | false =>
      have hne := hne rfl
      refine Keeps.then (protects_read _ _) ?_
      intro fits
      split
      · exact protects_storeCached now data hne
      split
      · trivial
      refine Keeps.bind (Q := fun lru => ∀ c', lru = some c' →
        swap.theirChunkId ≠ c')
        (keeps_read fun n hn c' hlru => hn.lru_ne hlru) ?_
      intro lru hlru
      cases lru with
      | none => trivial
      | some lruId =>
          have hother := hlru lruId rfl
          refine Keeps.then (protects_read _ _) ?_
          intro evictedLen
          refine Keeps.then (keeps_write fun _ hn =>
            hn.removeChunk hother) ?_
          intro _
          refine Keeps.then (keeps_write fun _ hn =>
            hn.removeCache lruId) ?_
          intro _
          refine Keeps.then (protects_write fun _ => ⟨rfl, rfl, rfl⟩) ?_
          intro _
          refine Keeps.then (protects_read _ _) ?_
          intro fits'
          split
          · exact protects_storeCached now data hne
          · trivial

/-- An eviction takes listed chunks only. -/
theorem protects_evictExcessCache (order : IterOrder ChunkId)
    (maxCached turns : Nat) :
    Protects swap K (evictExcessCache order maxCached turns) := by
  unfold evictExcessCache
  split
  · trivial
  induction turns with
  | zero => trivial
  | succ turns ih =>
      refine Keeps.bind (Q := fun lru => ∀ c', lru = some c' →
        swap.theirChunkId ≠ c') (keeps_read fun n hn c' hlru => ?_) ?_
      · split at hlru
        · cases hlru
        · exact hn.lru_ne hlru
      intro lru hlru
      cases lru with
      | none => trivial
      | some lruId =>
          refine Keeps.then (keeps_atom fun _ hn =>
            ⟨hn.removeChunk (hlru lruId rfl), trivial⟩) ?_
          intro evictedLen
          refine Keeps.then (keeps_write fun _ hn =>
            hn.removeCache lruId) ?_
          intro _
          exact Keeps.then (protects_write fun _ => ⟨rfl, rfl, rfl⟩)
            fun _ => ih

-- ------ responses and retrievals

/-- What is mild writes nothing the promise is about. -/
theorem Mild.protects {l : NodeAct} {n' : NodeState} (h : Mild l n n')
    (hn : Durable swap K n) : Durable swap K n' :=
  hn.spared ⟨h.holder, h.leases, h.cached⟩

/-- All that is mild protects it. -/
theorem protects_closed : Closed fun _ p => Protects swap K p :=
  closed_keeps fun _ _ _ h => h.protects

/-- A response: its swap, and the cache. -/
theorem protects_response (cfg : NodeConfig) (r : ChunkResponse) :
    Protects swap K (handleChunkResponse P cfg env r) := by
  refine protects_closed.response ?_ ?_
  · exact protects_onTransport (secures_retrieval r.chunkId r.chunkData)
  · exact protects_cacheRetrievedChunk _ _ _ _ _

/-- Requests are mild. -/
theorem protects_retrievals (order : IterOrder ProposalId)
    (replySession : Bool) (sent : ProposalId → Bool) :
    Protects swap K (processSwapRetrievals order replySession sent) :=
  protects_closed.mild (mild_of_still (still_retrievals _ _ _))

-- ------ rotation

/-- A round of proposals writes none of the three. -/
theorem protects_proposeAll (renv : RotateEnv) (node : NodeId)
    (masterKey : SymmetricKey) (known : List NodeId)
    (senders : FMap NodeId Unit) (i : Nat)
    (eligible : List (ChunkId × List UInt8)) :
    Protects swap K
      (proposeAll P renv node masterKey known senders i eligible) := by
  induction eligible generalizing i with
  | nil => trivial
  | cons entry rest ih =>
      unfold proposeAll
      dsimp only
      split
      · exact ih _
      refine Keeps.then (protects_read _ _) ?_
      intro binding
      cases binding with
      | none => exact ih _
      | some binding =>
          refine Keeps.then ?_ fun _ => (ih _).then fun _ => trivial
          refine Keeps.then (protects_write fun _ => ⟨rfl, rfl, rfl⟩) ?_
          intro _
          refine Keeps.then (protects_write fun _ => ⟨rfl, rfl, rfl⟩) ?_
          intro _
          refine Keeps.then (protects_read _ _) ?_
          intro created
          refine Keeps.then (protects_write fun _ => ⟨rfl, rfl, rfl⟩) ?_
          intro _
          exact protects_write fun _ => ⟨rfl, rfl, rfl⟩

/-- A tick: its proposals, and its eviction. -/
theorem protects_rotationTick (cfg : RotationConfig) (node : NodeId)
    (renv : RotateEnv) :
    Protects swap K (rotationTick P cfg node renv) := by
  refine protects_closed.rotationTick ?_ ?_
  · intro masterKey known senders eligible
    exact protects_proposeAll _ _ _ _ _ _ _
  · intro order maxCached turns
    exact protects_evictExcessCache _ _ _

-- ------ repair

/-- Storing again removes nothing. -/
theorem protects_storeRepairedChunk (now : Nat) (contentId : ContentId)
    (c : ChunkId) (data : List UInt8) (createdAt : Nat) :
    Protects swap K
      (storeRepairedChunk now contentId c data createdAt) := by
  refine Keeps.then (protects_read _ _) ?_
  intro actual
  refine Keeps.then (protects_atom fun _ => ⟨rfl, rfl, rfl⟩) ?_
  intro fits
  split
  · trivial
  refine Keeps.then (keeps_write fun n hn => ?_) ?_
  · unfold putRepaired
    split
    · exact hn
    · exact (hn.addChunk c data contentId).spared ⟨rfl, rfl, rfl⟩
  intro _
  exact Keeps.then (protects_write fun _ => ⟨rfl, rfl, rfl⟩)
    fun _ => trivial

-- ------ any task

/-- No task loses the chunk while the commitment is respected. -/
theorem protects_program (N : NodeSetup) {e : NodeEvent}
    (h : Respects N.prims swap K e) :
    Protects swap K (e.program N) := by
  cases e with
  | proposal env p =>
      exact protects_onTransport (secures_leaves (leaves_proposal p))
  | accept env a =>
      exact protects_onTransport (secures_signedMessage
        (secures_leaves (leaves_adoptAccept a _)))
  | commit env c =>
      exact protects_onTransport (secures_signedMessage
        (secures_commitPending c))
  | abort env a =>
      exact protects_onTransport (secures_signedMessage
        (secures_leaves (leaves_abortPending a)))
  | reject r =>
      exact protects_onTransport (secures_leaves
        ((leaves_swaps _ _ rfl).bind fun _ => leaves_swaps _ _ rfl))
  | response env r => exact protects_response _ r
  | expirePending env =>
      exact (protects_onTransport (secures_leaves leaves_expire)).then
        fun _ => trivial
  | retrievals order replySession sent => exact protects_retrievals _ _ _
  | lease now e =>
      cases e with
      | heartbeat hb => exact protects_onTransport (secures_heartbeat h)
      | tick order =>
          exact protects_onTransport
            ((secures_tick h).then fun _ => trivial)
      | sweep order =>
          exact protects_onTransport
            ((secures_sweep h).then fun _ => trivial)
  | rotation env => exact protects_rotationTick _ _ _
  | repair env manifest =>
      exact (protects_closed.repair protects_storeRepairedChunk N.erasure
        env manifest).then fun _ => trivial

-- ====== finalization

/-- Run alone, the handler secures what it puts, if that is new. -/
def Settles {α : Type} (p : Handler α) : Prop :=
  ∀ s swap, .put swap ∈ p.acts s →
    s.chunkHolder.hasChunk swap.theirChunkId = false →
      Secured swap s.leaseManager.contentChunks (p.post s)

/-- A handler that leaves the holder puts nothing, -/
theorem no_put_of_leaves {α : Type} {p : Handler α}
    (h : Sections Leaves p) : .put swap ∉ p.acts s := by
  intro hmem
  obtain ⟨s₁, s₂, hleaves⟩ := h.of_mem_acts hmem
  exact hleaves.noPut swap rfl

/-- so it settles. -/
theorem settles_leaves {α : Type} {p : Handler α}
    (h : Sections Leaves p) : Settles p :=
  fun _ _ hmem => absurd hmem (no_put_of_leaves h)

/-- What comes before the put leaves the holder and the leases. -/
theorem Settles.bind {α β : Type} {p : Handler α} {f : α → Handler β}
    (hp : Sections Leaves p) (hf : ∀ a, Settles (f a)) :
    Settles (p >>= f) := by
  intro s swap hmem hnew
  rw [acts_bind, List.mem_append] at hmem
  rcases hmem with hmem | hmem
  · exact absurd hmem (no_put_of_leaves hp)
  have hholder := hp.post_eq (fun s => s.chunkHolder)
    (fun _ _ _ h => h.holder) s
  have hleases := hp.post_eq (fun s => s.leaseManager)
    (fun _ _ _ h => h.leases) s
  rw [← hholder] at hnew
  rw [post_bind, ← hleases]
  exact hf _ _ swap hmem hnew

/-- What is returned does not matter. -/
theorem Settles.discard {α β : Type} {p : Handler α} (hp : Settles p)
    (b : β) : Settles (p >>= fun _ => pure b) := by
  intro s swap hmem hnew
  rw [acts_bind, acts_pure, List.append_nil] at hmem
  rw [post_bind, post_pure]
  exact hp s swap hmem hnew

/-- The swap that is finalized is the ready one under the id. -/
theorem of_put_finalize
    (h : .put swap ∈ (finalizeSwapIfReady pid).acts s) :
    s.swapState.pendingSwaps.get pid = some swap ∧ swap.ready = true := by
  unfold finalizeSwapIfReady completeIfReady at h
  rw [acts_bind, out_atom, post_atom, acts_atom] at h
  rcases completeReady_cases pid s with hc | ⟨done, hget, hready, hc⟩
  · rw [hc] at h
    simp at h
  · rw [hc] at h
    have hsame : swap = done := by
      unfold storeChunk accountStored at h
      simp only [acts_bind, acts_atom, out_atom, acts_write,
        List.mem_append, List.mem_singleton] at h
      rcases h with h | h | h
      · cases h
      · injection h
      · split at h <;> simp at h
    rw [hsame]
    exact ⟨hget, hready⟩

/-- What is finalized has its chunk and its lease. -/
theorem settles_finalize : Settles (finalizeSwapIfReady pid) := by
  intro s swap hmem hnew
  obtain ⟨hget, hready⟩ := of_put_finalize hmem
  rw [(run_finalize_ready hget hready hnew).1]
  refine ⟨?_, ⟨swapLease swap, ?_, le_refl _, rfl⟩, rfl⟩
  · show (s.chunkHolder.chunks.insert swap.theirChunkId
      swap.theirChunkData).contains swap.theirChunkId = true
    unfold FMap.contains
    rw [FMap.get_insert_self]
    rfl
  · show (s.leaseManager.leases.insert swap.theirChunkId
      (swapLease swap)).get swap.theirChunkId = _
    exact FMap.get_insert_self _ _ _

/-- The checks put nothing. -/
theorem settles_signedMessage {sender : NodeId} {verified : Bool}
    {identity nonce : Bytes 32} {body : Handler Unit}
    (hbody : Settles body) :
    Settles (signedMessage env sender verified identity nonce body) := by
  refine Settles.bind (fun _ => ⟨⟨Act.ne_put rfl, rfl, rfl⟩, trivial⟩) ?_
  intro _
  split
  · exact settles_leaves trivial
  refine Settles.bind (leaves_read _ _ rfl) ?_
  intro pinned
  split
  · exact settles_leaves trivial
  refine Settles.bind (fun _ => ⟨⟨Act.ne_put rfl, rfl, rfl⟩, trivial⟩) ?_
  intro fresh
  split
  · exact settles_leaves trivial
  · exact hbody

/-- The last commit may finalize, -/
theorem settles_commitPending (c : SwapCommit) :
    Settles (commitPending c) := by
  refine Settles.bind (leaves_read _ _ rfl) ?_
  intro peerOk
  split
  · exact settles_leaves trivial
  refine Settles.bind (leaves_swaps _ _ rfl) ?_
  intro _
  exact settles_finalize.discard ()

/-- and so may the last chunk. -/
theorem settles_retrieval (c : ChunkId) (data : List UInt8) :
    Settles (handleSwapChunkRetrieval P env c data) := by
  unfold handleSwapChunkRetrieval
  split
  · exact settles_leaves trivial
  refine Settles.bind (leaves_read _ _ rfl) ?_
  intro found
  cases found with
  | none => exact settles_leaves trivial
  | some pending =>
      dsimp only
      split
      · refine Settles.bind leaves_abortAndRelease ?_
        intro _
        exact Settles.bind (leaves_sendAbort _ _ _)
          fun _ => settles_leaves trivial
      refine Settles.bind (fun _ => ⟨⟨Act.ne_put rfl, rfl, rfl⟩, trivial⟩) ?_
      intro received
      split
      · exact settles_leaves trivial
      refine Settles.bind leaves_claimCommit ?_
      intro needCommit
      dsimp only
      split
      · refine Settles.bind (leaves_sendCommit _) ?_
        intro _
        exact settles_finalize.discard true
      · exact settles_finalize.discard true

/-- The call finalizes the swap: `finalize_swap_if_ready`, reached from
a commit or from a retrieved chunk, completes it and comes to its put. -/
def FinalizedBy (N : NodeSetup) (n : NodeState) (swap : PendingSwap) :
    NodeEvent → Prop
  | .commit env c =>
      .put swap ∈ (handleMaintenanceCommit N.prims env c).acts n.transport
  | .response env r => r.found = true ∧
      .put swap ∈ (handleSwapChunkRetrieval N.prims env r.chunkId
        r.chunkData).acts n.transport
  | _ => False

/-- What the state before a finalization must grant: the chunk is not on
the cache's list, and if it is held already it has a lease with the
swap's token that lasts as long as the swap's. -/
structure Unclaimed (swap : PendingSwap) (n : NodeState) : Prop where
  uncached : n.rotationState.cachedChunks.get swap.theirChunkId = none
  leased : n.transport.chunkHolder.hasChunk swap.theirChunkId = true →
    ∃ lease, n.transport.leaseManager.leases.get swap.theirChunkId
        = some lease
      ∧ swap.leaseExpiresAt ≤ lease.expiresAt
      ∧ lease.renewalToken = swap.renewalToken

/-- A finalization that puts a chunk secures it; one that finds it held
leaves it as secure as it was. -/
theorem durable_of_finalized (N : NodeSetup) {e : NodeEvent}
    (hfin : FinalizedBy N n swap e) (hn : Unclaimed swap n) :
    Durable swap n.transport.leaseManager.contentChunks (e.step N n) := by
  cases hheld : n.transport.chunkHolder.hasChunk swap.theirChunkId with
  | true =>
      have hdurable : Durable swap n.transport.leaseManager.contentChunks
          n := ⟨⟨hheld, hn.leased hheld, rfl⟩, hn.uncached⟩
      have hrespects : Respects N.prims swap
          n.transport.leaseManager.contentChunks e := by
        cases e with
        | lease now e => exact hfin.elim
        | _ => trivial
      exact (protects_program N hrespects).post (fun _ _ => trivial)
        hdurable
  | false =>
      cases e with
      | commit env c =>
          show Durable swap _
            ((onTransport (handleMaintenanceCommit N.prims env c)).post n)
          rw [post_onTransport]
          have hsettles : Settles (handleMaintenanceCommit N.prims env c) :=
            settles_signedMessage (settles_commitPending c)
          exact ⟨hsettles n.transport swap hfin hheld, hn.uncached⟩
      | response env r =>
          obtain ⟨hfound, hput⟩ := hfin
          show Durable swap _
            ((handleChunkResponse N.prims N.config env r).post n)
          unfold handleChunkResponse
          rw [if_pos hfound, post_bind, post_onTransport]
          have hdurable : Durable swap
              n.transport.leaseManager.contentChunks
              { n with transport :=
                (handleSwapChunkRetrieval N.prims env r.chunkId
                  r.chunkData).post n.transport } :=
            ⟨settles_retrieval _ _ n.transport swap hput hheld,
              hn.uncached⟩
          split
          · exact hdurable
          · exact (protects_closed.keepRetrieved
              (protects_cacheRetrievedChunk _ _ _ _ _)).post
              (fun _ _ => trivial) hdurable
      | _ => exact hfin.elim

-- ==== wherever the node gets

/-- A swap is finalized by a call that does not find its chunk on the
cache's list, nor held under a lease that ends earlier. Then, however
the tasks of the later calls interleave, the chunk is held wherever the
node gets, as long as these calls respect the commitment. -/
theorem committed_durable (N : NodeSetup) (n : NodeState)
    (fin : NodeEvent) (swap : PendingSwap) (hfin : FinalizedBy N n swap fin)
    (hn : Unclaimed swap n) (E : NodeEvent → Prop)
    (hE : ∀ e, E e → Respects N.prims swap
      n.transport.leaseManager.contentChunks e)
    (m : NodeState) (ps : List (Task Unit))
    (tr : List (Step NodeAct NodeState))
    (hreach : Reach (TaskOf N E) (fun _ _ => True) (fin.step N n) m ps tr) :
    m.transport.chunkHolder.hasChunk swap.theirChunkId = true := by
  have hdurable : Durable swap n.transport.leaseManager.contentChunks
      m := by
    refine hreach.keeps (durable_of_finalized N hfin hn) ?_
    rintro p ⟨e, he, rfl⟩
    exact protects_program N (hE e he)
  exact hdurable.secured.held

-- ==== a cached chunk, concretely

/-- A node with room for one chunk and one byte, holding an empty one. -/
def cachingNode : NodeState :=
  .new (freshNode (Bytes.fill 16 2) (Bytes.fill 32 2) oneChunkHolder
    (ENCRYPTED_CHUNK_SIZE + 1))

def cachingSetup : NodeSetup where
  prims := Prims.plain
  erasure := ⟨fun _ _ _ => .error ""⟩
  config := ⟨.full, RotationConfig.default⟩
  nodeId := Bytes.fill 16 2

/-- The node after a reply to nobody's request: chunk 3 is cached. -/
def cachedFirst : NodeState :=
  (NodeEvent.response (quietEnv 40 150) ⟨Bytes.fill 32 3, [1], true⟩).step
    cachingSetup cachingNode

/-- The peer's offer of chunk 3 and the chunk itself. -/
def offerAndChunk (data : List UInt8) : List NodeEvent :=
  [.proposal (quietEnv 41 200) (offerOf 3),
    .response (quietEnv 42 200) ⟨Bytes.fill 32 3, data, true⟩]

/-- The node after both: all but the peer's commit is there. -/
def gotChunk (n : NodeState) (data : List UInt8) : NodeState :=
  { n with
    transport := buffered (proposalId Prims.plain (offerOf 3)) data
      (prepared Prims.plain (quietEnv 41 200) (offerOf 3) (Bytes.fill 32 9)
        ENCRYPTED_CHUNK_SIZE
        (reconciled (quietEnv 41 200) (offerOf 3) n.transport)) }

/-- The swap the commit finalizes. -/
def committedSwap (data : List UInt8) : PendingSwap :=
  { accepterEntry Prims.plain (offerOf 3) (Bytes.fill 32 9)
      ENCRYPTED_CHUNK_SIZE 200 with
    theirChunkData := data
    receivedTheirChunk := true
    sentCommit := true
    receivedCommit := true }

def lastCommit : NodeEvent := .commit (quietEnv 44 200) (commitOf 3)

theorem run_offerAndChunk {n : NodeState} {data : List UInt8}
    (hn : n = cachingNode ∨ n = cachedFirst)
    (hsize : data.length = ENCRYPTED_CHUNK_SIZE) :
    NodeEvent.run cachingSetup n (offerAndChunk data)
      = gotChunk n data := by
  have hfull : ¬ data.length ≠ ENCRYPTED_CHUNK_SIZE := not_not.2 hsize
  show (handleChunkResponse Prims.plain _ (quietEnv 42 200)
    ⟨Bytes.fill 32 3, data, true⟩).post ((NodeEvent.proposal
      (quietEnv 41 200) (offerOf 3)).step cachingSetup n) = gotChunk n data
  unfold handleChunkResponse handleSwapChunkRetrieval
  dsimp only
  rw [if_neg hfull]
  rcases hn with rfl | rfl
  · rfl
  · rfl

/-- The peer's commit is the call that finalizes. -/
theorem finalizedBy_lastCommit {n : NodeState} (data : List UInt8)
    (hn : n = cachingNode ∨ n = cachedFirst) :
    FinalizedBy cachingSetup (gotChunk n data) (committedSwap data)
      lastCommit := by
  have hat : ((handleMaintenanceCommit Prims.plain (quietEnv 44 200)
      (commitOf 3)).acts (gotChunk n data).transport)[6]?
        = some (.put (committedSwap data)) := by
    rcases hn with rfl | rfl
    · rfl
    · rfl
  exact List.mem_of_getElem? hat

/-- Nothing cached: the commit makes the chunk durable, and a sweep at
the last promised second spares it. -/
theorem committed_durable_swept :
    ((NodeEvent.lease (86500 + GRACE_PERIOD_SECS) (.sweep
      IterOrder.bytewise)).step
        cachingSetup
        (lastCommit.step cachingSetup (NodeEvent.run cachingSetup
          cachingNode (offerAndChunk (List.replicate ENCRYPTED_CHUNK_SIZE
            0))))).transport.chunkHolder.hasChunk (Bytes.fill 32 3)
      = true := by
  have hsize : (List.replicate ENCRYPTED_CHUNK_SIZE (0 : UInt8)).length
      = ENCRYPTED_CHUNK_SIZE := List.length_replicate
  generalize List.replicate ENCRYPTED_CHUNK_SIZE (0 : UInt8) = data
    at hsize
  rw [run_offerAndChunk (.inl rfl) hsize]
  generalize hsweep : NodeEvent.lease (86500 + GRACE_PERIOD_SECS) (.sweep
    IterOrder.bytewise) = sweep
  obtain ⟨tr, hreach, -⟩ := Reach.sequential
    (H := TaskOf cachingSetup (· = sweep)) (C := fun _ _ => True)
    (fun _ _ => trivial) (p := sweep.program cachingSetup) ⟨_, rfl, rfl⟩
    (s := lastCommit.step cachingSetup (gotChunk cachingNode data)) .init
  refine committed_durable cachingSetup (gotChunk cachingNode data)
    lastCommit (committedSwap data)
    (finalizedBy_lastCommit data (.inl rfl)) ⟨rfl, nofun⟩ (· = sweep) ?_ _
    _ _ hreach
  rintro e rfl
  rw [← hsweep]
  exact le_refl _

/-- When the store is full, caching a new chunk costs the oldest listed
one. -/
theorem cacheRetrievedChunk_evicts {n : NodeState} {cfg : NodeConfig} {now : Nat}
    {order : IterOrder ChunkId} {c lruId : ChunkId} {data : List UInt8}
    (hmode : cfg.mode = .full)
    (hcaching : cfg.rotationConfig.enableCaching = true)
    (hmax : cfg.rotationConfig.maxCachedChunks ≠ 0)
    (hnew : n.transport.chunkHolder.hasChunk c = false)
    (hfull : n.transport.storageCapacity.canAccept data.length 0 = false)
    (hlru : n.rotationState.lruCachedChunk order = some lruId)
    (hne : lruId ≠ c) :
    ((cacheRetrievedChunk cfg now order c data).post
      n).transport.chunkHolder.hasChunk lruId = false := by
  unfold cacheRetrievedChunk
  rw [if_neg (not_not.2 hmode)]
  simp only [hcaching, Bool.not_true, Bool.false_eq_true, if_false,
    post_bind, out_read, post_read, hnew, hfull, hmax, hlru]
  unfold evictForCache
  simp only [post_bind, out_read, post_read, post_write]
  generalize hm : updSpace _ _ = m
  have hgone : m.transport.chunkHolder.chunks.get lruId = none := by
    rw [← hm]
    exact FMap.get_erase_self _ _
  show ((if m.transport.storageCapacity.canAccept data.length 0 then
    storeCached now c data else pure ()).post
      m).transport.chunkHolder.hasChunk lruId = false
  by_cases hfits : m.transport.storageCapacity.canAccept data.length 0
      = true
  · rw [if_pos hfits]
    show (m.transport.chunkHolder.chunks.insert c data).contains lruId
      = false
    unfold FMap.contains
    rw [FMap.get_insert_ne _ _ hne, hgone]
    rfl
  · rw [if_neg hfits]
    show m.transport.chunkHolder.chunks.contains lruId = false
    unfold FMap.contains
    rw [hgone]
    rfl

/-- The oldest cached chunk goes when a chunk comes that is too big. -/
theorem response_evicts (data big : List UInt8)
    (hbig : big.length = ENCRYPTED_CHUNK_SIZE + 1) :
    ((NodeEvent.response (quietEnv 45 300)
      ⟨Bytes.fill 32 8, big, true⟩).step cachingSetup
        (lastCommit.step cachingSetup
          (gotChunk cachedFirst data))).transport.chunkHolder.hasChunk
            (Bytes.fill 32 3) = false := by
  have hsize : big.length ≠ ENCRYPTED_CHUNK_SIZE := by
    rw [hbig]
    decide
  have hrecord : (lastCommit.step cachingSetup (gotChunk cachedFirst
      data)).contentRetriever.recordChunk ⟨Bytes.fill 32 8, big⟩
        = (false, ContentRetriever.new) := rfl
  show ((handleChunkResponse Prims.plain cachingSetup.config
    (quietEnv 45 300) ⟨Bytes.fill 32 8, big, true⟩).post
      (lastCommit.step cachingSetup
        (gotChunk cachedFirst data))).transport.chunkHolder.hasChunk _ = _
  unfold handleChunkResponse handleSwapChunkRetrieval
  dsimp only
  rw [if_pos hsize, if_pos rfl]
  show ((keepRetrieved cachingSetup.config (quietEnv 45 300)
    (Bytes.fill 32 8) big).post
      (lastCommit.step cachingSetup
        (gotChunk cachedFirst data))).transport.chunkHolder.hasChunk _
        = false
  unfold keepRetrieved
  rw [post_bind, out_atom, post_atom, hrecord]
  simp only [Bool.not_false, if_true, post_bind, post_write]
  apply cacheRetrievedChunk_evicts
  · rfl
  · rfl
  · decide
  · rfl
  · show (lastCommit.step cachingSetup (gotChunk cachedFirst
      data)).transport.storageCapacity.canAccept big.length 0 = false
    have hcap : (lastCommit.step cachingSetup (gotChunk cachedFirst
        data)).transport.storageCapacity
        = { StorageCapacity.new (ENCRYPTED_CHUNK_SIZE + 1) with
            currentBytes := 1
            reservedBytes := 0 + ENCRYPTED_CHUNK_SIZE
              - ENCRYPTED_CHUNK_SIZE } := rfl
    rw [hcap, hbig]
    decide
  · rfl
  · decide

/-- A chunk is cached, then a swap of the same chunk is finalized: it is
held, so no lease is written and it stays on the cache's list. The next
chunk to be cached evicts it, a day before the lease of the swap would
end. -/
theorem committed_chunk_evicted :
    FinalizedBy cachingSetup
        (NodeEvent.run cachingSetup cachedFirst
          (offerAndChunk (List.replicate ENCRYPTED_CHUNK_SIZE 0)))
        (committedSwap (List.replicate ENCRYPTED_CHUNK_SIZE 0)) lastCommit
      ∧ 300 ≤ (committedSwap (List.replicate ENCRYPTED_CHUNK_SIZE
          0)).leaseExpiresAt + GRACE_PERIOD_SECS
      ∧ ((NodeEvent.response (quietEnv 45 300) ⟨Bytes.fill 32 8,
            List.replicate (ENCRYPTED_CHUNK_SIZE + 1) 0, true⟩).step
          cachingSetup (lastCommit.step cachingSetup
            (NodeEvent.run cachingSetup cachedFirst
              (offerAndChunk (List.replicate ENCRYPTED_CHUNK_SIZE
                0))))).transport.chunkHolder.hasChunk
            (committedSwap (List.replicate ENCRYPTED_CHUNK_SIZE
              0)).theirChunkId = false := by
  have hsize : (List.replicate ENCRYPTED_CHUNK_SIZE (0 : UInt8)).length
      = ENCRYPTED_CHUNK_SIZE := List.length_replicate
  have hbig : (List.replicate (ENCRYPTED_CHUNK_SIZE + 1)
      (0 : UInt8)).length = ENCRYPTED_CHUNK_SIZE + 1 :=
    List.length_replicate
  generalize List.replicate (ENCRYPTED_CHUNK_SIZE + 1) (0 : UInt8) = big
    at hbig
  generalize List.replicate ENCRYPTED_CHUNK_SIZE (0 : UInt8) = data
    at hsize
  rw [run_offerAndChunk (.inr rfl) hsize]
  exact ⟨finalizedBy_lastCommit data (.inr rfl), by
    show 300 ≤ 86500 + GRACE_PERIOD_SECS
    decide, response_evicts data big hbig⟩

end StaticNet
