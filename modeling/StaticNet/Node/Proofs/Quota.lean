/-
The per-peer quota over a run: is `peer_chunk_counts` the number of chunks
the node now holds for each peer?

A count goes up in the transport, where a finalized swap stores a new
chunk. It never goes down: the sweep, the eviction loop and the slow path of
the cache take chunks out in the runner, which does not know the counts. A
peer whose chunks have all expired is still refused for them.

# Whose chunks

Nothing in the code says by whose swap a held chunk came. `QuotaState` adds
that to the node: an entry when a swap stores a new chunk, gone when the
chunk leaves the holder. The calls do not read it.
-/
import StaticNet.Lib.Exact
import StaticNet.Node.Storing

namespace StaticNet

open Books

-- ============= model

/-- A node, and for the held chunks that were stored by a swap, the peer
the swap was with. -/
structure QuotaState where
  node : StoringNode
  storedBy : FMap ChunkId NodeId
  held : ∀ c, storedBy.contains c = true →
    node.transport.chunkHolder.hasChunk c = true

/-- The swap a call stores a chunk for: one it completes, whose chunk is
new. -/
def StoreCall.stores (S : StoreSetup) (n : StoringNode)
    (call : StoreCall) : Option PendingSwap :=
  (call.completes S n).filter fun swap =>
    !n.transport.chunkHolder.hasChunk swap.theirChunkId

namespace QuotaState

/-- The chunk of a swap is its peer's. -/
def credit (storedBy : FMap ChunkId NodeId) (swap : PendingSwap) :
    FMap ChunkId NodeId := storedBy.insert swap.theirChunkId swap.peer

/-- A call: the chunk it stores for a swap is the peer's, and what it takes
out is nobody's any more. -/
def step (S : StoreSetup) (x : QuotaState) (call : StoreCall) :
    QuotaState where
  node := call.step S x.node
  storedBy :=
    ((call.stores S x.node).elim x.storedBy (credit x.storedBy)).retain
      fun c _ => (call.step S x.node).transport.chunkHolder.hasChunk c
  held := fun c hc => by
    obtain ⟨p, hp⟩ := (FMap.contains_eq_true _ _).1 hc
    exact (Option.filter_eq_some_iff.1 hp).2

/-- The chunks now in the holder that were stored by a swap finalized with
this peer. -/
def heldFrom (x : QuotaState) (p : NodeId) : Finset ChunkId :=
  x.node.transport.chunkHolder.chunks.keys.filter fun c =>
    x.storedBy.get c = some p

/-- What the code counts for a peer. -/
def counted (x : QuotaState) (p : NodeId) : Nat :=
  (x.node.transport.peerChunkCounts.get p).getD 0

/-- The counts are of what is stored. -/
def Exact (x : QuotaState) : Prop :=
  ∀ p, x.counted p = (x.heldFrom p).card

/-- A proposal that is refused with `TooManyFromPeer` is refused while the
node holds the peer's full quota. -/
def RefusesFull (S : StoreSetup) (x : QuotaState) : StoreCall → Prop
  | .swap (.proposal env p) =>
      decideOnSwap S.prims p
          (x.node.transport.storageCapacity.reconcile
            x.node.transport.chunkHolder.totalBytes)
          (x.counted p.fromNode) ENCRYPTED_CHUNK_SIZE env.now
        = .error .tooManyFromPeer →
      x.node.transport.storageCapacity.maxChunksPerPeer
        ≤ (x.heldFrom p.fromNode).card
  | _ => True

/-- No chunk that a call takes out was stored by a swap. -/
def TakesNone (S : StoreSetup) (x : QuotaState) (call : StoreCall) : Prop :=
  ∀ c ∈ call.removes S x.node, x.storedBy.contains c = false

end QuotaState

-- ============= proof

section Step

variable {S : StoreSetup} {x : QuotaState} {call : StoreCall} {c : ChunkId}
  {p : NodeId} {swap : PendingSwap}

theorem QuotaState.mem_heldFrom :
    c ∈ x.heldFrom p ↔ x.storedBy.get c = some p := by
  unfold heldFrom
  rw [Finset.mem_filter]
  refine and_iff_right_of_imp fun hp => ?_
  exact (FMap.mem_keys _ _).2
    (x.held c ((FMap.contains_eq_true _ _).2 ⟨p, hp⟩))

/-- The lease and the signature have reasons of their own. -/
theorem validate_ne_quota (P : Prims) (q : SwapProposal) (now : Nat) :
    validateSwapProposal P q now ≠ .error .tooManyFromPeer := by
  unfold validateSwapProposal
  split
  · simp
  · split
    · simp
    · simp

/-- A decision that names the quota is made on a full one. -/
theorem quota_of_decide {P : Prims} {q : SwapProposal}
    {cap : StorageCapacity} {n size now : Nat}
    (h : decideOnSwap P q cap n size now = .error .tooManyFromPeer) :
    cap.maxChunksPerPeer ≤ n := by
  unfold decideOnSwap at h
  cases hvalid : validateSwapProposal P q now with
  | error e =>
      rw [hvalid] at h
      exact absurd (hvalid.trans h) (validate_ne_quota P q now)
  | ok u =>
      rw [hvalid] at h
      by_cases hfull : cap.maxChunksPerPeer ≤ n
      · exact hfull
      · simp only [hfull, if_false] at h
        split at h
        · cases h
        · cases h

/-- Whose a chunk is after a call: whose it was, or whose swap stored it,
as long as it is held. -/
theorem QuotaState.get_storedBy_step :
    (x.step S call).storedBy.get c = some p
      ↔ ((call.stores S x.node).elim x.storedBy
          (credit x.storedBy)).get c = some p
        ∧ (call.step S x.node).books.holds c = true :=
  Option.filter_eq_some_iff

/-- A call that stores nothing for a swap leaves the counts, and the
chunks it does not take out. -/
theorem step_stores_none (h : call.stores S x.node = none) :
    (∀ p, (x.step S call).counted p = x.counted p)
      ∧ ∀ p, (x.step S call).heldFrom p
        = (x.heldFrom p).filter fun c => c ∉ call.removes S x.node := by
  obtain ⟨b, hmoved, hbooks, hholder⟩ := call.books_step S x.node
  have hsame : (call.step S x.node).books = b := by
    rw [hbooks]
    cases hswap : call.completes S x.node with
    | none => rfl
    | some swap =>
        have hold : b.chunkHolder = x.node.books.chunkHolder :=
          hholder (by rw [hswap]; exact Option.some_ne_none swap)
        have hheld : x.node.transport.chunkHolder.hasChunk
            swap.theirChunkId = true := by
          rw [StoreCall.stores, hswap, Option.filter_eq_none_iff] at h
          simpa using h swap rfl
        rw [enterIf_some, enter_held (hold ▸ hheld)]
  refine ⟨fun p => ?_, fun p => ?_⟩
  · have hcounts : (call.step S x.node).books.peerChunkCounts
        = x.node.books.peerChunkCounts := by
      rw [hsame, hmoved.counts]
    exact congrArg (fun counts => (counts.get p).getD 0) hcounts
  · ext c
    rw [Finset.mem_filter, QuotaState.mem_heldFrom,
      QuotaState.mem_heldFrom, QuotaState.get_storedBy_step, h, hsame]
    refine and_congr_right fun hp => hmoved.kept c ?_
    exact x.held c ((FMap.contains_eq_true _ _).2 ⟨p, hp⟩)

/-- A call that stores a chunk for a swap adds it to the holder it found
and to its peer's count, and takes out nothing. -/
theorem books_of_stores (h : call.stores S x.node = some swap) :
    x.TakesNone S call
      ∧ (call.step S x.node).books.chunkHolder
        = x.node.transport.chunkHolder.addChunk swap.theirChunkId
          swap.theirChunkData (Bytes.zero 32)
      ∧ (call.step S x.node).books.peerChunkCounts
        = x.node.transport.peerChunkCounts.insert swap.peer
          (x.counted swap.peer + 1) := by
  obtain ⟨b, hmoved, hbooks, hholder⟩ := call.books_step S x.node
  obtain ⟨hswap, hnew⟩ := Option.filter_eq_some_iff.1 h
  have hold : b.chunkHolder = x.node.books.chunkHolder :=
    hholder (by rw [hswap]; exact Option.some_ne_none swap)
  have hnew' : x.node.transport.chunkHolder.hasChunk swap.theirChunkId
      = false := by
    simpa using hnew
  rw [hswap, enterIf_some, enter_new (hold ▸ hnew')] at hbooks
  refine ⟨fun c hc => Bool.eq_false_iff.2 fun hstored => ?_, ?_, ?_⟩
  · -- a held chunk is held by the books in between, so it is not removed
    have hheld := x.held c hstored
    refine (hmoved.kept c hheld).1 ?_ hc
    unfold Books.holds
    rw [hold]
    exact hheld
  · rw [hbooks, hold]
    rfl
  · rw [hbooks, hmoved.counts]
    rfl

/-- The chunk of a swap that stores it was nobody's before. -/
theorem storedBy_of_stores (h : call.stores S x.node = some swap) :
    x.storedBy.get swap.theirChunkId = none := by
  refine Option.eq_none_iff_forall_ne_some.2 fun p hp => ?_
  have hheld := x.held _ ((FMap.contains_eq_true _ _).2 ⟨p, hp⟩)
  simpa [hheld] using (Option.filter_eq_some_iff.1 h).2

theorem counted_of_stores (h : call.stores S x.node = some swap)
    (p : NodeId) : (x.step S call).counted p
      = x.counted p + if p = swap.peer then 1 else 0 := by
  have hcounts := congrArg (fun counts => (counts.get p).getD 0)
    (books_of_stores h).2.2
  refine hcounts.trans ?_
  rw [FMap.get_insert]
  split
  next hp => rw [hp]; rfl
  next => rfl

/-- Its peer has one chunk more, everybody else what they had. -/
theorem heldFrom_of_stores (h : call.stores S x.node = some swap)
    (p : NodeId) : (x.step S call).heldFrom p
      = if p = swap.peer then insert swap.theirChunkId (x.heldFrom p)
        else x.heldFrom p := by
  have hnobody := storedBy_of_stores h
  have hholds : ∀ c, (call.step S x.node).books.holds c = true
      ↔ c = swap.theirChunkId ∨ x.node.books.holds c = true := by
    intro c
    unfold Books.holds
    rw [(books_of_stores h).2.1]
    exact holds_record (b := x.node.books) (Bytes.zero 32)
  ext c
  rw [QuotaState.mem_heldFrom, QuotaState.get_storedBy_step, h, hholds]
  show (x.storedBy.insert swap.theirChunkId swap.peer).get c = some p ∧ _
    ↔ _
  rw [FMap.get_insert]
  by_cases hc : c = swap.theirChunkId
  · rw [if_pos hc, and_iff_left (Or.inl hc), Option.some.injEq, eq_comm]
    split
    next hp => exact iff_of_true hp (hc ▸ Finset.mem_insert_self _ _)
    next hp =>
      rw [QuotaState.mem_heldFrom, hc, hnobody]
      exact iff_of_false hp (Option.some_ne_none p).symm
  · have hold : x.storedBy.get c = some p → x.node.books.holds c = true :=
      fun hp => x.held c ((FMap.contains_eq_true _ _).2 ⟨p, hp⟩)
    rw [if_neg hc, or_iff_right hc, and_iff_left_of_imp hold,
      ← QuotaState.mem_heldFrom]
    split
    next => rw [Finset.mem_insert, or_iff_right hc]
    next => exact Iff.rfl

theorem card_of_stores (h : call.stores S x.node = some swap)
    (p : NodeId) : ((x.step S call).heldFrom p).card
      = (x.heldFrom p).card + if p = swap.peer then 1 else 0 := by
  rw [heldFrom_of_stores h]
  split
  next =>
    refine Finset.card_insert_of_notMem fun hmem => ?_
    rw [QuotaState.mem_heldFrom, storedBy_of_stores h] at hmem
    cases hmem
  next => rfl

/-- One call. -/
theorem quota_step_iff (hx : x.Exact) :
    (x.step S call).Exact ↔ x.TakesNone S call := by
  cases hstores : call.stores S x.node with
  | none =>
      obtain ⟨hcounted, hheld⟩ := step_stores_none hstores
      have hcard : (x.step S call).Exact
          ↔ ∀ p, ∀ c ∈ x.heldFrom p, c ∉ call.removes S x.node := by
        refine forall_congr' fun p => ?_
        rw [hcounted, hheld, hx p, eq_comm, Finset.card_filter_eq_iff]
      rw [hcard]
      constructor
      · intro hkept c hc
        refine Bool.eq_false_iff.2 fun hstored => ?_
        obtain ⟨p, hp⟩ := (FMap.contains_eq_true _ _).1 hstored
        exact hkept p c (QuotaState.mem_heldFrom.2 hp) hc
      · intro hnone p c hc hgone
        have hstored := (FMap.contains_eq_true _ _).2
          ⟨p, QuotaState.mem_heldFrom.1 hc⟩
        rw [hnone c hgone] at hstored
        cases hstored
  | some swap =>
      refine iff_of_true (fun p => ?_) (books_of_stores hstores).1
      rw [counted_of_stores hstores, card_of_stores hstores, hx p]

theorem refusesFull_of_exact (hx : x.Exact) : x.RefusesFull S call := by
  cases call with
  | swap e =>
      cases e with
      | proposal env q =>
          intro hdecide
          have hfull := quota_of_decide hdecide
          rw [hx q.fromNode] at hfull
          exact hfull
      | _ => trivial
  | _ => trivial

end Step

/-- In a run that starts with exact counts, they are exact after every call
and every refusal for the quota is of a peer whose quota is full, if and
only if no call takes out a chunk that a swap has stored. -/
theorem peer_quota_exact_iff (S : StoreSetup) (x : QuotaState)
    (calls : List StoreCall) (hx : x.Exact) :
    Exact.Along (QuotaState.step S) (QuotaState.RefusesFull S) x calls
      ∧ Exact.Always (QuotaState.step S) QuotaState.Exact x calls
      ↔ Exact.Along (QuotaState.step S) (QuotaState.TakesNone S) x
          calls :=
  Exact.along_and_always_iff
    (fun _ _ hx => (and_iff_right (refusesFull_of_exact hx)).trans
      (quota_step_iff hx)) hx

-- ======== concretely

/-- A node that stores nothing for anybody. -/
def unowingNode : QuotaState where
  node := tradingNode crampedNode
  storedBy := ∅
  held := fun _ h => by cases h

theorem unowingNode_exact : unowingNode.Exact := by
  intro p
  refine (Finset.card_eq_zero.2 ?_).symm
  refine Finset.eq_empty_iff_forall_notMem.2 fun c hc => ?_
  have hnobody := QuotaState.mem_heldFrom.1 hc
  cases hnobody

/-- It stores a chunk for a peer, and counts it. -/
theorem peer_quota_exact_stored :
    Exact.Along (QuotaState.step tradingSetup)
        (QuotaState.RefusesFull tradingSetup) unowingNode
        (acceptedTrade (List.replicate ENCRYPTED_CHUNK_SIZE 0))
      ∧ Exact.Always (QuotaState.step tradingSetup) QuotaState.Exact
        unowingNode
        (acceptedTrade (List.replicate ENCRYPTED_CHUNK_SIZE 0)) := by
  refine (peer_quota_exact_iff tradingSetup unowingNode _
    unowingNode_exact).2 ⟨?_, ?_, ?_, trivial⟩
  · exact fun c hc => absurd hc List.not_mem_nil
  · exact fun c hc => absurd hc List.not_mem_nil
  · exact fun c hc => absurd hc List.not_mem_nil

/-- The node with the peer's chunk buffered. -/
def owingSoon (data : List UInt8) : QuotaState :=
  (unowingNode.step tradingSetup
    (.swap (.proposal (quietEnv 41 200) (offerOf 3)))).step tradingSetup
      (.swap (.retrieval (quietEnv 42 200) (Bytes.fill 32 3) data))

theorem owingSoon_node {data : List UInt8}
    (hsize : data.length = ENCRYPTED_CHUNK_SIZE) :
    (owingSoon data).node = tradingNode (crampedChunk data) := by
  show (StoreCall.swap (.retrieval (quietEnv 42 200) (Bytes.fill 32 3)
    data)).step tradingSetup ((StoreCall.swap (.proposal (quietEnv 41 200)
      (offerOf 3))).step tradingSetup (tradingNode crampedNode)) = _
  rw [step_acceptedOffer, step_acceptedChunk hsize]

/-- The peer's commit stores the chunk. -/
theorem owingSoon_stores {data : List UInt8}
    (hsize : data.length = ENCRYPTED_CHUNK_SIZE) :
    (StoreCall.swap (.commit (quietEnv 44 200) (commitOf 3))).stores
        tradingSetup (owingSoon data).node
      = some (crampedEntry data).withCommit := by
  rw [owingSoon_node hsize, StoreCall.stores, acceptedCommit_completes]
  rfl

/-- The lease the chunk is stored with has lapsed at the time 200000. -/
theorem owing_expired {data : List UInt8}
    (hsize : data.length = ENCRYPTED_CHUNK_SIZE) :
    Bytes.fill 32 3 ∈ (StoreCall.sweep 200000 IterOrder.bytewise).removes
      tradingSetup ((owingSoon data).step tradingSetup
        (.swap (.commit (quietEnv 44 200) (commitOf 3)))).node := by
  have hnode : ((owingSoon data).step tradingSetup
      (.swap (.commit (quietEnv 44 200) (commitOf 3)))).node
      = tradingNode ((SwapEvent.commit (quietEnv 44 200)
          (commitOf 3)).step Prims.plain (crampedChunk data)) := by
    show (StoreCall.swap (.commit (quietEnv 44 200) (commitOf 3))).step
      tradingSetup (owingSoon data).node = _
    rw [owingSoon_node hsize, step_tradingNode]
  have hpost := post_commit_ready (acceptedCommit_auth data)
    (crampedChunk_get data) rfl rfl rfl rfl
  have hlease : ((SwapEvent.commit (quietEnv 44 200) (commitOf 3)).step
      Prims.plain (crampedChunk data)).leaseManager.leases.get
        (Bytes.fill 32 3)
      = some (swapLease (crampedEntry data).withCommit) := by
    unfold SwapEvent.step
    rw [hpost]
    exact FMap.get_insert_self _ _ _
  rw [hnode]
  refine List.mem_filter.2 ⟨?_, ?_⟩
  · exact (IterOrder.bytewise.mem_iter _ _).2 (FMap.mem_keys_of_get hlease)
  · show (((SwapEvent.commit (quietEnv 44 200) (commitOf 3)).step
      Prims.plain (crampedChunk data)).leaseManager.leases.get
        (Bytes.fill 32 3)).any _ = true
    rw [hlease]
    show decide ((offerOf 3).lease.expiresAt
      < 200000 - GRACE_PERIOD_SECS) = true
    decide

/-- The chunk's lease expires and the sweep takes it out; the peer is still
charged for it. -/
theorem peer_quota_charges_expired :
    unowingNode.Exact
      ∧ ¬Exact.Always (QuotaState.step tradingSetup) QuotaState.Exact
        unowingNode
        (acceptedTrade (List.replicate ENCRYPTED_CHUNK_SIZE 0)
          ++ [.sweep 200000 IterOrder.bytewise]) := by
  refine ⟨unowingNode_exact, ?_⟩
  have hsize : (List.replicate ENCRYPTED_CHUNK_SIZE (0 : UInt8)).length
      = ENCRYPTED_CHUNK_SIZE := List.length_replicate
  generalize List.replicate ENCRYPTED_CHUNK_SIZE (0 : UInt8) = data
    at hsize
  rintro ⟨-, -, -, hbefore, hafter⟩
  have hnone := (quota_step_iff hbefore).1 hafter _ (owing_expired hsize)
  have hmine : Bytes.fill 32 3 ∈ ((owingSoon data).step tradingSetup
      (.swap (.commit (quietEnv 44 200) (commitOf 3)))).heldFrom
        (Bytes.fill 16 1) := by
    have hpeer : Bytes.fill 16 1 = (crampedEntry data).withCommit.peer :=
      rfl
    rw [heldFrom_of_stores (owingSoon_stores hsize), if_pos hpeer]
    exact Finset.mem_insert_self _ _
  have hstored := (FMap.contains_eq_true _ _).2
    ⟨_, QuotaState.mem_heldFrom.1 hmine⟩
  exact Bool.false_ne_true (hnone.symm.trans hstored)

end StaticNet
