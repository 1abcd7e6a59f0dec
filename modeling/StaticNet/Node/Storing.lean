/-
The functions that store and remove chunks, run one after the other on one
node: publishing, repairs, the cache and its eviction, the expiration
sweep, the finalization of a swap, and the swap handlers.

# What a call does to the books

Six functions in two crates maintain the holder, its byte counter and the
counts per peer, each by its own amounts: what a reconciliation finds, a
chunk's length, a swap's reservation. `StoreCall.books_step` says the same
thing of all of them. A call first moves chunks without a swap: it takes
`removes` out, may add others, and keeps an exact counter exact. Then it
enters the swap it `completes`, if any. Both are read off the state that
the call finds.
-/
import StaticNet.Node.Cache
import StaticNet.Node.Publish
import StaticNet.Node.Repair
import StaticNet.Swap.Proofs.Overcommit
import StaticNet.Swap.Proofs.Stored

namespace StaticNet

open Proc TransportState

-- ============= calls

/-- A node that also keeps account of its prepayments. -/
structure StoringNode extends NodeState where
  accounting : AccountingState

/-- What a node computes with, and its configuration. -/
structure StoreSetup where
  prims : Prims
  erasure : ErasureCode
  json : Json
  config : NodeConfig

/-- A call of one of the functions, with what it reads from outside. -/
inductive StoreCall
  | publish (env : PublishEnv) (d : PublishDraws) (fileData : List UInt8)
  | repaired (now : Nat) (contentId : ContentId) (chunkId : ChunkId)
      (data : List UInt8) (createdAt : Nat)
  | cache (call : CacheCall)
  | sweep (now : Nat) (order : IterOrder ChunkId)
  | finalize (pid : ProposalId)
  | swap (e : SwapEvent)
  | reject (r : SwapReject)

namespace StoringNode

def books (n : StoringNode) : Books := n.transport.books

/-- The node after a task. -/
def after {α : Type} (task : Task α) (n : StoringNode) : StoringNode :=
  { n with toNodeState := task.post n.toNodeState }

/-- The node after a handler of the transport. -/
def afterHandler {α : Type} (handler : Handler α) (n : StoringNode) :
    StoringNode := n.after (onTransport handler)

/-- The node after `publish_content`. -/
def afterPublish (S : StoreSetup) (env : PublishEnv) (d : PublishDraws)
    (fileData : List UInt8) (n : StoringNode) : StoringNode :=
  let out := publishContentIn S.prims S.erasure S.json env d fileData
    ⟨n.toRunnerState, n.accounting⟩
  { n with
    toNodeState := { n.toNodeState with toRunnerState := out.2.1.runner }
    accounting := out.2.1.accounting }

end StoringNode

/-- The chunks the eviction loop takes out, in their order. -/
def evictedBy (order : IterOrder ChunkId) (maxCachedChunks : Nat) :
    Nat → RotationState → List ChunkId
  | 0, _ => []
  | turns + 1, st =>
      if st.cachedChunks.len ≤ maxCachedChunks then []
      else
        match st.lruCachedChunk order with
        | none => []
        | some lruId =>
            lruId :: evictedBy order maxCachedChunks turns
              (st.removeCache lruId)

/-- Caching a chunk comes to the slow path: the chunk is new, its bytes do
not fit, and the cache is limited. -/
def cacheFull (cfg : NodeConfig) (chunkId : ChunkId) (data : List UInt8)
    (n : NodeState) : Bool :=
  cfg.mode = .full && cfg.rotationConfig.enableCaching
    && !n.transport.chunkHolder.hasChunk chunkId
    && !n.transport.storageCapacity.canAccept data.length 0
    && 0 < cfg.rotationConfig.maxCachedChunks

/-- The chunks a call evicts: caching takes the oldest cached chunk on the
slow path, and the eviction whatever is over the limit. -/
def CacheCall.evicts (cfg : NodeConfig) (n : NodeState) :
    CacheCall → List ChunkId
  | cache _ order chunkId data =>
      if cacheFull cfg chunkId data n then
        (n.rotationState.lruCachedChunk order).toList
      else []
  | evict order =>
      if cfg.rotationConfig.maxCachedChunks = 0 then []
      else
        evictedBy order cfg.rotationConfig.maxCachedChunks
          n.rotationState.cachedChunks.len n.rotationState

namespace StoreCall

/-- The node after a call. -/
def step (S : StoreSetup) (n : StoringNode) : StoreCall → StoringNode
  | publish env d fileData => n.afterPublish S env d fileData
  | repaired now contentId chunkId data createdAt =>
      n.after (storeRepairedChunk now contentId chunkId data createdAt)
  | cache call =>
      { n with toNodeState := call.step S.config n.toNodeState }
  | sweep now order => n.afterHandler (expireChunksOnce now order)
  | finalize pid => n.afterHandler (finalizeSwapIfReady pid)
  | swap e => n.afterHandler (e.program S.prims)
  | reject r => n.afterHandler (handleMaintenanceReject r)

/-- The chunks a call takes out of the holder. -/
def removes (S : StoreSetup) (n : StoringNode) : StoreCall → List ChunkId
  | cache call => call.evicts S.config n.toNodeState
  | sweep now order =>
      n.transport.leaseManager.getExpiredChunks order now
  | _ => []

/-- The swap a call finalizes. -/
def completes (S : StoreSetup) (n : StoringNode) :
    StoreCall → Option PendingSwap
  | finalize pid => readyAt pid n.transport
  | swap e => e.completes S.prims n.transport
  | _ => none

end StoreCall

-- ============= moves

namespace Books

def holds (b : Books) (c : ChunkId) : Bool := b.chunkHolder.hasChunk c

/-- The counter says what the holder has. -/
def Exact (b : Books) : Prop := b.currentBytes = b.chunkHolder.totalBytes

/-- Count what the holder has. -/
def reconcile (b : Books) : Books :=
  { b with currentBytes := b.chunkHolder.totalBytes }

/-- Take a chunk out, and its length off the counter. -/
def remove (b : Books) (c : ChunkId) : Books :=
  { b with
    chunkHolder := b.chunkHolder.removeChunk c
    currentBytes := b.currentBytes
      - ((b.chunkHolder.getChunk c).map List.length).getD 0 }

/-- Put a chunk in, and its length on the counter. -/
def record (b : Books) (c : ChunkId) (data : List UInt8)
    (contentId : ContentId) : Books :=
  { b with
    chunkHolder := b.chunkHolder.addChunk c data contentId
    currentBytes := b.currentBytes + data.length }

/-- Chunks are moved without a swap: what is held stays but for `gone`, an
exact counter stays exact, and no peer is charged. -/
structure Moved (b b' : Books) (gone : List ChunkId) : Prop where
  exact : b.Exact → b'.Exact
  counts : b'.peerChunkCounts = b.peerChunkCounts
  kept : ∀ c, b.holds c = true → (b'.holds c = true ↔ c ∉ gone)

variable {b b' : Books} {c d : ChunkId} {data : List UInt8}

theorem Moved.refl (b : Books) : Moved b b [] :=
  ⟨id, rfl, fun _ h => iff_of_true h List.not_mem_nil⟩

theorem Moved.reconcile (b : Books) : Moved b b.reconcile [] :=
  ⟨fun _ => rfl, rfl, fun _ h => iff_of_true h List.not_mem_nil⟩

theorem holds_record (contentId : ContentId) :
    (b.record c data contentId).holds d = true
      ↔ d = c ∨ b.holds d = true := by
  show ((b.chunkHolder.chunks.insert c data).get d).isSome = true ↔ _
  rw [FMap.get_insert]
  split
  next h => exact iff_of_true rfl (Or.inl h)
  next h => exact (or_iff_right h).symm

theorem holds_remove :
    (b.remove c).holds d = true ↔ d ≠ c ∧ b.holds d = true := by
  show ((b.chunkHolder.chunks.erase c).get d).isSome = true ↔ _
  rw [FMap.get_erase]
  split
  next h => exact iff_of_false Bool.false_ne_true fun hd => hd.1 h
  next h => exact (and_iff_right h).symm

theorem Exact.record (h : b.Exact) (contentId : ContentId)
    (hnew : b.holds c = false) : (b.record c data contentId).Exact := by
  show b.currentBytes + data.length
    = (b.chunkHolder.addChunk c data contentId).totalBytes
  rw [totalBytes_addChunk hnew, ← show b.currentBytes
    = b.chunkHolder.totalBytes from h]

/-- Taking a chunk out takes its length off the total. -/
theorem totalBytes_removeChunk (h : ChunkHolder) (c : ChunkId) :
    (h.removeChunk c).totalBytes
      = h.totalBytes - ((h.getChunk c).map List.length).getD 0 := by
  have herase : (h.removeChunk c).totalBytes
      + ((h.getChunk c).map List.length).getD 0 = h.totalBytes :=
    h.chunks.sumBy_erase List.length c
  omega

theorem Exact.remove (h : b.Exact) (c : ChunkId) : (b.remove c).Exact := by
  show b.currentBytes - _ = (b.chunkHolder.removeChunk c).totalBytes
  rw [totalBytes_removeChunk, show b.currentBytes
    = b.chunkHolder.totalBytes from h]

/-- A new chunk in. -/
theorem Moved.record (contentId : ContentId) (hnew : b.holds c = false) :
    Moved b (b.record c data contentId) [] where
  exact := fun h => h.record contentId hnew
  counts := rfl
  kept := fun _ hd => iff_of_true
    ((holds_record contentId).2 (Or.inr hd)) List.not_mem_nil

/-- One chunk out. -/
theorem Moved.remove (b : Books) (c : ChunkId) :
    Moved b (b.remove c) [c] where
  exact := fun h => h.remove c
  counts := rfl
  kept := fun d hd => by
    rw [holds_remove, List.mem_singleton, and_iff_left hd]

/-- A new chunk in after others are out. -/
theorem Moved.then_record {gone : List ChunkId} (h : Moved b b' gone)
    (contentId : ContentId) (hnew : b.holds c = false)
    (hnew' : b'.holds c = false) :
    Moved b (b'.record c data contentId) gone where
  exact := fun he => (h.exact he).record contentId hnew'
  counts := h.counts
  kept := fun d hd => by
    have hne : d ≠ c := by
      rintro rfl
      rw [hnew] at hd
      cases hd
    rw [holds_record, or_iff_right hne]
    exact h.kept d hd

theorem holds_foldl_remove (ids : List ChunkId) (b : Books) :
    (ids.foldl remove b).holds d = true
      ↔ d ∉ ids ∧ b.holds d = true := by
  induction ids generalizing b with
  | nil => exact (and_iff_right List.not_mem_nil).symm
  | cons c ids ih =>
      rw [List.foldl_cons, ih, holds_remove, List.mem_cons, not_or,
        and_left_comm, ← and_assoc]

/-- A list of chunks out, one by one. -/
theorem Moved.foldl_remove (ids : List ChunkId) (b : Books) :
    Moved b (ids.foldl Books.remove b) ids where
  exact := fun h => by
    induction ids generalizing b with
    | nil => exact h
    | cons c ids ih => exact ih (b.remove c) (h.remove c)
  counts := by
    induction ids generalizing b with
    | nil => rfl
    | cons c ids ih => exact ih (b.remove c)
  kept := fun d hd => by
    rw [holds_foldl_remove, and_iff_left hd]

/-- Chunks in and the counter reconciled. -/
theorem Moved.reconciled {holder : ChunkHolder}
    (h : ∀ c, b.holds c = true → holder.hasChunk c = true) :
    Moved b ⟨holder, holder.totalBytes, b.peerChunkCounts⟩ [] where
  exact := fun _ => rfl
  counts := rfl
  kept := fun c hc => iff_of_true (h c hc) List.not_mem_nil

/-- Entering a swap keeps the counter exact if and only if the reservation
of a new chunk is its length. -/
theorem exact_enterIf_iff (h : b.Exact) (swap : Option PendingSwap) :
    (b.enterIf swap).Exact
      ↔ ∀ w, swap = some w → b.holds w.theirChunkId = false →
          w.theirChunkData.length = w.reservedBytes := by
  cases swap with
  | none => exact iff_of_true h fun w hw => by cases hw
  | some w =>
      cases hheld : b.holds w.theirChunkId with
      | true =>
          rw [enterIf_some, enter_held hheld]
          refine iff_of_true h fun w' hw' hnew => ?_
          cases hw'
          rw [hheld] at hnew
          cases hnew
      | false =>
          have hcount : (b.enterIf (some w)).Exact
              ↔ b.currentBytes + w.reservedBytes
                = (b.chunkHolder.addChunk w.theirChunkId w.theirChunkData
                    (Bytes.zero 32)).totalBytes := by
            rw [enterIf_some, enter_new hheld]
            exact Iff.rfl
          rw [hcount, totalBytes_addChunk hheld, show b.currentBytes
            = b.chunkHolder.totalBytes from h, Nat.add_left_cancel_iff]
          constructor
          · intro hlen w' hw' _
            cases hw'
            exact hlen.symm
          · exact fun hlen => (hlen w rfl hheld).symm

end Books

-- ==== what a call does

open Books

variable {S : StoreSetup} {n : StoringNode}

theorem books_afterHandler {α : Type} (handler : Handler α)
    (n : StoringNode) :
    (n.afterHandler handler).books = (handler.post n.transport).books := by
  unfold StoringNode.afterHandler StoringNode.after
  rw [post_onTransport]
  rfl

theorem hasChunk_addChunk_of_held {h : ChunkHolder} {c : ChunkId} (d : ChunkId)
    (data : List UInt8) (contentId : ContentId)
    (hc : h.hasChunk c = true) :
    (h.addChunk d data contentId).hasChunk c = true := by
  show ((h.chunks.insert d data).get c).isSome = true
  rw [FMap.get_insert]
  split
  · rfl
  · exact hc

/-- What a publication stores is stored over what is held. -/
theorem hasChunk_storeContent (P : Prims) (json : Json) (d : PublishDraws)
    (chunks : List EncryptedChunk) (manifest : ContentManifest)
    (s : RunnerState) {c : ChunkId}
    (hc : s.transport.chunkHolder.hasChunk c = true) :
    (storeContent P json d chunks manifest
      s).transport.chunkHolder.hasChunk c = true := by
  have hall : ∀ (ids : List EncryptedChunk) (h : ChunkHolder)
      (cid : ContentId), h.hasChunk c = true →
        (ids.foldl (fun h e => h.addChunk e.id e.data cid) h).hasChunk c
          = true := by
    intro ids
    induction ids with
    | nil => exact fun _ _ h => h
    | cons e ids ih =>
        exact fun h cid hh => ih _ cid (hasChunk_addChunk_of_held _ _ _ hh)
  unfold storeContent
  dsimp only
  split
  · exact hasChunk_addChunk_of_held _ _ _
      (hasChunk_addChunk_of_held _ _ _ (hall _ _ _ hc))
  · exact hasChunk_addChunk_of_held _ _ _ (hall _ _ _ hc)

/-- Publishing stores over what is held and reconciles, or fails or hands
its chunks to a sponsor and leaves the books alone. -/
theorem moved_publish (env : PublishEnv) (d : PublishDraws)
    (fileData : List UInt8) (n : StoringNode) :
    Moved n.books (n.afterPublish S env d fileData).books [] := by
  unfold StoringNode.afterPublish publishContentIn
  by_cases hmode : env.mode = .seedOnly
  · rw [if_pos hmode]
    cases hprepare : prepareContent S.prims S.erasure d fileData with
    | error e => exact Moved.refl n.books
    | ok r =>
        dsimp only
        unfold publishViaSponsor
        dsimp only
        split
        · exact Moved.refl n.books
        · exact Moved.refl n.books
  · rw [if_neg hmode]
    unfold publishContent
    cases hprepare : prepareContent S.prims S.erasure d fileData with
    | error e => exact Moved.refl n.books
    | ok r =>
        exact Moved.reconciled fun c hc => hasChunk_storeContent S.prims
          S.json d r.1 r.2 (keepKeypair S.prims d n.toRunnerState) hc

/-- A repaired chunk is stored if it fits and is new. -/
theorem moved_repaired (now : Nat) (contentId : ContentId)
    (chunkId : ChunkId) (data : List UInt8) (createdAt : Nat)
    (n : NodeState) :
    Moved n.transport.books
      ((storeRepairedChunk now contentId chunkId data
        createdAt).post n).transport.books [] := by
  have hrec := Moved.reconcile n.transport.books
  unfold storeRepairedChunk
  cases hfits : (n.updSpace fun cap => cap.reconcile
      n.transport.chunkHolder.totalBytes).transport.storageCapacity.canAccept
        data.length 0 with
  | false =>
      simp only [post_bind, out_read, post_read, out_atom, post_atom, hfits,
        Bool.not_false, if_true, post_pure]
      exact hrec
  | true =>
      simp only [post_bind, out_read, post_read, out_atom, post_atom, hfits,
        Bool.not_true, Bool.false_eq_true, if_false, post_write, post_pure]
      unfold putRepaired
      split
      next => exact hrec
      next hnew =>
        have hnew' : n.transport.books.holds chunkId = false :=
          Bool.eq_false_iff.2 hnew
        exact hrec.then_record contentId hnew' hnew'

/-- The sections that evict a cached chunk take it out of the books. -/
theorem books_withoutCached (n : NodeState) (lruId : ChunkId) :
    (n.withoutCached lruId).transport.books
      = n.transport.books.remove lruId := rfl

/-- Evicting for a new chunk takes the old one out, and puts the new one in
if it fits then. -/
theorem moved_evictForCache (now : Nat) {chunkId : ChunkId}
    (data : List UInt8) (lruId : ChunkId) (n : NodeState)
    (hnew : n.transport.chunkHolder.hasChunk chunkId = false) :
    Moved n.transport.books
      ((evictForCache now chunkId data lruId).post n).transport.books
      [lruId] := by
  have hout := Moved.remove n.transport.books lruId
  rw [post_evictForCache]
  split
  next =>
    have hnew' : (n.transport.books.remove lruId).holds chunkId
        = false := by
      refine Bool.eq_false_iff.2 fun hheld => ?_
      have hold := (holds_remove.1 hheld).2
      rw [show n.transport.books.holds chunkId = false from hnew] at hold
      cases hold
    exact hout.then_record (Bytes.zero 32) hnew hnew'
  next => exact hout

/-- A caching call stores its chunk, evicts another for it, both or
neither. -/
theorem moved_cache (cfg : NodeConfig) (now : Nat)
    (order : IterOrder ChunkId) (chunkId : ChunkId) (data : List UInt8)
    (n : NodeState) :
    Moved n.transport.books
      ((cacheRetrievedChunk cfg now order chunkId data).post
        n).transport.books
      (if cacheFull cfg chunkId data n then
        (n.rotationState.lruCachedChunk order).toList
      else []) := by
  unfold cacheFull
  by_cases hmode : cfg.mode = .full
  case neg =>
    unfold cacheRetrievedChunk
    rw [if_pos hmode, decide_eq_false hmode]
    exact Moved.refl _
  rw [decide_eq_true hmode]
  cases hcaching : cfg.rotationConfig.enableCaching with
  | false =>
      unfold cacheRetrievedChunk
      rw [if_neg (not_not.2 hmode), hcaching]
      exact Moved.refl _
  | true =>
      cases hnew : n.transport.chunkHolder.hasChunk chunkId with
      | true =>
          rw [post_cache_held hmode hcaching hnew]
          exact Moved.refl _
      | false =>
          cases hfits : n.transport.storageCapacity.canAccept data.length
            0 with
          | true =>
              rw [post_cache_fits hmode hcaching hnew hfits]
              exact Moved.record (Bytes.zero 32) hnew
          | false =>
              rcases Nat.eq_zero_or_pos
                cfg.rotationConfig.maxCachedChunks with hmax | hmax
              · rw [post_cache_full hmode hcaching hnew hfits
                  (Or.inl hmax), hmax]
                exact Moved.refl _
              · rw [decide_eq_true hmax]
                cases hlru : n.rotationState.lruCachedChunk order with
                | none =>
                    rw [post_cache_full hmode hcaching hnew hfits
                      (Or.inr hlru)]
                    exact Moved.refl _
                | some lruId =>
                    rw [post_cache_evicts hmode hcaching hnew hfits hmax
                      hlru]
                    exact moved_evictForCache now data lruId n hnew

/-- The eviction loop takes the chunks of `evictedBy` out. -/
theorem books_evictOldest (order : IterOrder ChunkId) (limit turns : Nat)
    (n : NodeState) :
    ((evictOldest order limit turns).post n).transport.books
      = (evictedBy order limit turns n.rotationState).foldl Books.remove
          n.transport.books := by
  induction turns generalizing n with
  | zero => rfl
  | succ turns ih =>
      unfold evictedBy
      rcases Nat.lt_or_ge limit n.rotationState.cachedChunks.len with
        hover | hwithin
      · obtain ⟨lruId, hlru⟩ := exists_lruCachedChunk order
          (Nat.lt_of_le_of_lt (Nat.zero_le limit) hover)
        rw [post_evictOldest_succ limit turns hover hlru, ih,
          if_neg (Nat.not_le.2 hover), hlru, List.foldl_cons,
          books_withoutCached]
        rfl
      · rw [post_evictOldest_within limit _ hwithin, if_pos hwithin]
        rfl

/-- The eviction takes its chunks out. -/
theorem moved_evict (cfg : NodeConfig) (order : IterOrder ChunkId)
    (n : NodeState) :
    Moved n.transport.books
      ((CacheCall.evict order).step cfg n).transport.books
      ((CacheCall.evict order).evicts cfg n) := by
  show Moved n.transport.books
    ((evictExcessCache order cfg.rotationConfig.maxCachedChunks
      n.rotationState.cachedChunks.len).post n).transport.books
    (if cfg.rotationConfig.maxCachedChunks = 0 then []
      else evictedBy order cfg.rotationConfig.maxCachedChunks
        n.rotationState.cachedChunks.len n.rotationState)
  unfold evictExcessCache
  split
  · exact Moved.refl _
  · rw [books_evictOldest]
    exact Moved.foldl_remove _ _

/-- The removal loop of the sweep. -/
theorem books_dropExpired (ids : List ChunkId) (s : TransportState) :
    ((dropExpired ids).post s).books = ids.foldl Books.remove s.books := by
  induction ids generalizing s with
  | nil => rfl
  | cons c ids ih =>
      unfold dropExpired
      simp only [post_bind, post_atom, out_atom, post_write]
      rw [ih, List.foldl_cons]
      rfl

/-- The sweep takes out the chunks whose leases have lapsed. -/
theorem books_expireChunksOnce (now : Nat) (order : IterOrder ChunkId)
    (s : TransportState) :
    ((expireChunksOnce now order).post s).books
      = (s.leaseManager.getExpiredChunks order now).foldl Books.remove
          s.books := by
  unfold expireChunksOnce
  rw [post_bind, out_read, post_read, post_bind, post_bind, post_write,
    post_pure, ← books_dropExpired]
  rfl

/-- What a call does to the books: it moves chunks without a swap, then
enters the swap it finalizes; the holder a swap is entered in is the one
the call found. -/
theorem StoreCall.books_step (S : StoreSetup) (n : StoringNode)
    (call : StoreCall) :
    ∃ b, Moved n.books b (call.removes S n)
      ∧ (call.step S n).books = b.enterIf (call.completes S n)
      ∧ (call.completes S n ≠ none →
          b.chunkHolder = n.books.chunkHolder) := by
  cases call with
  | publish env d fileData =>
      exact ⟨_, moved_publish env d fileData n, rfl, fun h => absurd rfl h⟩
  | repaired now contentId chunkId data createdAt =>
      exact ⟨_, moved_repaired now contentId chunkId data createdAt _, rfl,
        fun h => absurd rfl h⟩
  | cache call =>
      refine ⟨_, ?_, rfl, fun h => absurd rfl h⟩
      cases call with
      | cache now order chunkId data =>
          exact moved_cache S.config now order chunkId data n.toNodeState
      | evict order => exact moved_evict S.config order n.toNodeState
  | sweep now order =>
      refine ⟨_, Moved.foldl_remove _ n.books, ?_, fun h => absurd rfl h⟩
      exact (books_afterHandler _ n).trans
        (books_expireChunksOnce now order n.transport)
  | finalize pid =>
      refine ⟨n.books, Moved.refl _, ?_, fun _ => rfl⟩
      exact (books_afterHandler _ n).trans (books_finalize pid n.transport)
  | swap e =>
      refine ⟨e.reconciles n.books, ?_, (books_afterHandler _ n).trans
        (StaticNet.books_step S.prims n.transport e), fun _ => ?_⟩
      · cases e with
        | proposal env p => exact Moved.reconcile n.books
        | _ => exact Moved.refl n.books
      · cases e with
        | _ => rfl
  | reject r =>
      exact ⟨n.books, Moved.refl _, books_afterHandler _ n,
        fun h => absurd rfl h⟩

-- ======== concretely

/-- A node whose transport is all that matters of it. -/
def tradingNode (s : TransportState) : StoringNode where
  toNodeState := NodeState.new s
  accounting := AccountingState.new

/-- What it computes with; it caches one chunk at most. -/
def tradingSetup : StoreSetup where
  prims := Prims.plain
  erasure := mirrorCode
  json := unaryJson
  config := cacheOne

theorem step_tradingNode (e : SwapEvent) (s : TransportState) :
    (StoreCall.swap e).step tradingSetup (tradingNode s)
      = tradingNode (e.step Prims.plain s) := by
  unfold StoreCall.step StoringNode.afterHandler StoringNode.after
  dsimp only
  rw [post_onTransport]
  rfl

/-- The accepter's side of a trade: the offer, the chunk, the commit. -/
def acceptedTrade (data : List UInt8) : List StoreCall :=
  [.swap (.proposal (quietEnv 41 200) (offerOf 3)),
    .swap (.retrieval (quietEnv 42 200) (Bytes.fill 32 3) data),
    .swap (.commit (quietEnv 44 200) (commitOf 3))]

/-- Its first two calls, as the node takes them. -/
theorem step_acceptedOffer :
    (StoreCall.swap (.proposal (quietEnv 41 200) (offerOf 3))).step
        tradingSetup (tradingNode crampedNode)
      = tradingNode crampedOpen := by
  rw [step_tradingNode]
  exact congrArg tradingNode post_crampedOpen

theorem step_acceptedChunk {data : List UInt8}
    (hsize : data.length = ENCRYPTED_CHUNK_SIZE) :
    (StoreCall.swap (.retrieval (quietEnv 42 200) (Bytes.fill 32 3)
        data)).step tradingSetup (tradingNode crampedOpen)
      = tradingNode (crampedChunk data) := by
  rw [step_tradingNode]
  exact congrArg tradingNode (post_crampedChunk hsize)

/-- The offered chunk comes first, so it completes nothing. -/
theorem acceptedChunk_completes {data : List UInt8}
    (hsize : data.length = ENCRYPTED_CHUNK_SIZE) :
    (StoreCall.swap (.retrieval (quietEnv 42 200) (Bytes.fill 32 3)
      data)).completes tradingSetup (tradingNode crampedOpen) = none := by
  have hfind : findAwaiting (quietEnv 42 200) (Bytes.fill 32 3) crampedOpen
      = some (accepterEntry Prims.plain (offerOf 3) (Bytes.fill 32 9)
          ENCRYPTED_CHUNK_SIZE 200) := by decide
  show retrievalCompletes Prims.plain (quietEnv 42 200) (Bytes.fill 32 3)
    data crampedOpen = none
  rw [retrievalCompletes_of_find hsize hfind rfl crampedOpen_get]
  rfl

theorem acceptedCommit_auth (data : List UInt8) :
    ((commitOf 3).verifySignature Prims.plain
      && authentic (quietEnv 44 200) (Bytes.fill 16 1) (Bytes.fill 32 1)
        (Bytes.fill 32 3) (crampedChunk data)) = true := by
  rw [authentic_congr (crampedChunk data) crampedNode rfl rfl]
  decide

/-- The commit completes the swap. -/
theorem acceptedCommit_completes (data : List UInt8) :
    (StoreCall.swap (.commit (quietEnv 44 200) (commitOf 3))).completes
        tradingSetup (tradingNode (crampedChunk data))
      = some (crampedEntry data).withCommit := by
  show commitCompletes Prims.plain (quietEnv 44 200) (commitOf 3)
    (crampedChunk data) = _
  rw [commitCompletes_of_get (acceptedCommit_auth data)
    (crampedChunk_get data) rfl]
  rfl

end StaticNet
