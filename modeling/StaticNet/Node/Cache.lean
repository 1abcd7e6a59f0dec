/-
The chunk cache over a run (`static-node/src/runner.rs`): what a call of
`cache_retrieved_chunk` leaves in the holder, in the list of cached chunks
and in the byte count, and what `evict_excess_cache` makes of the list.

# Two limits

The bytes are checked before a chunk is stored, the number of cached
chunks is not: `evict_excess_cache` brings it down in its own time. And
the slow path evicts first and looks afterwards, so a chunk that does not
fit even then costs another one. A run of the two functions keeps its
word exactly when no call meets either case (`cache_insertion_iff`).
-/
import StaticNet.Lib.Exact
import StaticNet.Node.Basic

namespace StaticNet

open Proc NodeState

-- ============= calls

/-- A call of one of the two functions, with the clock and the order of
the table it reads. -/
inductive CacheCall
  | cache (now : Nat) (order : IterOrder ChunkId) (chunkId : ChunkId)
      (data : List UInt8)
  | evict (order : IterOrder ChunkId)

/-- The node after a call. The eviction takes as many turns as there are
cached chunks, and needs no more (`evictOldest_within`). -/
def CacheCall.step (cfg : NodeConfig) (n : NodeState) :
    CacheCall → NodeState
  | cache now order c data =>
      (cacheRetrievedChunk cfg now order c data).post n
  | evict order =>
      (evictExcessCache order cfg.rotationConfig.maxCachedChunks
        n.rotationState.cachedChunks.len).post n

/-- The length of a chunk in the holder, 0 if it is not there. -/
def NodeState.heldLen (n : NodeState) (c : ChunkId) : Nat :=
  ((n.transport.chunkHolder.getChunk c).map List.length).getD 0

/-- Nothing of the three has changed. -/
structure CacheSame (n n' : NodeState) : Prop where
  chunks : n'.transport.chunkHolder = n.transport.chunkHolder
  cached : n'.rotationState.cachedChunks = n.rotationState.cachedChunks
  bytes : n'.transport.storageCapacity.currentBytes
    = n.transport.storageCapacity.currentBytes

/-- The chunk is stored, listed and counted, and all else is as before
but for `gone`, another chunk or none, which is in none of the three. -/
structure CacheAdded (n n' : NodeState) (c : ChunkId) (data : List UInt8)
    (gone : Option ChunkId) : Prop where
  stored : n'.transport.chunkHolder.getChunk c = some data
  listed : n'.rotationState.cachedChunks.contains c = true
  counted : n'.transport.storageCapacity.currentBytes
    = n.transport.storageCapacity.currentBytes
      - (gone.map n.heldLen).getD 0 + data.length
  another : gone ≠ some c
  chunks : ∀ d, d ≠ c → n'.transport.chunkHolder.getChunk d
    = if gone = some d then none
      else n.transport.chunkHolder.getChunk d
  cached : ∀ d, d ≠ c → n'.rotationState.cachedChunks.get d
    = if gone = some d then none
      else n.rotationState.cachedChunks.get d

/-- A caching call changes nothing or adds its chunk. -/
def CacheCall.Transactional (n n' : NodeState) : CacheCall → Prop
  | cache _ _ c data => CacheSame n n' ∨ ∃ gone, CacheAdded n n' c data gone
  | evict _ => True

/-- The cached chunks are held, and within their limit where there is
one. -/
structure CacheBounded (cfg : NodeConfig) (n : NodeState) : Prop where
  held : ∀ c ∈ n.rotationState.cachedChunks.keys,
    n.transport.chunkHolder.hasChunk c = true
  within : 0 < cfg.rotationConfig.maxCachedChunks →
    n.rotationState.cachedChunks.len ≤ cfg.rotationConfig.maxCachedChunks

/-- What a caching call needs of the state it finds: where its bytes fit,
a free place on the list; where they do not, and something is evicted,
enough room after that. -/
def CacheCall.HasRoom (cfg : NodeConfig) (n : NodeState) :
    CacheCall → Prop
  | cache _ order c data =>
      n.transport.chunkHolder.hasChunk c = false →
        (n.transport.storageCapacity.canAccept data.length 0 = true →
          0 < cfg.rotationConfig.maxCachedChunks →
            n.rotationState.cachedChunks.len
              < cfg.rotationConfig.maxCachedChunks)
        ∧ (n.transport.storageCapacity.canAccept data.length 0 = false →
          0 < cfg.rotationConfig.maxCachedChunks →
            ∀ lruId, n.rotationState.lruCachedChunk order = some lruId →
              (n.transport.storageCapacity.recordRemove
                (n.heldLen lruId)).canAccept data.length 0 = true)
  | evict _ => True

-- ====== the sections

/-- The node after the sections that store a chunk. -/
def NodeState.withCached (n : NodeState) (now : Nat) (c : ChunkId)
    (data : List UInt8) : NodeState :=
  ((n.updHolder fun h => h.addChunk c data (Bytes.zero 32)).updSpace
    fun cap => cap.recordAccept data.length).updRotation
      fun st => st.recordCache c now

/-- The node after the sections that evict one. -/
def NodeState.withoutCached (n : NodeState) (lruId : ChunkId) : NodeState :=
  ((n.updHolder fun h => h.removeChunk lruId).updRotation
    fun st => st.removeCache lruId).updSpace
      fun cap => cap.recordRemove (n.heldLen lruId)

variable {cfg : NodeConfig} {n : NodeState} {t : Nat}
  {order : IterOrder ChunkId} {c lruId : ChunkId} {data : List UInt8}

theorem post_storeCached :
    (storeCached t c data).post n = n.withCached t c data := rfl

theorem post_evictForCache :
    (evictForCache t c data lruId).post n
      = if (n.transport.storageCapacity.recordRemove
          (n.heldLen lruId)).canAccept data.length 0 = true
        then (n.withoutCached lruId).withCached t c data
        else n.withoutCached lruId := by
  unfold evictForCache
  simp only [post_bind, out_read, post_read, post_write]
  show ((if (n.transport.storageCapacity.recordRemove
      (n.heldLen lruId)).canAccept data.length 0 = true
    then storeCached t c data else pure ()).post
      (n.withoutCached lruId)) = _
  by_cases hfits : (n.transport.storageCapacity.recordRemove
      (n.heldLen lruId)).canAccept data.length 0 = true
  · rw [if_pos hfits, if_pos hfits]
    rfl
  · rw [if_neg hfits, if_neg hfits]
    rfl

section Post

variable (hmode : cfg.mode = .full)
  (hcaching : cfg.rotationConfig.enableCaching = true)

include hmode hcaching

/-- A chunk that is held is left alone. -/
theorem post_cache_held
    (hheld : n.transport.chunkHolder.hasChunk c = true) :
    (cacheRetrievedChunk cfg t order c data).post n = n := by
  unfold cacheRetrievedChunk
  rw [if_neg (not_not.2 hmode)]
  simp only [hcaching, Bool.not_true, Bool.false_eq_true, if_false,
    post_bind, out_read, post_read, hheld, if_true, post_pure]

/-- The fast path. -/
theorem post_cache_fits
    (hnew : n.transport.chunkHolder.hasChunk c = false)
    (hfits : n.transport.storageCapacity.canAccept data.length 0 = true) :
    (cacheRetrievedChunk cfg t order c data).post n
      = n.withCached t c data := by
  unfold cacheRetrievedChunk
  rw [if_neg (not_not.2 hmode)]
  simp only [hcaching, Bool.not_true, Bool.false_eq_true, if_false,
    post_bind, out_read, post_read, hnew, hfits, if_true]
  exact post_storeCached

/-- The slow path without a limit, or with nothing to evict. -/
theorem post_cache_full
    (hnew : n.transport.chunkHolder.hasChunk c = false)
    (hfull : n.transport.storageCapacity.canAccept data.length 0 = false)
    (hnone : cfg.rotationConfig.maxCachedChunks = 0
      ∨ n.rotationState.lruCachedChunk order = none) :
    (cacheRetrievedChunk cfg t order c data).post n = n := by
  unfold cacheRetrievedChunk
  rw [if_neg (not_not.2 hmode)]
  simp only [hcaching, Bool.not_true, Bool.false_eq_true, if_false,
    post_bind, out_read, post_read, hnew, hfull]
  by_cases hmax : cfg.rotationConfig.maxCachedChunks = 0
  · rw [if_pos hmax, post_pure]
  · rw [if_neg hmax]
    simp only [post_bind, out_read, post_read, hnone.resolve_left hmax,
      post_pure]

/-- The slow path with something to evict. -/
theorem post_cache_evicts
    (hnew : n.transport.chunkHolder.hasChunk c = false)
    (hfull : n.transport.storageCapacity.canAccept data.length 0 = false)
    (hmax : 0 < cfg.rotationConfig.maxCachedChunks)
    (hlru : n.rotationState.lruCachedChunk order = some lruId) :
    (cacheRetrievedChunk cfg t order c data).post n
      = (evictForCache t c data lruId).post n := by
  unfold cacheRetrievedChunk
  rw [if_neg (not_not.2 hmode)]
  simp only [hcaching, Bool.not_true, Bool.false_eq_true, if_false,
    post_bind, out_read, post_read, hnew, hfull, hlru,
    Nat.pos_iff_ne_zero.1 hmax]

end Post

-- ====== what they do

/-- On the fast path nothing else goes. -/
theorem withCached_added (n : NodeState) (t : Nat) (c : ChunkId)
    (data : List UInt8) : CacheAdded n (n.withCached t c data) c data none where
  stored := FMap.get_insert_self _ _ _
  listed := (FMap.contains_eq_true _ _).2 ⟨t, FMap.get_insert_self _ _ _⟩
  counted := rfl
  another := nofun
  chunks := fun _ hne => FMap.get_insert_ne _ _ hne
  cached := fun _ hne => FMap.get_insert_ne _ _ hne

/-- On the slow path the evicted chunk goes from all three. -/
theorem withoutCached_added (n : NodeState) (t : Nat) (data : List UInt8)
    (hne : lruId ≠ c) :
    CacheAdded n ((n.withoutCached lruId).withCached t c data) c data
      (some lruId) where
  stored := FMap.get_insert_self _ _ _
  listed := (FMap.contains_eq_true _ _).2 ⟨t, FMap.get_insert_self _ _ _⟩
  counted := rfl
  another := fun h => hne (Option.some.inj h)
  chunks := fun d hd => by
    have hget : ((n.withoutCached lruId).withCached t c
        data).transport.chunkHolder.getChunk d
        = (n.transport.chunkHolder.chunks.erase lruId).get d :=
      FMap.get_insert_ne _ _ hd
    rw [hget, FMap.get_erase]
    simp only [Option.some.injEq, eq_comm (a := d)]
    rfl
  cached := fun d hd => by
    have hget : ((n.withoutCached lruId).withCached t c
        data).rotationState.cachedChunks.get d
        = (n.rotationState.cachedChunks.erase lruId).get d :=
      FMap.get_insert_ne _ _ hd
    rw [hget, FMap.get_erase]
    simp only [Option.some.injEq, eq_comm (a := d)]

/-- Storing keeps the cached chunks among the held. -/
theorem held_withCached
    (h : ∀ d ∈ n.rotationState.cachedChunks.keys,
      n.transport.chunkHolder.hasChunk d = true) :
    ∀ d ∈ (n.withCached t c data).rotationState.cachedChunks.keys,
      (n.withCached t c data).transport.chunkHolder.hasChunk d = true := by
  intro d hd
  show (n.transport.chunkHolder.chunks.insert c data).contains d = true
  rcases Finset.mem_insert.1 hd with rfl | hd
  · simp [FMap.contains]
  · by_cases heq : d = c
    · simp [FMap.contains, heq]
    · have hold := h d hd
      unfold FMap.contains
      rw [FMap.get_insert_ne _ _ heq]
      exact hold

/-- And so does evicting. -/
theorem held_withoutCached (lruId : ChunkId)
    (h : ∀ d ∈ n.rotationState.cachedChunks.keys,
      n.transport.chunkHolder.hasChunk d = true) :
    ∀ d ∈ (n.withoutCached lruId).rotationState.cachedChunks.keys,
      (n.withoutCached lruId).transport.chunkHolder.hasChunk d = true := by
  intro d hd
  obtain ⟨hne, hd⟩ := Finset.mem_erase.1 hd
  show (n.transport.chunkHolder.chunks.erase lruId).contains d = true
  unfold FMap.contains
  rw [FMap.get_erase_ne _ hne]
  exact h d hd

/-- A chunk that is not held is not listed, so storing it makes the list
longer by one. -/
theorem len_withCached
    (h : n.rotationState.cachedChunks.contains c = false) :
    (n.withCached t c data).rotationState.cachedChunks.len
      = n.rotationState.cachedChunks.len + 1 :=
  FMap.len_insert_of_absent _ h

theorem len_withoutCached
    (h : lruId ∈ n.rotationState.cachedChunks.keys) :
    (n.withoutCached lruId).rotationState.cachedChunks.len + 1
      = n.rotationState.cachedChunks.len :=
  FMap.len_erase_of_contains ((FMap.contains_eq_true _ _).2
    ((FMap.mem_keys_iff _ _).1 h))

theorem not_listed_of_not_held
    (h : ∀ d ∈ n.rotationState.cachedChunks.keys,
      n.transport.chunkHolder.hasChunk d = true)
    (hnew : n.transport.chunkHolder.hasChunk c = false) :
    n.rotationState.cachedChunks.contains c = false := by
  rw [FMap.contains_eq_false]
  intro hmem
  rw [h c hmem] at hnew
  cases hnew

-- ========== eviction

/-- One turn of the loop. -/
theorem post_evictOldest_succ (limit turns : Nat)
    (hover : limit < n.rotationState.cachedChunks.len)
    (hlru : n.rotationState.lruCachedChunk order = some lruId) :
    (evictOldest order limit (turns + 1)).post n
      = (evictOldest order limit turns).post (n.withoutCached lruId) := by
  rw [evictOldest]
  simp only [post_bind, out_read, post_read, Nat.not_le.2 hover, if_false,
    hlru]
  rfl

theorem post_evictOldest_within (limit turns : Nat)
    (hwithin : n.rotationState.cachedChunks.len ≤ limit) :
    (evictOldest order limit turns).post n = n := by
  cases turns with
  | zero => rfl
  | succ turns =>
      rw [evictOldest]
      simp only [post_bind, out_read, post_read, hwithin, if_true, post_pure]

/-- There is something to evict as long as something is cached. -/
theorem exists_lruCachedChunk (order : IterOrder ChunkId)
    (h : 0 < n.rotationState.cachedChunks.len) :
    ∃ lruId, n.rotationState.lruCachedChunk order = some lruId := by
  refine Option.ne_none_iff_exists'.1 fun hnone => ?_
  have hempty := List.argmin_eq_none.1 hnone
  obtain ⟨c, hc⟩ := Finset.card_pos.1 h
  have hmem := (order.mem_iter _ c).2 hc
  rw [hempty] at hmem
  cases hmem

/-- As many turns as there are cached chunks bring the list within its
limit, and what is left of it is held. -/
theorem evictOldest_within (order : IterOrder ChunkId) (limit turns : Nat)
    (hturns : n.rotationState.cachedChunks.len ≤ turns)
    (h : ∀ d ∈ n.rotationState.cachedChunks.keys,
      n.transport.chunkHolder.hasChunk d = true) :
    ((evictOldest order limit turns).post
        n).rotationState.cachedChunks.len ≤ limit
      ∧ ∀ d ∈ ((evictOldest order limit turns).post
          n).rotationState.cachedChunks.keys,
        ((evictOldest order limit turns).post
          n).transport.chunkHolder.hasChunk d = true := by
  induction turns generalizing n with
  | zero =>
      have hempty : n.rotationState.cachedChunks.len = 0 :=
        Nat.le_zero.1 hturns
      exact ⟨hempty.le.trans (Nat.zero_le limit), h⟩
  | succ turns ih =>
      rcases Nat.lt_or_ge limit n.rotationState.cachedChunks.len with
        hover | hwithin
      · obtain ⟨lruId, hlru⟩ := exists_lruCachedChunk order
          (Nat.lt_of_le_of_lt (Nat.zero_le limit) hover)
        have hlen := len_withoutCached
          (RotationState.lruCachedChunk_mem hlru)
        rw [post_evictOldest_succ limit turns hover hlru]
        exact ih (by omega) (held_withoutCached lruId h)
      · rw [post_evictOldest_within limit _ hwithin]
        exact ⟨hwithin, h⟩

-- ============ a call

section Call

variable (hmode : cfg.mode = .full)
  (hcaching : cfg.rotationConfig.enableCaching = true)

include hmode hcaching

/-- A call with room is a transaction and keeps the bounds. -/
theorem step_of_hasRoom {call : CacheCall} (hn : CacheBounded cfg n)
    (hroom : call.HasRoom cfg n) :
    call.Transactional n (call.step cfg n)
      ∧ CacheBounded cfg (call.step cfg n) := by
  have hsame : CacheSame n n := ⟨rfl, rfl, rfl⟩
  cases call with
  | evict order =>
      refine ⟨trivial, ?_⟩
      show CacheBounded cfg ((evictExcessCache order _ _).post n)
      unfold evictExcessCache
      by_cases hmax : cfg.rotationConfig.maxCachedChunks = 0
      · rw [if_pos hmax]
        exact hn
      · rw [if_neg hmax]
        obtain ⟨hlen, hheld⟩ := evictOldest_within order
          cfg.rotationConfig.maxCachedChunks _ (le_refl _) hn.held
        exact ⟨hheld, fun _ => hlen⟩
  | cache t order c data =>
      show (CacheSame n ((cacheRetrievedChunk cfg t order c data).post n)
          ∨ ∃ gone, CacheAdded n
            ((cacheRetrievedChunk cfg t order c data).post n) c data gone)
        ∧ CacheBounded cfg ((cacheRetrievedChunk cfg t order c data).post n)
      cases hnew : n.transport.chunkHolder.hasChunk c with
      | true =>
          rw [post_cache_held hmode hcaching hnew]
          exact ⟨Or.inl hsame, hn⟩
      | false =>
          have hunlisted := not_listed_of_not_held hn.held hnew
          obtain ⟨hplace, hspace⟩ := hroom hnew
          cases hfits : n.transport.storageCapacity.canAccept data.length
            0 with
          | true =>
              rw [post_cache_fits hmode hcaching hnew hfits]
              refine ⟨Or.inr ⟨none, withCached_added n t c data⟩,
                held_withCached hn.held, fun hmax => ?_⟩
              rw [len_withCached hunlisted]
              exact hplace hfits hmax
          | false =>
              rcases Nat.eq_zero_or_pos cfg.rotationConfig.maxCachedChunks
                with hmax | hmax
              · rw [post_cache_full hmode hcaching hnew hfits (.inl hmax)]
                exact ⟨Or.inl hsame, hn⟩
              cases hlru : n.rotationState.lruCachedChunk order with
              | none =>
                  rw [post_cache_full hmode hcaching hnew hfits
                    (.inr hlru)]
                  exact ⟨Or.inl hsame, hn⟩
              | some lruId =>
                  have hmem := RotationState.lruCachedChunk_mem hlru
                  have hne : lruId ≠ c := by
                    rintro rfl
                    rw [hn.held lruId hmem] at hnew
                    cases hnew
                  have hheld := held_withoutCached lruId hn.held
                  have hgone : (n.withoutCached
                      lruId).rotationState.cachedChunks.contains c
                        = false := by
                    rw [FMap.contains_eq_false] at hunlisted ⊢
                    exact fun h => hunlisted (Finset.mem_of_mem_erase h)
                  rw [post_cache_evicts hmode hcaching hnew hfits hmax hlru,
                    post_evictForCache,
                    if_pos (hspace hfits hmax lruId hlru)]
                  refine ⟨Or.inr ⟨some lruId,
                    withoutCached_added n t data hne⟩,
                    held_withCached hheld, fun hmax => ?_⟩
                  rw [len_withCached hgone, len_withoutCached hmem]
                  exact hn.within hmax

/-- A call without room leaves the list too long or has evicted for
nothing. -/
theorem not_step_of_not_hasRoom {call : CacheCall}
    (hn : CacheBounded cfg n) (hroom : ¬call.HasRoom cfg n) :
    ¬(call.Transactional n (call.step cfg n)
      ∧ CacheBounded cfg (call.step cfg n)) := by
  cases call with
  | evict order => exact absurd trivial hroom
  | cache t order c data =>
      rintro ⟨htrans, hbounded⟩
      apply hroom
      intro hnew
      have hunlisted := not_listed_of_not_held hn.held hnew
      have htrans : CacheSame n
          ((cacheRetrievedChunk cfg t order c data).post n)
        ∨ ∃ gone, CacheAdded n
          ((cacheRetrievedChunk cfg t order c data).post n) c data gone :=
        htrans
      have hbounded : CacheBounded cfg
          ((cacheRetrievedChunk cfg t order c data).post n) := hbounded
      constructor
      · intro hfits hmax
        rw [post_cache_fits hmode hcaching hnew hfits] at hbounded
        have hlen := hbounded.within hmax
        rw [len_withCached hunlisted] at hlen
        exact hlen
      · intro hfull hmax lruId hlru
        have hmem := RotationState.lruCachedChunk_mem hlru
        by_contra hshort
        rw [post_cache_evicts hmode hcaching hnew hfull hmax hlru,
          post_evictForCache, if_neg hshort] at htrans
        rcases htrans with hsame | ⟨gone, hadded⟩
        · -- the evicted chunk is gone from the list
          have hin := len_withoutCached hmem
          rw [hsame.cached] at hin
          omega
        · -- the new one never came
          have hstored := hadded.stored
          have hgone : (n.withoutCached
              lruId).transport.chunkHolder.getChunk c = none := by
            have hnone : n.transport.chunkHolder.chunks.get c = none := by
              simpa [ChunkHolder.hasChunk, FMap.contains] using hnew
            show (n.transport.chunkHolder.chunks.erase lruId).get c = none
            rw [FMap.get_erase, hnone, ite_self]
          rw [hgone] at hstored
          cases hstored

end Call

-- ============= a run

/-- On a full node that caches, every call of a run is a transaction and
leaves the cached chunks held and within their limit, exactly when every
caching call finds room in the state before it: a free place on the list
where its bytes fit, and where they do not, enough of them once the oldest
cached chunk is gone. -/
theorem cache_insertion_iff (cfg : NodeConfig) (n : NodeState)
    (calls : List CacheCall) (hmode : cfg.mode = .full)
    (hcaching : cfg.rotationConfig.enableCaching = true)
    (hn : CacheBounded cfg n) :
    Exact.Along (CacheCall.step cfg)
        (fun n call => call.Transactional n (call.step cfg n)) n calls
      ∧ Exact.Always (CacheCall.step cfg) (CacheBounded cfg) n calls
      ↔ Exact.Along (CacheCall.step cfg) (fun n call => call.HasRoom cfg n)
        n calls :=
  Exact.along_and_always_iff
    (fun _ _ hI => ⟨fun h => Classical.byContradiction fun hroom =>
        not_step_of_not_hasRoom hmode hcaching hI hroom h,
      step_of_hasRoom hmode hcaching hI⟩) hn

-- ======== concretely

/-- A node with room for four bytes. -/
def fourBytes : NodeState :=
  .new (freshNode (Bytes.fill 16 2) (Bytes.fill 32 2) ChunkHolder.new 4)

/-- One cached chunk at most. -/
def cacheOne : NodeConfig :=
  ⟨.full, { RotationConfig.default with maxCachedChunks := 1 }⟩

/-- A retrieved chunk with these bytes. -/
def cacheCall (id : UInt8) (now : Nat) (data : List UInt8) : CacheCall :=
  .cache now IterOrder.bytewise (Bytes.fill 32 id) data

theorem fourBytes_bounded : CacheBounded cacheOne fourBytes :=
  ⟨fun c hc => absurd hc (Finset.notMem_empty c), fun _ => by decide⟩

/-- Caching with room, and an eviction. -/
theorem cache_insertion_one :
    Exact.Always (CacheCall.step cacheOne) (CacheBounded cacheOne) fourBytes
      [cacheCall 1 10 [1, 2], .evict IterOrder.bytewise] := by
  refine ((cache_insertion_iff cacheOne fourBytes
    [cacheCall 1 10 [1, 2], .evict IterOrder.bytewise] rfl rfl
    fourBytes_bounded).2 ⟨fun _ => ⟨fun _ _ => ?_, fun hfull => ?_⟩,
      trivial, trivial⟩).2
  · decide
  · exact absurd hfull (by decide)

/-- A chunk that fits nowhere costs the cached one; and a second small one
is one too many. -/
theorem cache_insertion_not_transactional :
    CacheBounded cacheOne fourBytes
      ∧ ¬Exact.Along (CacheCall.step cacheOne)
        (fun n call => call.Transactional n (call.step cacheOne n)) fourBytes
        [cacheCall 1 10 [1], cacheCall 2 20 [1, 2, 3, 4, 5]]
      ∧ ¬Exact.Always (CacheCall.step cacheOne) (CacheBounded cacheOne)
        fourBytes [cacheCall 1 10 [1], cacheCall 2 20 [1]] := by
  refine ⟨fourBytes_bounded, fun h => ?_, fun h => ?_⟩
  · rcases h.2.1 with hsame | ⟨gone, hadded⟩
    · have hlen := congrArg FMap.len hsame.cached
      exact absurd hlen (by decide)
    · have hstored := hadded.stored
      exact absurd hstored (by decide)
  · exact absurd (h.last.within (by decide)) (by decide)

end StaticNet
