/-
Chunk rotation and the chunk cache (`static-storage/src/rotation.rs`):
which chunks were rotated and when, which were cached and when, the
share of the holder an epoch rotates, and the cached chunk to evict.
-/
import StaticNet.Storage.Basic
import Mathlib.Data.List.MinMax

namespace StaticNet

/-- `RotationConfig`. -/
structure RotationConfig where
  enabled : Bool
  epochDurationSecs : Nat
  rotationPercentage : Nat
  enableCaching : Bool
  /-- 0 means unlimited -/
  maxCachedChunks : Nat
  minLeaseRemainingSecs : Nat
deriving DecidableEq

/-- The defaults. -/
def RotationConfig.default : RotationConfig where
  enabled := true
  epochDurationSecs := 86400
  rotationPercentage := 10
  enableCaching := true
  maxCachedChunks := 100
  minLeaseRemainingSecs := 3600

def MAX_ROTATION_HISTORY : Nat := 10000

/-- `RotationState`, without the two counters nothing reads. -/
structure RotationState where
  rotationHistory : FMap ChunkId Nat
  cachedChunks : FMap ChunkId Nat
  lastEpoch : Nat

namespace RotationState

def new : RotationState := ⟨∅, ∅, 0⟩

/-- `record_rotation`: an arbitrary entry makes room at the bound. -/
def recordRotation (st : RotationState) (order : IterOrder ChunkId)
    (chunkId : ChunkId) (currentTime : Nat) : RotationState :=
  let history :=
    if MAX_ROTATION_HISTORY ≤ st.rotationHistory.len then
      match (order.iter st.rotationHistory.keys).head? with
      | some k => st.rotationHistory.erase k
      | none => st.rotationHistory
    else st.rotationHistory
  { st with rotationHistory := history.insert chunkId currentTime }

def recordCache (st : RotationState) (chunkId : ChunkId)
    (currentTime : Nat) : RotationState :=
  { st with cachedChunks := st.cachedChunks.insert chunkId currentTime }

def removeCache (st : RotationState) (chunkId : ChunkId) :
    RotationState :=
  { st with cachedChunks := st.cachedChunks.erase chunkId }

def wasRecentlyRotated (st : RotationState) (chunkId : ChunkId)
    (currentTime epochDuration : Nat) : Bool :=
  (st.rotationHistory.get chunkId).any fun rotationTime =>
    currentTime - rotationTime < epochDuration

/-- `select_chunks_for_rotation`: a percentage of the chunks that were
not rotated this epoch, in the order the shuffle puts them. -/
def selectChunksForRotation (st : RotationState)
    (shuffle : List ChunkId → List ChunkId) (allChunks : List ChunkId)
    (config : RotationConfig) (currentTime : Nat) : List ChunkId :=
  let eligible := shuffle (allChunks.filter fun c =>
    !st.wasRecentlyRotated c currentTime config.epochDurationSecs)
  let pct := min config.rotationPercentage 100
  eligible.take (eligible.length * pct / 100)

/-- `lru_cached_chunk`: the oldest cached chunk. -/
def lruCachedChunk (st : RotationState) (order : IterOrder ChunkId) :
    Option ChunkId :=
  (order.iter st.cachedChunks.keys).argmin
    fun c => (st.cachedChunks.get c).getD 0

/-- The chunk to evict is a cached one. -/
theorem lruCachedChunk_mem {st : RotationState} {order : IterOrder ChunkId}
    {c : ChunkId} (h : st.lruCachedChunk order = some c) :
    c ∈ st.cachedChunks.keys := by
  have hmem := List.argmin_mem h
  exact (order.mem_iter _ c).1 hmem

end RotationState

end StaticNet
