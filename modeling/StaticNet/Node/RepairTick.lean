/-
The repair tick (`run_repair_tick` in `static-node/src/runner.rs`) and the
health check it decides by (`static-storage/src/repair.rs`).

The tick looks at the owned contents in the order the lease table yields
them, and at the first `MAX_REPAIRS_PER_TICK` of them only. What it returns
here besides the state is the contents it started a repair of.
-/
import StaticNet.Node.Repair

namespace StaticNet

open Proc NodeState

/-- Copies a chunk needs to count as healthy. -/
def MIN_CHUNK_COPIES : Nat := 3

def MAX_REPAIRS_PER_TICK : Nat := 1

-- ============ health

structure ChunkHealth where
  chunkId : ChunkId
  copyCount : Nat
  needsRepair : Bool

structure ContentHealth where
  contentId : ContentId
  chunkHealth : List ChunkHealth
  isHealthy : Bool
  isRecoverable : Bool

/-- The health of one chunk, from the copies reported. -/
def chunkHealthOf (copyCounts : FMap ChunkId Nat) (chunkId : ChunkId) :
    ChunkHealth :=
  let count := (copyCounts.get chunkId).getD 0
  ⟨chunkId, count, count < MIN_CHUNK_COPIES⟩

def checkContentHealth (contentId : ContentId) (manifest : ContentManifest)
    (copyCounts : FMap ChunkId Nat) : ContentHealth :=
  let chunkHealth := manifest.chunkIds.map (chunkHealthOf copyCounts)
  { contentId := contentId
    chunkHealth := chunkHealth
    isHealthy := chunkHealth.all fun h => !h.needsRepair
    isRecoverable :=
      manifest.dataShards ≤ chunkHealth.countP fun h => 0 < h.copyCount }

def getChunksNeedingRepair (health : ContentHealth) : List ChunkId :=
  (health.chunkHealth.filter ChunkHealth.needsRepair).map
    ChunkHealth.chunkId

-- ====== repair state

structure RepairPlan where
  contentId : ContentId
  chunksToReconstruct : List ChunkId
  chunksToRedistribute : List ChunkId
  targetCopies : Nat

def createRepairPlan (health : ContentHealth) (manifest : ContentManifest) :
    Option RepairPlan :=
  if health.isHealthy then none
  else if !health.isRecoverable then none
  else
    some
      { contentId := health.contentId
        chunksToReconstruct := getChunksNeedingRepair health
        chunksToRedistribute := manifest.chunkIds
        targetCopies := MIN_CHUNK_COPIES }

structure RepairState where
  activeRepairs : FMap ContentId RepairPlan
  completedRepairs : List ContentId
  failedRepairs : List ContentId

namespace RepairState

def new : RepairState := ⟨∅, [], []⟩

def startRepair (r : RepairState) (plan : RepairPlan) : RepairState :=
  { r with activeRepairs := r.activeRepairs.insert plan.contentId plan }

def completeRepair (r : RepairState) (contentId : ContentId) :
    RepairState :=
  { r with
    activeRepairs := r.activeRepairs.erase contentId
    completedRepairs := r.completedRepairs ++ [contentId] }

def failRepair (r : RepairState) (contentId : ContentId) : RepairState :=
  { r with
    activeRepairs := r.activeRepairs.erase contentId
    failedRepairs := r.failedRepairs ++ [contentId] }

def isBeingRepaired (r : RepairState) (contentId : ContentId) : Bool :=
  r.activeRepairs.contains contentId

end RepairState

-- ============= ticks

/-- A node with its repair state. -/
structure RepairNode where
  node : NodeState
  repairs : RepairState

/-- What a tick meets: the order of the owned contents, and what the repair
of each of them meets. -/
structure TickEnv where
  order : IterOrder ContentId
  repair : ContentId → RepairEnv

/-- Count the chunks one registry knows, once per listing. -/
def countKnown (knows : ChunkId → Bool) (ids : List ChunkId)
    (copyCounts : FMap ChunkId Nat) : FMap ChunkId Nat :=
  ids.foldl (fun m c =>
    if knows c then m.insert c ((m.get c).getD 0 + 1) else m) copyCounts

/-- The copy counts of a tick: the holder, the swap partners, the host
buffer. -/
def copyCountsOf (manifest : ContentManifest) (n : NodeState) :
    FMap ChunkId Nat :=
  countKnown (fun c => (n.hostBuffer.buffer.get c).isSome)
    manifest.chunkIds
    (countKnown n.transport.swapState.activeSwaps.contains
      manifest.chunkIds
      (countKnown n.transport.chunkHolder.hasChunk manifest.chunkIds ∅))

/-- One content's turn, and whether its repair was started. -/
def repairOwned (P : Prims) (rr : ErasureRepair) (env : TickEnv)
    (contentId : ContentId) (st : RepairNode) : RepairNode × Bool :=
  match st.node.manifests.get contentId with
  | none => (st, false)
  | some manifest =>
      if st.repairs.isBeingRepaired contentId then (st, false)
      else
        let health := checkContentHealth contentId manifest
          (copyCountsOf manifest st.node)
        if health.isHealthy then (st, false)
        else if !health.isRecoverable then (st, false)
        else
          match createRepairPlan health manifest with
          | none => (st, false)
          | some plan =>
              let repairs := st.repairs.startRepair plan
              let repair :=
                repairContentOnce P rr (env.repair contentId) manifest
              match repair.out st.node with
              | .ok _ =>
                  (⟨repair.post st.node, repairs.completeRepair contentId⟩,
                    true)
              | .error _ =>
                  (⟨repair.post st.node, repairs.failRepair contentId⟩,
                    true)

/-- The contents of a tick in turn, and those whose repair was started. -/
def repairEach (P : Prims) (rr : ErasureRepair) (env : TickEnv) :
    List ContentId → RepairNode → RepairNode × List ContentId
  | [], st => (st, [])
  | contentId :: rest, st =>
      let turn := repairOwned P rr env contentId st
      let later := repairEach P rr env rest turn.1
      (later.1, (if turn.2 then [contentId] else []) ++ later.2)

def runRepairTick (P : Prims) (rr : ErasureRepair) (env : TickEnv)
    (st : RepairNode) : RepairNode × List ContentId :=
  if st.node.contentRetriever.pending.len ≠ 0 then (st, [])
  else
    repairEach P rr env
      ((env.order.iter
        st.node.transport.leaseManager.contentChunks.keys).take
          MAX_REPAIRS_PER_TICK) st

end StaticNet
