/-
Repair of a damaged content item (`repair_content_once` in
`static-node/src/runner.rs`): reseed from the host buffer, fetch what is
missing, reconstruct the rest, store it.

While shards are awaited other tasks run, so the wait is a loop of
sections that only look at the retriever.
-/
import StaticNet.Node.Basic

namespace StaticNet

open Proc NodeState

-- =========== storing

/-- `ChunkMetadata::refresh`. -/
def ChunkMetadata.refresh (m : ChunkMetadata) (now : Nat) :
    ChunkMetadata :=
  { m with isFresh := decide (now - m.createdAt < STALENESS_THRESHOLD_SECS) }

/-- What the holder section of `store_repaired_chunk` does; the capacity
guard is taken inside the holder's. -/
def putRepaired (contentId : ContentId) (chunkId : ChunkId)
    (data : List UInt8) (n : NodeState) : NodeState :=
  if n.transport.chunkHolder.hasChunk chunkId then n
  else
    (n.updHolder fun h => h.addChunk chunkId data contentId).updSpace
      fun cap => cap.recordAccept data.length

def storeRepairedChunk (now : Nat) (contentId : ContentId)
    (chunkId : ChunkId) (data : List UInt8) (createdAt : Nat) :
    Task Bool := do
  let actual ← read (.transport .holder) fun n =>
    n.transport.chunkHolder.totalBytes
  let fits ← atom (.transport .capacity) fun n =>
    let n := n.updSpace fun cap => cap.reconcile actual
    (n.transport.storageCapacity.canAccept data.length 0, n)
  if !fits then pure false
  else
    write (.transport .holder) (putRepaired contentId chunkId data)
    write .metadata fun n =>
      { n with
        chunkMetadata := n.chunkMetadata.insert chunkId
          (((n.chunkMetadata.get chunkId).getD
            (ChunkMetadata.fresh createdAt)).refresh now) }
    pure true

/-- The last section of `publish_content`: the metadata of the published
chunks starts anew. -/
def stampPublished (now : Nat) (chunkIds : List ChunkId) : Task Unit :=
  write .metadata fun n =>
    { n with
      chunkMetadata := chunkIds.foldl
        (fun m id => m.insert id (ChunkMetadata.fresh now))
        n.chunkMetadata }

-- ========== fetching

/-- What a repair meets outside the node: the peers it asks, whether a
reply session can be opened, how often it looks at the retriever before
the deadline, the order of the pending table and the clock. -/
structure RepairEnv where
  peers : List NodeId
  replySession : Bool
  polls : Nat
  order : IterOrder ChunkId
  now : Nat

/-- Record a chunk if the holder has it. The holder stays locked until the
retriever is written, so this is one section. -/
def recordIfHeld (chunkId : ChunkId) (n : NodeState) : NodeState :=
  { n with contentRetriever :=
      match n.transport.chunkHolder.getChunk chunkId with
      | none => n.contentRetriever
      | some data =>
          (n.contentRetriever.recordChunk ⟨chunkId, data⟩).2 }

/-- Record the pending chunks the holder has, one by one. -/
def recordLocal : List ChunkId → Task Unit
  | [] => pure ()
  | chunkId :: rest => do
      write .retriever (recordIfHeld chunkId)
      recordLocal rest

/-- Ask every peer for every pending chunk. -/
def sendRequests : List (NodeId × ChunkId) → Task Unit
  | [] => pure ()
  | (peer, chunkId) :: rest => do
      write (.request peer chunkId) id
      sendRequests rest

/-- Look at the retriever until it is complete or the time is up. -/
def awaitComplete : Nat → Task Unit
  | 0 => pure ()
  | polls + 1 => do
      let done ← read .retriever fun n => n.contentRetriever.isComplete
      if done then pure () else awaitComplete polls

/-- Take what the retriever has by manifest position, and release it. -/
def takeReceived (manifest : ContentManifest) :
    Task (List (Option EncryptedChunk)) := do
  let received ← read .retriever fun n =>
    snapshot manifest n.contentRetriever
  write .retriever fun n =>
    { n with contentRetriever := ContentRetriever.new }
  pure received

/-- `fetch_shards`, with the default on its one error. -/
def fetchMissing (env : RepairEnv) (manifest : ContentManifest) :
    Task (List (Option EncryptedChunk)) :=
  if manifest.encryptedMasterKey.length ≠ 32 then pure []
  else do
    let pending ← atom .retriever fun n =>
      let r := n.contentRetriever.startRetrieval manifest
        (Bytes.ofList 32 manifest.encryptedMasterKey)
      (env.order.iter r.pending.keys, { n with contentRetriever := r })
    recordLocal pending
    let complete ← read .retriever fun n => n.contentRetriever.isComplete
    if complete then takeReceived manifest
    else
      let ids ← read .retriever fun n =>
        env.order.iter n.contentRetriever.pending.keys
      sendRequests (ids.flatMap fun c => env.peers.map fun p => (p, c))
      awaitComplete env.polls
      takeReceived manifest

-- ============ repair

/-- Pass 1: reseed what the host buffer has; how many were stored. -/
def reseed (now : Nat) (contentId : ContentId) : List ChunkId → Task Nat
  | [] => pure 0
  | chunkId :: rest => do
      let held ← read (.transport .holder) fun n =>
        n.transport.chunkHolder.hasChunk chunkId
      if held then reseed now contentId rest
      else
        let buffered ← read .hostBuffer fun n =>
          n.hostBuffer.buffer.get chunkId
        match buffered with
        | none => reseed now contentId rest
        | some (data, createdAt) => do
            let kept ←
              storeRepairedChunk now contentId chunkId data createdAt
            let stored ← reseed now contentId rest
            pure (kept.toNat + stored)

/-- The shards the holder has, by manifest position. -/
def heldShards : List ChunkId → Task (List (Option EncryptedChunk))
  | [] => pure []
  | chunkId :: rest => do
      let shard ← read (.transport .holder) fun n =>
        (n.transport.chunkHolder.getChunk chunkId).map fun data =>
          (⟨chunkId, data⟩ : EncryptedChunk)
      let shards ← heldShards rest
      pure (shard :: shards)

/-- Report every missing shard. -/
def gossipMissing (contentId : ContentId) :
    List (ChunkId × Option EncryptedChunk) → Task Unit
  | [] => pure ()
  | (chunkId, shard) :: rest => do
      if shard.isNone then write (.gossip contentId chunkId) id
      gossipMissing contentId rest

/-- Fetched shards fill the gaps. -/
def mergeShards (available fetched : List (Option EncryptedChunk)) :
    List (Option EncryptedChunk) :=
  available.zipIdx.map fun s => s.1.or (fetched[s.2]?.join)

/-- Pass 3: store what was reconstructed, by manifest position; how many
were stored. -/
def storeReconstructed (now : Nat) (contentId : ContentId) :
    List (ChunkId × EncryptedChunk) → Task Nat
  | [] => pure 0
  | (chunkId, chunk) :: rest => do
      let held ← read (.transport .holder) fun n =>
        n.transport.chunkHolder.hasChunk chunkId
      if held then storeReconstructed now contentId rest
      else
        let kept ← storeRepairedChunk now contentId chunkId chunk.data now
        let stored ← storeReconstructed now contentId rest
        pure (kept.toNat + stored)

/-- The shards to reconstruct from: the network is asked only when the
holder's do not suffice, and nothing is returned without a reply
session. -/
def gatherShards (env : RepairEnv) (manifest : ContentManifest)
    (available : List (Option EncryptedChunk)) :
    Task (Option (List (Option EncryptedChunk))) :=
  if manifest.dataShards ≤ available.countP Option.isSome then
    pure (some available)
  else do
    gossipMissing manifest.contentId (manifest.chunkIds.zip available)
    if !env.replySession then pure none
    else
      let fetched ← fetchMissing env manifest
      pure (some (mergeShards available fetched))

/-- `repair_content_once`: the number of chunks stored, as it reports
it. -/
def repairContentOnce (P : Prims) (rs : ErasureRepair) (env : RepairEnv)
    (manifest : ContentManifest) : Task (Except RepairError Nat) := do
  let reseeded ← reseed env.now manifest.contentId manifest.chunkIds
  let available ← heldShards manifest.chunkIds
  let gathered ← gatherShards env manifest available
  match gathered with
  -- without a reply session nothing is reported, reseeded or not
  | none => pure (.ok 0)
  | some available =>
      let present := available.countP Option.isSome
      if present < manifest.dataShards then
        pure (.error (.insufficientShards present manifest.dataShards))
      else
        match erasureDecode P rs available manifest.dataShards
            manifest.parityShards with
        | .error e => pure (.error e)
        | .ok chunks => do
            let stored ← storeReconstructed env.now manifest.contentId
              (manifest.chunkIds.zip chunks)
            pure (.ok (reseeded + stored))

end StaticNet
