/-
The node runner's storage tasks (`static-node/src/runner.rs`): completed
chunk responses, the chunk cache and its eviction, and the retrieval
tick of pending swaps, over one state with the swap handlers and the
lease tasks.

A task is a program whose sections are the source's lock sections, as in
`Swap.Handlers`; the handlers written over the transport state alone run
here zoomed in on it. The clock, the random draws and the order of hash
tables are arguments of the task.
-/
import StaticNet.Content.Runner
import StaticNet.Leases.Runner
import StaticNet.Lib.Zoom
import StaticNet.Storage.Rotation
import StaticNet.Swap.Run

namespace StaticNet

open Proc

/-- A chunk younger than this stays on its host: 24 hours. -/
def STALENESS_THRESHOLD_SECS : Nat := 86400

-- ============= state

inductive NodeMode
  | full
  | seedOnly
  | backupOnly
  | client
deriving DecidableEq

/-- What of the runner's configuration these tasks read. -/
structure NodeConfig where
  mode : NodeMode
  rotationConfig : RotationConfig
deriving DecidableEq

/-- `HostBuffer`: recently bartered own chunks, oldest first. -/
structure HostBuffer where
  buffer : FMap ChunkId (List UInt8 × Nat)
  order : List ChunkId
  maxSize : Nat
  currentSize : Nat

namespace HostBuffer

def new (maxSize : Nat) : HostBuffer := ⟨∅, [], maxSize, 0⟩

/-- Forget one chunk's bytes. -/
def drop (b : HostBuffer) (chunkId : ChunkId) : HostBuffer :=
  match b.buffer.get chunkId with
  | some (data, _) =>
      { b with
        buffer := b.buffer.erase chunkId
        currentSize := b.currentSize - data.length }
  | none => b

/-- Evict the oldest until `len` more bytes fit. -/
def makeRoom (len : Nat) : List ChunkId → HostBuffer → HostBuffer
  | [], b => { b with order := [] }
  | old :: rest, b =>
      if b.maxSize < b.currentSize + len then makeRoom len rest (b.drop old)
      else { b with order := old :: rest }

def insert (b : HostBuffer) (chunkId : ChunkId) (data : List UInt8)
    (createdAt : Nat) : HostBuffer :=
  if b.maxSize < data.length then b
  else
    let b :=
      if b.buffer.contains chunkId then
        { b.drop chunkId with
          order := b.order.filter fun id => id != chunkId }
      else b
    let b := makeRoom data.length b.order b
    { b with
      order := b.order ++ [chunkId]
      currentSize := b.currentSize + data.length
      buffer := b.buffer.insert chunkId (data, createdAt) }

end HostBuffer

/-- The runner's state with what the background tasks keep. -/
structure NodeState extends RunnerState where
  rotationState : RotationState
  hostBuffer : HostBuffer
  /-- the peers with an open connection -/
  connections : FMap NodeId Unit

/-- A node that has just started, without a host buffer. -/
def NodeState.new (transport : TransportState) : NodeState where
  toRunnerState := RunnerState.new transport
  rotationState := RotationState.new
  hostBuffer := HostBuffer.new 0
  connections := ∅

/-- What a section of a task does. -/
inductive NodeAct
  | transport (a : Act)
  | rotation
  | proofs
  | metadata
  | hostBuffer
  | retriever
  | singles
  | connections
  /-- a swap proposal is sent -/
  | propose (dest : NodeId) (p : SwapProposal)
  /-- a chunk request is sent for a pending swap -/
  | request (dest : NodeId) (chunkId : ChunkId)
  /-- a missing chunk is reported -/
  | gossip (contentId : ContentId) (chunkId : ChunkId)

abbrev Task := Proc NodeAct NodeState

/-- The transport state inside the node's. -/
def transportPart : Part NodeState TransportState where
  get n := n.transport
  set n s := { n with transport := s }
  get_set _ _ := rfl
  set_get _ := rfl
  set_set _ _ _ := rfl

/-- A handler of the transport, as a task of the node. -/
def onTransport {α : Type} (p : Handler α) : Task α :=
  zoom transportPart .transport p

@[simp] theorem post_onTransport {α : Type} (p : Handler α)
    (n : NodeState) :
    (onTransport p).post n = { n with transport := p.post n.transport } :=
  post_zoom p n

@[simp] theorem out_onTransport {α : Type} (p : Handler α)
    (n : NodeState) : (onTransport p).out n = p.out n.transport :=
  out_zoom p n

namespace NodeState

def updHolder (f : ChunkHolder → ChunkHolder) (n : NodeState) : NodeState :=
  { n with transport :=
    { n.transport with chunkHolder := f n.transport.chunkHolder } }

def updRotation (f : RotationState → RotationState) (n : NodeState) :
    NodeState := { n with rotationState := f n.rotationState }

def updSpace (f : StorageCapacity → StorageCapacity) (n : NodeState) :
    NodeState := { n with transport := n.transport.updCapacity f }

end NodeState

open NodeState

/-- `record_accept`. -/
def StorageCapacity.recordAccept (cap : StorageCapacity)
    (chunkSize : Nat) : StorageCapacity :=
  { cap with currentBytes := cap.currentBytes + chunkSize }

/-- `mark_retrieval_requested`. -/
def SwapState.markRetrievalRequested (st : SwapState)
    (pid : ProposalId) : SwapState :=
  st.modifyPending pid fun swap => { swap with retrievalRequested := true }

-- ============= cache

/-- Put a chunk and list it as cached: three sections. -/
def storeCached (now : Nat) (chunkId : ChunkId) (data : List UInt8) :
    Task Unit := do
  write (.transport .holder)
    (updHolder fun h => h.addChunk chunkId data (Bytes.zero 32))
  write (.transport .capacity)
    (updSpace fun cap => cap.recordAccept data.length)
  write .rotation (updRotation fun st => st.recordCache chunkId now)

/-- The slow path of `cache_retrieved_chunk`: the oldest cached chunk
makes room. -/
def evictForCache (now : Nat) (chunkId : ChunkId) (data : List UInt8)
    (lruId : ChunkId) : Task Unit := do
  let evictedLen ← read (.transport .holder) fun n =>
    ((n.transport.chunkHolder.getChunk lruId).map List.length).getD 0
  write (.transport .holder) (updHolder fun h => h.removeChunk lruId)
  write .rotation (updRotation fun st => st.removeCache lruId)
  write (.transport .capacity)
    (updSpace fun cap => cap.recordRemove evictedLen)
  let fits ← read (.transport .capacity) fun n =>
    n.transport.storageCapacity.canAccept data.length 0
  if fits then storeCached now chunkId data else pure ()

def cacheRetrievedChunk (cfg : NodeConfig) (now : Nat)
    (order : IterOrder ChunkId) (chunkId : ChunkId) (data : List UInt8) :
    Task Unit :=
  if cfg.mode ≠ .full then pure ()
  else if !cfg.rotationConfig.enableCaching then pure ()
  else do
    let held ← read (.transport .holder) fun n =>
      n.transport.chunkHolder.hasChunk chunkId
    if held then pure ()
    else
      let fits ← read (.transport .capacity) fun n =>
        n.transport.storageCapacity.canAccept data.length 0
      if fits then storeCached now chunkId data
      else if cfg.rotationConfig.maxCachedChunks = 0 then pure ()
      else
        let lru ← read .rotation fun n =>
          n.rotationState.lruCachedChunk order
        match lru with
        | none => pure ()
        | some lruId => evictForCache now chunkId data lruId

/-- The loop of `evict_excess_cache`. It ends by itself once the cache
is within its limit; how many turns a run takes is an argument. -/
def evictOldest (order : IterOrder ChunkId) (maxCachedChunks : Nat) :
    Nat → Task Unit
  | 0 => pure ()
  | turns + 1 => do
      let lru ← read .rotation fun n =>
        if n.rotationState.cachedChunks.len ≤ maxCachedChunks then none
        else n.rotationState.lruCachedChunk order
      match lru with
      | none => pure ()
      | some lruChunk =>
          let evictedLen ← atom (.transport .holder) fun n =>
            (((n.transport.chunkHolder.getChunk lruChunk).map
                List.length).getD 0,
              n.updHolder fun h => h.removeChunk lruChunk)
          write .rotation (updRotation fun st => st.removeCache lruChunk)
          write (.transport .capacity)
            (updSpace fun cap => cap.recordRemove evictedLen)
          evictOldest order maxCachedChunks turns

def evictExcessCache (order : IterOrder ChunkId) (maxCachedChunks : Nat)
    (turns : Nat) : Task Unit :=
  -- 0 is unlimited
  if maxCachedChunks = 0 then pure ()
  else evictOldest order maxCachedChunks turns

-- ========= responses

/-- A chunk no swap waits for: recorded by the retriever or stashed, and
cached either way. -/
def keepRetrieved (cfg : NodeConfig) (env : Env) (chunkId : ChunkId)
    (data : List UInt8) : Task Unit := do
  let recorded ← atom .retriever fun n =>
    let r := n.contentRetriever.recordChunk ⟨chunkId, data⟩
    (r.1, { n with contentRetriever := r.2 })
  if !recorded then
    write .singles fun n =>
      { n with
        singleChunks := evictTo env.chunkOrder 2048
          (n.singleChunks.len + 1) (n.singleChunks.insert chunkId data) }
  cacheRetrievedChunk cfg env.now env.chunkOrder chunkId data

/-- `handle_chunk_response_body` from the completed response on. -/
def handleChunkResponse (P : Prims) (cfg : NodeConfig) (env : Env)
    (r : ChunkResponse) : Task Unit :=
  if r.found then do
    let consumed ←
      onTransport (handleSwapChunkRetrieval P env r.chunkId r.chunkData)
    if consumed then pure ()
    else keepRetrieved cfg env r.chunkId r.chunkData
  else write (.gossip r.chunkId r.chunkId) id

-- ==== swap retrievals

/-- The pending swaps whose chunk is named but not requested yet. -/
def retrievalTargets (order : IterOrder ProposalId) (s : TransportState) :
    List (ProposalId × NodeId × ChunkId) :=
  (order.iter s.swapState.pendingSwaps.keys).filterMap fun pid =>
    match s.swapState.pendingSwaps.get pid with
    | some swap =>
        if !swap.receivedTheirChunk && !swap.retrievalRequested
            && swap.theirChunkId != Bytes.zero 32 then
          some (swap.proposalId, swap.peer, swap.theirChunkId)
        else none
    | none => none

/-- The loop of `process_swap_retrievals` over its targets; `sent` says
for which the request could be sent. -/
def requestTargets (sent : ProposalId → Bool) :
    List (ProposalId × NodeId × ChunkId) → Task Unit
  | [] => pure ()
  | (pid, peer, chunkId) :: rest => do
      let known ← read (.transport .routing) fun n =>
        n.transport.routingTable.contains peer
      if known then
        write (.request peer chunkId) id
        if sent pid then
          write (.transport .swaps) fun n =>
            { n with transport := n.transport.updSwaps fun st =>
                st.markRetrievalRequested pid }
      requestTargets sent rest

/-- `process_swap_retrievals`; the reply session may fail to open. -/
def processSwapRetrievals (order : IterOrder ProposalId)
    (replySession : Bool) (sent : ProposalId → Bool) : Task Unit := do
  let targets ← read (.transport .swaps) fun n =>
    retrievalTargets order n.transport
  if targets.isEmpty then pure ()
  else if !replySession then pure ()
  else requestTargets sent targets

end StaticNet
