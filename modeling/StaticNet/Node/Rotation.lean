/-
The rotation loop (`rotation_loop` in `static-node/src/runner.rs`): one
epoch's tick. A share of the held chunks is chosen, those with a healthy
lease and a Merkle proof are offered to random connected peers, and the
cache is cut back to its limit.
-/
import StaticNet.Node.Basic

namespace StaticNet

open Proc NodeState

def ChunkMetadata.barterEligible (m : ChunkMetadata) (now : Nat) : Bool :=
  STALENESS_THRESHOLD_SECS ≤ now - m.createdAt

/-- `record_proposal`: an arbitrary entry makes room at the bound. -/
def SwapState.recordProposal (P : Prims) (order : IterOrder ProposalId)
    (st : SwapState) (p : SwapProposal) : SwapState :=
  let proposals :=
    if MAX_PENDING_PROPOSALS ≤ st.pendingProposals.len then
      match (order.iter st.pendingProposals.keys).head? with
      | some k => st.pendingProposals.erase k
      | none => st.pendingProposals
    else st.pendingProposals
  { st with pendingProposals := proposals.insert (proposalId P p) p }

-- ========== the tick

/-- What one epoch reads and draws: the clock, the orders of the tables
it scans, the shuffle, and per eligible chunk the peer's index, the
ephemeral content key, the nonce and the lease clock. -/
structure RotateEnv where
  now : Nat
  chunkOrder : IterOrder ChunkId
  shuffle : List ChunkId → List ChunkId
  shuffled : ∀ l, (shuffle l).Perm l
  nodeOrder : IterOrder NodeId
  proposalOrder : IterOrder ProposalId
  pick : Nat → Nat
  contentSk : Nat → SigningKey
  drawn : Nat → Bytes 32
  leaseAt : Nat → Nat
  turns : Nat

/-- An epoch at time `now` that scans its tables in the order of their
keys, shuffles nothing, and draws one content key and one nonce. -/
def quietRotation (contentSk : SigningKey) (seed : UInt8) (now : Nat) :
    RotateEnv where
  now := now
  chunkOrder := IterOrder.bytewise
  shuffle := id
  shuffled _ := List.Perm.refl _
  nodeOrder := IterOrder.bytewise
  proposalOrder := IterOrder.bytewise
  pick _ := 0
  contentSk _ := contentSk
  drawn _ := Bytes.fill 32 seed
  leaseAt _ := now
  turns := 1

/-- A chunk with a healthy lease that is no longer fresh. A chunk
without metadata counts as stale, one without a lease as unhealthy. -/
def rotatable (cfg : RotationConfig) (now : Nat) (n : NodeState)
    (c : ChunkId) : Bool :=
  (n.transport.leaseManager.leases.get c).any (fun lease =>
      cfg.minLeaseRemainingSecs < lease.expiresAt - now)
    && match n.chunkMetadata.get c with
      | some m => m.barterEligible now
      | none => true

/-- The proposal of the `i`-th eligible chunk. The lease is minted with
the node's own storage key, and the content key lives for this proposal
only. -/
def rotationProposal (P : Prims) (env : RotateEnv) (node : NodeId)
    (masterKey : SymmetricKey) (i : Nat) (chunkId : ChunkId)
    (binding : MerkleRoot × MerkleProof) : SwapProposal :=
  createSwapProposal P node chunkId masterKey DEFAULT_LEASE_DURATION_SECS
    (env.leaseAt i) binding.1 binding.2 (P.edPublic (env.contentSk i))
    (some (env.contentSk i)) (env.drawn i)

/-- A proposal is noted and sent, and its chunk copied to the host
buffer. -/
def dispatchProposal (P : Prims) (env : RotateEnv) (peer : NodeId)
    (p : SwapProposal) (chunkId : ChunkId) (data : List UInt8) :
    Task Unit := do
  write (.transport .swaps) fun n =>
    { n with transport := n.transport.updSwaps fun st =>
        st.recordProposal P env.proposalOrder p }
  write (.propose peer p) id
  let created ← read .metadata fun n =>
    ((n.chunkMetadata.get chunkId).map
      ChunkMetadata.createdAt).getD env.now
  write .hostBuffer fun n =>
    { n with hostBuffer := n.hostBuffer.insert chunkId data created }
  write .metadata fun n =>
    { n with chunkMetadata := n.chunkMetadata.modify chunkId fun m =>
        { m with lastBartered := env.now } }

/-- The proposing loop; it returns the chunks that were dispatched. -/
def proposeAll (P : Prims) (env : RotateEnv) (node : NodeId)
    (masterKey : SymmetricKey) (known : List NodeId)
    (senders : FMap NodeId Unit) :
    Nat → List (ChunkId × List UInt8) → Task (List ChunkId)
  | _, [] => pure []
  | i, (chunkId, data) :: rest =>
      let peer := known.getD (env.pick i % known.length) node
      if peer = node || !senders.contains peer then
        proposeAll P env node masterKey known senders (i + 1) rest
      else do
        let binding ← read .proofs fun n => n.merkleProofs.get chunkId
        match binding with
        | none =>
            -- a chunk without a proof would be rejected for certain
            proposeAll P env node masterKey known senders (i + 1) rest
        | some binding =>
            dispatchProposal P env peer
              (rotationProposal P env node masterKey i chunkId binding)
              chunkId data
            let dispatched ←
              proposeAll P env node masterKey known senders (i + 1) rest
            pure (chunkId :: dispatched)

def stampEpoch (now : Nat) : Task Unit :=
  write .rotation (updRotation fun st => { st with lastEpoch := now })

/-- One tick of `rotation_loop` on the node `node`. -/
def rotationTick (P : Prims) (cfg : RotationConfig) (node : NodeId)
    (env : RotateEnv) : Task Unit :=
  if !cfg.enabled then pure ()
  else do
    let chunkIds ← read (.transport .holder) fun n =>
      env.chunkOrder.iter n.transport.chunkHolder.chunks.keys
    let chosen ← read .rotation fun n =>
      n.rotationState.selectChunksForRotation env.shuffle chunkIds cfg
        env.now
    if chosen.isEmpty then stampEpoch env.now
    else
      let held ← read (.transport .holder) fun n =>
        chosen.filterMap fun c =>
          (n.transport.chunkHolder.getChunk c).map fun data => (c, data)
      let eligible ← read (.transport .leases) fun n =>
        held.filter fun e => rotatable cfg env.now n e.1
      if eligible.isEmpty then stampEpoch env.now
      else
        let known ← read (.transport .routing) fun n =>
          env.nodeOrder.iter n.transport.routingTable.keys
        if known.isEmpty then stampEpoch env.now
        else
          stampEpoch env.now
          let masterKey ← read (.transport .key) fun n =>
            n.transport.storageKey
          let senders ← read .connections fun n => n.connections
          let dispatched ←
            proposeAll P env node masterKey known senders 0 eligible
          if !dispatched.isEmpty then
            write .rotation (updRotation fun st =>
              dispatched.foldl (fun st c =>
                st.recordRotation env.chunkOrder c env.now) st)
          evictExcessCache env.chunkOrder cfg.maxCachedChunks env.turns

end StaticNet
