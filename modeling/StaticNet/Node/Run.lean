/-
The tasks of a running node, and the pool they run in.

`NodeEvent` lists the calls the runner makes: the handlers of the swap
messages, completed chunk responses, the lease tasks, and the loops'
ticks. `begin_swap_proposal` is not among them: only tests call it.
-/
import StaticNet.Node.Repair
import StaticNet.Node.Rotation

namespace StaticNet

open Proc

/-- One call of a task, with what it reads from outside. -/
inductive NodeEvent
  | proposal (env : Env) (p : SwapProposal)
  | accept (env : Env) (a : SwapAccept)
  | commit (env : Env) (c : SwapCommit)
  | abort (env : Env) (a : SwapAbort)
  | reject (r : SwapReject)
  | response (env : Env) (r : ChunkResponse)
  | expirePending (env : Env)
  | retrievals (order : IterOrder ProposalId) (replySession : Bool)
      (sent : ProposalId → Bool)
  | lease (now : Nat) (e : LeaseEvent)
  | rotation (env : RotateEnv)
  | repair (env : RepairEnv) (manifest : ContentManifest)

/-- A node: the primitives it computes with, its configuration and its
id. -/
structure NodeSetup where
  prims : Prims
  erasure : ErasureRepair
  config : NodeConfig
  nodeId : NodeId

namespace NodeEvent

/-- The task a call runs, its result discarded. -/
def program (N : NodeSetup) : NodeEvent → Task Unit
  | proposal env p => onTransport (handleMaintenanceProposal N.prims env p)
  | accept env a => onTransport (handleMaintenanceAccept N.prims env a)
  | commit env c => onTransport (handleMaintenanceCommit N.prims env c)
  | abort env a => onTransport (handleMaintenanceAbort N.prims env a)
  | reject r => onTransport (handleMaintenanceReject r)
  | response env r => handleChunkResponse N.prims N.config env r
  | expirePending env => do
      let _ ← onTransport (expirePendingSwaps N.prims env)
  | retrievals order replySession sent =>
      processSwapRetrievals order replySession sent
  | lease now e => onTransport (e.program N.prims now)
  | rotation env =>
      rotationTick N.prims N.config.rotationConfig N.nodeId env
  | repair env manifest => do
      let _ ← repairContentOnce N.prims N.erasure env manifest

/-- One call handled as one step. -/
def step (N : NodeSetup) (n : NodeState) (e : NodeEvent) : NodeState :=
  (e.program N).post n

/-- The state after a run of calls, each handled as one step. -/
def run (N : NodeSetup) (n : NodeState) (es : List NodeEvent) :
    NodeState := es.foldl (step N) n

end NodeEvent

/-- The tasks of the calls in `E`. -/
def TaskOf (N : NodeSetup) (E : NodeEvent → Prop) (p : Task Unit) : Prop :=
  ∃ e, E e ∧ p = e.program N

end StaticNet
