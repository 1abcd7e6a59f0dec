/-
Two honest nodes swapping over a lossy network.

Both run the handlers, each handler as one step. The network is the list
of everything ever sent: any packet may be delivered at any time, any
number of times, in any order, or never, so delay, reordering,
duplication and loss are all choices of the run. Chunk responses are
packets too, produced whenever the holder of a chunk serves it.

Per node the system also keeps the swaps it has put into its holder, in
order: the registry's own `completed_swaps` log is bounded and does not
say what was stored.
-/
import StaticNet.Swap.Run

namespace StaticNet

open Proc

/-- The two nodes. -/
inductive Side
  | left
  | right
deriving DecidableEq

def Side.other : Side → Side
  | left => right
  | right => left

@[simp] theorem Side.other_other (x : Side) : x.other.other = x := by
  cases x <;> rfl

theorem Side.other_ne (x : Side) : x.other ≠ x := by
  cases x <;> exact nofun

/-- A node that is not one of the two is the other one. -/
theorem Side.eq_or (x y : Side) : y = x ∨ y = x.other := by
  cases x <;> cases y <;> simp [Side.other]

/-- What a packet carries. -/
inductive Payload
  | proposal (p : SwapProposal)
  | message (m : SwapMessage)
  | chunk (chunkId : ChunkId) (data : List UInt8)
deriving DecidableEq

structure Packet where
  src : Side
  dest : NodeId
  payload : Payload
deriving DecidableEq

/-- The system's state. -/
structure Duo where
  node : Side → TransportState
  net : List Packet
  stored : Side → List PendingSwap

/-- What can happen. -/
inductive DuoEvent
  | propose (x : Side) (env : Env) (p : SwapProposal)
  | serve (x : Side) (chunkId : ChunkId)
  | deliver (i : Nat) (env : Env)
  | expire (x : Side) (env : Env)

/-- The sends among executed sections, as packets. -/
def sendsIn (x : Side) (labels : List Act) : List Packet :=
  labels.filterMap fun
    | .send dest msg => some ⟨x, dest, .message msg⟩
    | _ => none

/-- The puts among executed sections. -/
def putsIn (labels : List Act) : List PendingSwap :=
  labels.filterMap fun
    | .put swap => some swap
    | _ => none

/-- The proposal ids committed to among executed sections. -/
def commitsIn (labels : List Act) : List ProposalId :=
  labels.filterMap fun
    | .send _ (.commit c) => some c.proposalId
    | _ => none

/-- The handler a payload is given to. -/
def Payload.handler (P : Prims) (env : Env) : Payload → Handler Unit
  | .proposal p => handleMaintenanceProposal P env p
  | .message (.accept a) => handleMaintenanceAccept P env a
  | .message (.reject r) => handleMaintenanceReject r
  | .message (.commit c) => handleMaintenanceCommit P env c
  | .message (.abort a) => handleMaintenanceAbort P env a
  | .chunk chunkId data => do
      let _ ← handleSwapChunkRetrieval P env chunkId data

namespace Duo

/-- Run one handler at one node. -/
def exec (w : Duo) (x : Side) (p : Handler Unit) : Duo where
  node := fun y => if y = x then p.post (w.node x) else w.node y
  net := w.net ++ sendsIn x (p.acts (w.node x))
  stored := fun y =>
    if y = x then w.stored x ++ putsIn (p.acts (w.node x))
    else w.stored y

/-- Who a packet is for: the node with the id it is addressed to. -/
def addressee (w : Duo) (pkt : Packet) : Option Side :=
  if (w.node pkt.src.other).nodeId = pkt.dest then some pkt.src.other
  else if (w.node pkt.src).nodeId = pkt.dest then some pkt.src
  else none

/-- An honest node proposes in its own name. -/
def ownProposal (w : Duo) (x : Side) (p : SwapProposal) : SwapProposal :=
  { p with fromNode := (w.node x).nodeId }

def step (P : Prims) (w : Duo) : DuoEvent → Duo
  | .propose x env p =>
      let peer := (w.node x.other).nodeId
      let w' := w.exec x do
        let _ ← beginSwapProposal P env peer (w.ownProposal x p)
      { w' with
        net := w'.net ++ [⟨x, peer, .proposal (w.ownProposal x p)⟩] }
  | .serve x chunkId =>
      match (w.node x).chunkHolder.getChunk chunkId with
      | some data =>
          { w with
            net := w.net ++
              [⟨x, (w.node x.other).nodeId, .chunk chunkId data⟩] }
      | none => w
  | .deliver i env =>
      match w.net[i]? with
      | none => w
      | some pkt =>
          match w.addressee pkt with
          | none => w
          | some y => w.exec y (pkt.payload.handler P env)
  | .expire x env => w.exec x do let _ ← expirePendingSwaps P env

def run (P : Prims) (w : Duo) (es : List DuoEvent) : Duo :=
  es.foldl (step P) w

/-- The proposal ids a node has sent a commit for. -/
def commitsFrom (w : Duo) (x : Side) : List ProposalId :=
  w.net.filterMap fun pkt =>
    match pkt.payload with
    | .message (.commit c) => if pkt.src = x then some c.proposalId else none
    | _ => none

/-- Two different nodes that have not swapped yet. -/
structure Initial (w : Duo) : Prop where
  distinct : (w.node .left).nodeId ≠ (w.node .right).nodeId
  swaps : ∀ x, (w.node x).swapState = SwapState.new
  net : w.net = []
  stored : ∀ x, w.stored x = []

end Duo

end StaticNet
