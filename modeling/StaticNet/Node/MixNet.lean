/-
The network as a whole: nodes that handle messages, everything that was
sent between them, and bodies that cross it as packets of one route.

Whatever was sent can be delivered, in any order, late, again or never
(`MixNet.step`); each delivery is a whole `handle_message` at the node it
was sent to, in whatever state that node is in by then. Between
deliveries a node may do anything that keeps its keys and leaves the
tags of the packets at hand alone (`Shipment.Allowed`).
-/
import StaticNet.Node.HandleMessage
import StaticNet.Node.Inbound
import StaticNet.Sphinx.Onion

namespace StaticNet

-- ======= the network

/-- A message as it was sent. -/
structure Letter where
  sender : NodeId
  receiver : NodeId
  msg : WireMessage

/-- The nodes, everything that was sent, which of it was delivered, and
what stayed at the nodes. -/
structure MixNet where
  nodes : NodeId → MessageState
  sent : List Letter
  delivered : List Nat
  handed : NodeId → List Outcome

namespace Outcome

/-- What goes out again. -/
def letter (sender : NodeId) : Outcome → Option Letter
  | .send peer msg => some ⟨sender, peer, msg⟩
  | _ => none

def stays : Outcome → Bool
  | .send _ _ => false
  | _ => true

/-- A body for the application, and who sent it here. -/
def body? : Outcome → Option (NodeId × List UInt8)
  | .inbound sender body => some (sender, body)
  | _ => none

end Outcome

/-- The node runner takes the bodies off its channel one after the other,
each at a time of its own. -/
def takeInbound (P : Prims) (C : Codec) (mode : NodeMode)
    (clock : Nat → Arrival) :
    Nat → List (NodeId × List UInt8) → Dispatcher → List Call × Dispatcher
  | _, [], d => ([], d)
  | i, b :: bodies, d =>
      let r := handleInbound P C mode { clock i with sender := b.1 } b.2 d
      let rest := takeInbound P C mode clock (i + 1) bodies r.2
      (r.1 ++ rest.1, rest.2)

/-- What can happen next. -/
inductive NetMove
  | deliver (i : Nat) (r : Reading)
  | other (id : NodeId) (s : MessageState)

namespace MixNet

/-- An error is logged, and the connection goes on. -/
def deliver (P : Prims) (net : MixNet) (i : Nat) (r : Reading) : MixNet :=
  match net.sent[i]? with
  | none => net
  | some letter =>
      let id := letter.receiver
      let out := handleMessage P (net.nodes id) letter.sender r letter.msg
      let outcomes := out.1.toOption.getD []
      { nodes := Function.update net.nodes id out.2
        sent := net.sent ++ outcomes.filterMap (Outcome.letter id)
        delivered := net.delivered ++ [i]
        handed := Function.update net.handed id
          (net.handed id ++ outcomes.filter Outcome.stays) }

def step (P : Prims) (net : MixNet) : NetMove → MixNet
  | .deliver i r => net.deliver P i r
  | .other id s => { net with nodes := Function.update net.nodes id s }

def run (P : Prims) (net : MixNet) : List NetMove → MixNet
  | [] => net
  | mv :: moves => (net.step P mv).run P moves

/-- Everything that was sent was delivered, at least once. -/
def Settled (net : MixNet) : Prop :=
  ∀ i < net.sent.length, i ∈ net.delivered

end MixNet

-- ====== the shipment

/-- Bodies for the end of a route, and the draws of their packets. -/
structure Shipment where
  sender : NodeId
  route : HybridRoute
  draws : Nat → PacketDraws
  bodies : List (List UInt8)

/-- A packet on its way to the node of a layer, and the layers after. -/
structure Leg where
  index : Nat
  layer : Layer
  rest : List Layer

namespace Shipment

variable (P : Prims) (S : Shipment)

def layers (k : Nat) : List Layer :=
  (hybridLayers P (S.draws k) S.route.hops).toOption.getD []

/-- What the last layer of the `k`-th packet seals. -/
def inner (k : Nat) : List UInt8 :=
  innerBody P (S.layers P k) S.route.destination (S.bodies.getD k [])

/-- The `k`-th body as it comes out. -/
def body (k : Nat) : List UInt8 := padTo BODY_SIZE (S.bodies.getD k [])

/-- The node at the end of the route. -/
def last : NodeId :=
  (S.route.hops.getLast?.map HybridRouteHop.nodeId).getD (Bytes.zero 16)

/-- What a layer leaves behind, and where. -/
def stamp (l : Layer) : NodeId × Mac := (l.nodeId, (l.keys P).tag)

def stamps : List (NodeId × Mac) :=
  (List.range S.bodies.length).flatMap fun k =>
    (S.layers P k).map (stamp P)

/-- The node that the layer is for has accepted it. -/
def Seen (nodes : NodeId → MessageState) (l : Layer) : Prop :=
  (l.keys P).tag ∈ (nodes l.nodeId).mixNode.seenTags

/-- The letter is the packet on this leg. -/
structure At (leg : Leg) (letter : Letter) : Prop where
  receiver : letter.receiver = leg.layer.nodeId
  flight : ∃ packet, letter.msg = .sphinx packet
    ∧ InFlight P SPHINX_VERSION_HYBRID (S.draws leg.index).sessionId
      S.route.destination (onion P (S.inner P leg.index))
      (S.inner P leg.index) KEM_BLOCK_SIZE (leg.layer :: leg.rest) packet

/-- One of the legs of the shipment. -/
structure HasLeg (leg : Leg) : Prop where
  index_lt : leg.index < S.bodies.length
  suffix : leg.layer :: leg.rest <:+ S.layers P leg.index

/-- The packets at the first hop, which has nothing of them yet. -/
def start (nodes : NodeId → MessageState) (packets : List SphinxPacket) :
    MixNet where
  nodes := nodes
  sent := packets.map fun packet =>
    ⟨S.sender, S.route.firstHop, .sphinx packet⟩
  delivered := []
  handed := fun _ => []

/-- The keys of the hops belong to their nodes, and no layer leaves what
another leaves, or what is there. -/
structure Ready (nodes : NodeId → MessageState) : Prop where
  honest : ∀ hop ∈ S.route.hops, ∀ d, HonestHybrid P
    ⟨(nodes hop.nodeId).mixNode, (nodes hop.nodeId).kemSecret, d⟩ hop
  apart : (S.stamps P).Nodup
  unseen : ∀ st ∈ S.stamps P, st.2 ∉ (nodes st.1).mixNode.seenTags

/-- The memory of the node is not so full that a tag of the shipment is
the next to leave. -/
def Remembers (node : MixNode) (id : NodeId) : Prop :=
  ∀ st ∈ S.stamps P, st.1 = id →
    MAX_SEEN_TAGS ≤ node.seenTags.card →
    node.seenOrder.head? ≠ some st.2

/-- What a node may do of its own: keep its keys, and neither take in nor
forget a tag of the shipment. -/
structure Unrelated (id : NodeId) (s s' : MessageState) : Prop where
  private_key : s'.mixNode.privateKey = s.mixNode.privateKey
  kem_secret : s'.kemSecret = s.kemSecret
  tags : ∀ st ∈ S.stamps P, st.1 = id →
    (st.2 ∈ s'.mixNode.seenTags ↔ st.2 ∈ s.mixNode.seenTags)

/-- The moves that are considered. `timely` restricts the clock, and
`quiet` what the last node does to the requests it collects. -/
def Allowed (timely : Reading → Prop)
    (quiet : ReassemblyManager → ReassemblyManager → Prop) (net : MixNet) :
    NetMove → Prop
  | .deliver i r => timely r ∧ ∀ letter, net.sent[i]? = some letter →
      S.Remembers P (net.nodes letter.receiver).mixNode letter.receiver
  | .other id s => S.Unrelated P id (net.nodes id) s
      ∧ (id = S.last → quiet (net.nodes id).pendingRequests
        s.pendingRequests)

def AllAllowed (timely : Reading → Prop)
    (quiet : ReassemblyManager → ReassemblyManager → Prop) :
    MixNet → List NetMove → Prop
  | _, [] => True
  | net, mv :: moves => S.Allowed P timely quiet net mv
      ∧ AllAllowed timely quiet (net.step P mv) moves

/-- Every hop has a connection to the next. -/
def Linked (nodes : NodeId → MessageState) : Prop :=
  ∀ a b, [a, b] <:+: S.route.hops.map HybridRouteHop.nodeId →
    b ∈ (nodes a).connections

def AllLinked : MixNet → List NetMove → Prop
  | net, [] => S.Linked net.nodes
  | net, mv :: moves => S.Linked net.nodes ∧ AllLinked (net.step P mv) moves

end Shipment

end StaticNet
