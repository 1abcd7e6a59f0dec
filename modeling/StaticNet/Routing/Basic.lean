/-
The routing table of `static-mesh/src/routing.rs`: known nodes, gossip,
and the routes built over the nodes whose KEM key is known.

A hash map yields its entries in some order and the route builders
shuffle what they get, so the order a builder ends up with is any
permutation of the candidates: it comes in as a parameter. The JSON form
of a peer list, which a gossip's signature covers, is a parameter too.
-/
import StaticNet.Lib.FMap
import StaticNet.Sphinx.Basic

namespace StaticNet

def MAX_GOSSIP_PEERS : Nat := 50

/-- Intermediate hops of every route. -/
def MIN_HOPS : Nat := 3

structure KnownNode where
  nodeId : NodeId
  publicKey : Bytes 32
  address : String
  kemPublicKey : Option (List UInt8)
  computeEnabled : Bool
  computeCapacity : UInt8
  identityPublicKey : Option (Bytes 32)
deriving DecidableEq

/-- A signed list of peers; the entries themselves are hints. -/
structure PeerGossip where
  fromNode : NodeId
  peers : List KnownNode
  identityPublicKey : Bytes 32
  signature : List UInt8
deriving DecidableEq

namespace PeerGossip

variable (P : Prims) (json : List KnownNode → List UInt8)

def signingBytes (g : PeerGossip) : List UInt8 :=
  g.fromNode.toList ++ (P.blake3 (json g.peers)).toList

def sign (signingKey : SigningKey) (g : PeerGossip) : PeerGossip :=
  { g with
    identityPublicKey := P.edPublic signingKey
    signature := (P.edSign signingKey
      ({ g with identityPublicKey := P.edPublic signingKey }.signingBytes P
        json)).toList }

def verify (g : PeerGossip) : Bool :=
  g.peers.length ≤ MAX_GOSSIP_PEERS
    && P.edCheck g.identityPublicKey (g.signingBytes P json) g.signature

end PeerGossip

structure RoutingTable where
  ourNodeId : NodeId
  nodes : FMap NodeId KnownNode

namespace RoutingTable

def new (ourNodeId : NodeId) : RoutingTable := ⟨ourNodeId, ∅⟩

/-- `add_node`: whatever was there under the id is replaced. -/
def addNode (table : RoutingTable) (node : KnownNode) : RoutingTable :=
  if node.nodeId ≠ table.ourNodeId then
    { table with nodes := table.nodes.insert node.nodeId node }
  else table

def getNode (table : RoutingTable) (id : NodeId) : Option KnownNode :=
  table.nodes.get id

/-- One entry of a gossip: taken when its id is new to the table and its
address and KEM key have their sizes. -/
def takesPeer (table : RoutingTable) (peer : KnownNode) : Bool :=
  peer.nodeId ≠ table.ourNodeId
    && !table.nodes.contains peer.nodeId
    && peer.address.utf8ByteSize ≤ 256
    && peer.kemPublicKey.all fun kem => kem.length = KEM_PUBLIC_KEY_SIZE

def takePeer (table : RoutingTable) (peer : KnownNode) : RoutingTable :=
  if table.takesPeer peer then table.addNode peer else table

/-- The gossip's sender is unknown, or known without an identity key, or
under the key that signed. -/
def senderContinues (table : RoutingTable) (g : PeerGossip) : Bool :=
  match table.nodes.get g.fromNode with
  | none => true
  | some known =>
      match known.identityPublicKey with
      | none => true
      | some stored => stored = g.identityPublicKey

/-- `process_gossip`, without the count it returns. -/
def processGossip (P : Prims) (json : List KnownNode → List UInt8)
    (table : RoutingTable) (g : PeerGossip) : RoutingTable :=
  if ¬ g.verify P json then table
  else if ¬ table.senderContinues g then table
  else g.peers.foldl takePeer table

/-- A node as a hop of a hybrid route. -/
def asHop (node : KnownNode) : HybridRouteHop where
  nodeId := node.nodeId
  classicalPublicKey := node.publicKey
  kemPublicKey := node.kemPublicKey.getD []

/-- The nodes with a KEM key, ourselves and an excluded one apart, in
the order of a hash map. -/
def candidates (table : RoutingTable) (o : IterOrder NodeId)
    (excluded : Option NodeId) : List KnownNode :=
  ((o.iter table.nodes.keys).filterMap table.nodes.get).filter fun n =>
    excluded ≠ some n.nodeId && n.nodeId ≠ table.ourNodeId
      && n.kemPublicKey.isSome

/-- `build_hybrid_route`, with the shuffle it draws. -/
def buildHybridRoute (table : RoutingTable) (o : IterOrder NodeId)
    (shuffle : List KnownNode → List KnownNode) (destination : NodeId)
    (destPublicKey : Bytes 32) (destKemPublicKey : List UInt8) :
    Option HybridRoute :=
  let nodes := table.candidates o (some destination)
  if nodes.length < MIN_HOPS then none
  else
    some
      { hops := ((shuffle nodes).take MIN_HOPS).map asHop
          ++ [⟨destination, destPublicKey, destKemPublicKey⟩]
        destination := destination }

/-- `build_self_return_route` of a node with these keys. -/
def buildSelfReturnRoute (table : RoutingTable) (o : IterOrder NodeId)
    (shuffle : List KnownNode → List KnownNode) (nodeId : NodeId)
    (ourPublicKey : Bytes 32) (ourKemPublicKey : List UInt8) :
    HybridRoute :=
  let nodes := ((o.iter table.nodes.keys).filterMap
    table.nodes.get).filter fun n =>
      n.nodeId ≠ nodeId && n.kemPublicKey.isSome
  let intermediates :=
    if nodes.length < MIN_HOPS then []
    else ((shuffle nodes).take MIN_HOPS).map asHop
  { hops := intermediates ++ [⟨nodeId, ourPublicKey, ourKemPublicKey⟩]
    destination := nodeId }

-- ====== what changes

variable {table : RoutingTable} {id : NodeId}

@[simp] theorem ourNodeId_addNode (table : RoutingTable)
    (node : KnownNode) : (table.addNode node).ourNodeId
      = table.ourNodeId := by
  unfold addNode
  split <;> rfl

theorem getNode_addNode_self {node : KnownNode}
    (h : node.nodeId ≠ table.ourNodeId) :
    (table.addNode node).getNode node.nodeId = some node := by
  rw [addNode, if_pos h]
  exact FMap.get_insert_self _ _ _

theorem getNode_addNode_ne {node : KnownNode} (h : id ≠ node.nodeId) :
    (table.addNode node).getNode id = table.getNode id := by
  unfold addNode
  split
  · exact FMap.get_insert_ne _ _ h
  · rfl

/-- An entry that is taken is one of a new id. -/
theorem getNode_of_takesPeer {peer : KnownNode}
    (h : table.takesPeer peer = true) :
    table.getNode peer.nodeId = none := by
  simp only [takesPeer, Bool.and_eq_true, Bool.not_eq_true'] at h
  exact Option.isNone_iff_eq_none.1 (Option.isSome_eq_false_iff.1 h.1.1.2)

/-- A gossip's entry replaces nothing. -/
theorem getNode_takePeer {known : KnownNode}
    (h : table.getNode id = some known) (peer : KnownNode) :
    (table.takePeer peer).getNode id = some known := by
  by_cases htakes : table.takesPeer peer = true
  · have hne : id ≠ peer.nodeId := by
      rintro rfl
      rw [getNode_of_takesPeer htakes] at h
      cases h
    rw [takePeer, if_pos htakes, getNode_addNode_ne hne, h]
  · rw [takePeer, if_neg htakes, h]

@[simp] theorem ourNodeId_takePeer (table : RoutingTable)
    (peer : KnownNode) : (table.takePeer peer).ourNodeId
      = table.ourNodeId := by
  unfold takePeer
  split
  · exact ourNodeId_addNode table peer
  · rfl

theorem getNode_foldl_takePeer {known : KnownNode}
    (peers : List KnownNode) (h : table.getNode id = some known) :
    (peers.foldl takePeer table).getNode id = some known := by
  induction peers generalizing table with
  | nil => exact h
  | cons peer peers ih => exact ih (getNode_takePeer h peer)

theorem getNode_processGossip {P : Prims}
    {json : List KnownNode → List UInt8} {known : KnownNode}
    (h : table.getNode id = some known) (g : PeerGossip) :
    (table.processGossip P json g).getNode id = some known := by
  unfold processGossip
  split
  · exact h
  split
  · exact h
  · exact getNode_foldl_takePeer g.peers h

/-- A gossip leaves our own id alone, and who we are. -/
theorem foldl_takePeer_ours (peers : List KnownNode)
    (table : RoutingTable) :
    (peers.foldl takePeer table).ourNodeId = table.ourNodeId
      ∧ (peers.foldl takePeer table).getNode table.ourNodeId
        = table.getNode table.ourNodeId := by
  induction peers generalizing table with
  | nil => exact ⟨rfl, rfl⟩
  | cons peer peers ih =>
      obtain ⟨hours, hnode⟩ := ih (table.takePeer peer)
      rw [ourNodeId_takePeer] at hours hnode
      refine ⟨hours, hnode.trans ?_⟩
      by_cases htakes : table.takesPeer peer = true
      · have hne : table.ourNodeId ≠ peer.nodeId := by
          simp only [takesPeer, Bool.and_eq_true, decide_eq_true_eq]
            at htakes
          exact htakes.1.1.1.symm
        rw [takePeer, if_pos htakes, getNode_addNode_ne hne]
      · rw [takePeer, if_neg htakes]

theorem processGossip_ours {P : Prims} {json : List KnownNode → List UInt8}
    (table : RoutingTable) (g : PeerGossip) :
    (table.processGossip P json g).ourNodeId = table.ourNodeId
      ∧ (table.processGossip P json g).getNode table.ourNodeId
        = table.getNode table.ourNodeId := by
  unfold processGossip
  split
  · exact ⟨rfl, rfl⟩
  split
  · exact ⟨rfl, rfl⟩
  · exact foldl_takePeer_ours g.peers table

end RoutingTable

end StaticNet
