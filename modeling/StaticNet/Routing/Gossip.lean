/-
What a node tells of its routing table (`create_signed_gossip` of
`static-mesh/src/routing.rs`), and what is known after it is taken.

A gossip is a random sample of the table: its order is that of the table,
shuffled, and its length is bounded. The entries go without their
addresses and KEM keys, so whoever takes one knows of a node but cannot
use it as a hop.
-/
import StaticNet.Routing.Routes
import StaticNet.Swap.Proofs.Standing

namespace StaticNet

/-- What a sample of the table draws. -/
structure Sampling where
  order : IterOrder NodeId
  shuffle : List KnownNode → List KnownNode
  shuffled : ∀ l, (shuffle l).Perm l

/-- An entry as it is gossiped. -/
def KnownNode.stripped (n : KnownNode) : KnownNode :=
  { n with kemPublicKey := none, address := "" }

/-- The nodes that a gossip names. -/
def PeerGossip.names (g : PeerGossip) : Finset NodeId :=
  (g.peers.map KnownNode.nodeId).toFinset

namespace RoutingTable

-- ====== what is told

def unsignedGossip (table : RoutingTable) (o : Sampling) (maxPeers : Nat) :
    PeerGossip :=
  let nodes := o.shuffle ((o.order.iter table.nodes.keys).filterMap
    table.nodes.get)
  { fromNode := table.ourNodeId
    peers := (nodes.take (min maxPeers MAX_GOSSIP_PEERS)).map
      KnownNode.stripped
    identityPublicKey := Bytes.zero 32
    signature := [] }

def createSignedGossip (P : Prims) (json : List KnownNode → List UInt8)
    (table : RoutingTable) (o : Sampling) (maxPeers : Nat)
    (signingKey : SigningKey) : PeerGossip :=
  (table.unsignedGossip o maxPeers).sign P json signingKey

section Told

variable {P : Prims} {json : List KnownNode → List UInt8}
  {table : RoutingTable} (o : Sampling) (maxPeers : Nat)
  (signingKey : SigningKey)

/-- Only entries of the table are told. -/
theorem of_mem_unsignedGossip {peer : KnownNode}
    (h : peer ∈ (table.unsignedGossip o maxPeers).peers) :
    ∃ id n, table.getNode id = some n ∧ peer = n.stripped := by
  obtain ⟨n, hn, rfl⟩ := List.mem_map.1 h
  have hlisted := (o.shuffled _).subset (List.mem_of_mem_take hn)
  obtain ⟨id, -, hget⟩ := List.mem_filterMap.1 hlisted
  exact ⟨id, n, hget, rfl⟩

theorem names_unsignedGossip_subset (hkeyed : table.Keyed) :
    (table.unsignedGossip o maxPeers).names ⊆ table.nodes.keys := by
  intro id hid
  obtain ⟨peer, hpeer, rfl⟩ := List.mem_map.1 (List.mem_toFinset.1 hid)
  obtain ⟨id, n, hget, rfl⟩ := of_mem_unsignedGossip o maxPeers hpeer
  have hid : n.stripped.nodeId = id := hkeyed id n hget
  rw [hid]
  exact FMap.mem_keys_of_get hget

/-- A table that is not larger than the sample is told as a whole. -/
theorem names_unsignedGossip (hkeyed : table.Keyed)
    (hfew : table.nodes.keys.card ≤ min maxPeers MAX_GOSSIP_PEERS) :
    (table.unsignedGossip o maxPeers).names = table.nodes.keys := by
  apply Finset.Subset.antisymm (names_unsignedGossip_subset o _ hkeyed)
  intro id hid
  obtain ⟨n, hget⟩ := (FMap.mem_keys_iff _ _).1 hid
  have hlisted : n ∈ (o.order.iter table.nodes.keys).filterMap
      table.nodes.get :=
    List.mem_filterMap.2 ⟨id, (o.order.mem_iter _ _).2 hid, hget⟩
  have hlength : ((o.order.iter table.nodes.keys).filterMap
      table.nodes.get).length ≤ table.nodes.keys.card := by
    have hids : (o.order.iter table.nodes.keys).toFinset
        = table.nodes.keys := by
      ext k
      rw [List.mem_toFinset, o.order.mem_iter]
    rw [← hids, List.toFinset_card_of_nodup (o.order.nodup _), hids]
    exact List.length_filterMap_le _ _
  have htaken : n ∈ (o.shuffle ((o.order.iter table.nodes.keys).filterMap
      table.nodes.get)).take (min maxPeers MAX_GOSSIP_PEERS) := by
    rw [List.take_of_length_le]
    · exact (o.shuffled _).symm.subset hlisted
    · rw [(o.shuffled _).length_eq]
      exact hlength.trans hfew
  have hid : n.stripped.nodeId = id := hkeyed id n hget
  rw [← hid]
  exact List.mem_toFinset.2 (List.mem_map_of_mem
    (List.mem_map_of_mem htaken))

/-- What a node signs is taken: it is not too long, and verifies. -/
theorem createSignedGossip_verify (hsigns : P.Signs) :
    (table.createSignedGossip P json o maxPeers signingKey).verify P json
      = true := by
  unfold PeerGossip.verify
  rw [Bool.and_eq_true]
  constructor
  · apply decide_eq_true
    show ((List.take _ _).map KnownNode.stripped).length ≤ MAX_GOSSIP_PEERS
    rw [List.length_map, List.length_take]
    exact (Nat.min_le_left _ _).trans (Nat.min_le_right _ _)
  · exact hsigns signingKey _

end Told

-- ===== what is taken

section Taken

variable {table : RoutingTable}

/-- An entry that can be taken. -/
def Sane (peer : KnownNode) : Prop :=
  peer.address.utf8ByteSize ≤ 256 ∧ peer.kemPublicKey = none

/-- Whoever was unknown is known now, apart from oneself. -/
theorem keys_takePeer {peer : KnownNode} (hsane : Sane peer) :
    insert table.ourNodeId (table.takePeer peer).nodes.keys
      = insert peer.nodeId
          (insert table.ourNodeId table.nodes.keys) := by
  by_cases hours : peer.nodeId = table.ourNodeId
  · have hrefused : ¬ table.takesPeer peer = true := by
      unfold takesPeer
      rw [hours]
      simp
    rw [takePeer, if_neg hrefused, hours, Finset.insert_idem]
  by_cases hheld : table.nodes.contains peer.nodeId = true
  · have hrefused : ¬ table.takesPeer peer = true := by
      unfold takesPeer
      rw [hheld]
      simp
    obtain ⟨n, hget⟩ := (FMap.contains_eq_true _ _).1 hheld
    rw [takePeer, if_neg hrefused, Finset.insert_comm,
      Finset.insert_eq_self.2 (FMap.mem_keys_of_get hget)]
  · have htakes : table.takesPeer peer = true := by
      unfold takesPeer
      rw [hsane.2]
      simp [hours, hheld, hsane.1]
    rw [takePeer, if_pos htakes, addNode, if_pos hours]
    exact Finset.insert_comm _ _ _

theorem keys_foldl_takePeer (peers : List KnownNode)
    (hsane : ∀ peer ∈ peers, Sane peer) (table : RoutingTable) :
    insert table.ourNodeId (peers.foldl takePeer table).nodes.keys
      = insert table.ourNodeId table.nodes.keys
          ∪ (peers.map KnownNode.nodeId).toFinset := by
  induction peers generalizing table with
  | nil => exact (Finset.union_empty _).symm
  | cons peer peers ih =>
      have hrest := ih (fun p hp => hsane p (List.mem_cons_of_mem _ hp))
        (table.takePeer peer)
      rw [ourNodeId_takePeer,
        keys_takePeer (hsane peer List.mem_cons_self)] at hrest
      rw [List.foldl_cons, hrest, List.map_cons, List.toFinset_cons,
        Finset.insert_union, Finset.union_insert]

/-- An entry that is there after some were taken was there before, or is
one of them. -/
theorem of_getNode_foldl_takePeer {id : NodeId} {n : KnownNode}
    (peers : List KnownNode) (table : RoutingTable)
    (h : (peers.foldl takePeer table).getNode id = some n) :
    table.getNode id = some n
      ∨ table.getNode id = none ∧ n ∈ peers ∧ n.nodeId = id := by
  induction peers generalizing table with
  | nil => exact .inl h
  | cons peer peers ih =>
      rcases ih (table.takePeer peer) h with h | ⟨hnone, hn, hid⟩
      · unfold takePeer at h
        split at h
        · next htakes =>
            by_cases hid : id = peer.nodeId
            · subst hid
              have hours : peer.nodeId ≠ table.ourNodeId := by
                simp only [takesPeer, Bool.and_eq_true,
                  decide_eq_true_eq] at htakes
                exact htakes.1.1.1
              rw [getNode_addNode_self hours] at h
              obtain rfl := Option.some.inj h
              exact .inr ⟨getNode_of_takesPeer htakes,
                List.mem_cons_self, rfl⟩
            · rw [getNode_addNode_ne hid] at h
              exact .inl h
        · exact .inl h
      · refine .inr ⟨?_, List.mem_cons_of_mem _ hn, hid⟩
        by_contra hsome
        obtain ⟨m, hm⟩ := Option.ne_none_iff_exists'.1 hsome
        rw [getNode_takePeer hm peer] at hnone
        cases hnone

end Taken

end RoutingTable

end StaticNet
