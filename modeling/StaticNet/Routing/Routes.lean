/-
The routes a node builds (`static-mesh/src/routing.rs`,
`static-mesh/src/transport.rs`).

Three builders choose their intermediate hops alike: the entries of the
table that pass a filter, shuffled, the first `MIN_HOPS` of them. In a
table keyed by node id the entries that pass are distinct and as many as
the ids that do (`passing`), whatever the order of the table and of the
shuffle; what is left for each builder is its own filter and its own
fallback.
-/
import StaticNet.Routing.Basic

namespace StaticNet

namespace RoutingTable

-- ========= fallbacks

/-- The route of one hop. -/
def directRoute (dest : NodeId) (destPub : Bytes 32)
    (destKem : List UInt8) : HybridRoute where
  hops := [⟨dest, destPub, destKem⟩]
  destination := dest

/-- `build_route_to_destination`. -/
def buildRouteToDestination (table : RoutingTable) (o : IterOrder NodeId)
    (shuffle : List KnownNode → List KnownNode) (dest : NodeId) :
    Option HybridRoute :=
  match table.getNode dest with
  | none => none
  | some destNode =>
      match destNode.kemPublicKey with
      | none => none
      | some destKem =>
          match table.buildHybridRoute o shuffle dest destNode.publicKey
              destKem with
          | some route => some route
          | none => some (directRoute dest destNode.publicKey destKem)

-- ============ routes

/-- Every entry stands under its own id. -/
def Keyed (table : RoutingTable) : Prop :=
  ∀ id n, table.nodes.get id = some n → n.nodeId = id

/-- The ids that may stand between two nodes: neither of theirs, and
known with a KEM key. -/
def relays (table : RoutingTable) (self destination : NodeId) :
    Finset NodeId :=
  table.nodes.keys.filter fun id =>
    id ≠ self ∧ id ≠ destination
      ∧ (table.nodes.get id).any (fun n => n.kemPublicKey.isSome) = true

/-- A route with all its intermediates. -/
structure IsRoute (table : RoutingTable) (self destination : NodeId)
    (destPub : Bytes 32) (destKem : List UInt8) (route : HybridRoute) :
    Prop where
  length : route.hops.length = MIN_HOPS + 1
  distinct : (route.hops.map HybridRouteHop.nodeId).Nodup
  last : route.hops.getLast? = some ⟨destination, destPub, destKem⟩
  target : route.destination = destination
  before : ∀ hop ∈ route.hops.dropLast, hop.nodeId ≠ destination
  not_self : ∀ hop ∈ route.hops, hop.nodeId = self → self = destination
  known : ∀ hop ∈ route.hops.dropLast,
    ∃ n, table.getNode hop.nodeId = some n
      ∧ hop.classicalPublicKey = n.publicKey
      ∧ some hop.kemPublicKey = n.kemPublicKey

-- ======== candidates

section Passing

variable {table : RoutingTable} {o : IterOrder NodeId}
  {p : KnownNode → Bool}

/-- The entries that pass a filter, in the order of the table. -/
def passing (table : RoutingTable) (o : IterOrder NodeId)
    (p : KnownNode → Bool) : List KnownNode :=
  ((o.iter table.nodes.keys).filterMap table.nodes.get).filter p

theorem mem_passing (h : table.Keyed) {n : KnownNode} :
    n ∈ table.passing o p ↔ table.getNode n.nodeId = some n ∧ p n = true := by
  rw [passing, List.mem_filter, List.mem_filterMap]
  refine and_congr_left fun _ => ?_
  constructor
  · intro hmem
    obtain ⟨id, -, hget⟩ := hmem
    rw [getNode, h id n hget]
    exact hget
  · intro hget
    refine ⟨n.nodeId, ?_, hget⟩
    exact (o.mem_iter _ _).2 (FMap.mem_keys_of_get hget)

theorem nodup_passing (h : table.Keyed) :
    ((table.passing o p).map KnownNode.nodeId).Nodup := by
  have hids : ∀ ids : List NodeId, ids.Nodup →
      ((ids.filterMap table.nodes.get).map KnownNode.nodeId).Nodup := by
    intro ids
    induction ids with
    | nil => exact fun _ => List.nodup_nil
    | cons id ids ih =>
        intro hnodup
        obtain ⟨hid, hrest⟩ := List.nodup_cons.1 hnodup
        rw [List.filterMap_cons]
        cases hget : table.nodes.get id with
        | none => exact ih hrest
        | some n =>
            simp only [List.map_cons]
            refine List.nodup_cons.2 ⟨?_, ih hrest⟩
            intro hmem
            obtain ⟨m, hm, hmid⟩ := List.mem_map.1 hmem
            obtain ⟨id', hid', hget'⟩ := List.mem_filterMap.1 hm
            rw [h id' m hget', h id n hget] at hmid
            rw [hmid] at hid'
            exact hid hid'
  exact (hids _ (o.nodup _)).sublist
    ((List.filter_sublist).map KnownNode.nodeId)

/-- There are as many as there are ids with such an entry. -/
theorem length_passing (h : table.Keyed) :
    (table.passing o p).length
      = (table.nodes.keys.filter fun id =>
          (table.nodes.get id).any p = true).card := by
  rw [← List.length_map KnownNode.nodeId,
    ← List.toFinset_card_of_nodup (nodup_passing h)]
  congr 1
  ext id
  rw [List.mem_toFinset, List.mem_map, Finset.mem_filter]
  constructor
  · intro hmem
    obtain ⟨n, hn, rfl⟩ := hmem
    obtain ⟨hget, hp⟩ := (mem_passing h).1 hn
    rw [getNode] at hget
    refine ⟨FMap.mem_keys_of_get hget, ?_⟩
    rw [hget]
    exact hp
  · intro hmem
    obtain ⟨hkey, hany⟩ := hmem
    obtain ⟨n, hget⟩ := (FMap.mem_keys_iff _ _).1 hkey
    rw [hget] at hany
    have hid := h id n hget
    refine ⟨n, (mem_passing h).2 ⟨?_, hany⟩, hid⟩
    rw [getNode, hid]
    exact hget

end Passing

-- ========= one route

section Route

variable {table : RoutingTable} {o : IterOrder NodeId}
  {shuffle : List KnownNode → List KnownNode} {p : KnownNode → Bool}
  {self destination : NodeId}

/-- The first few of any order of enough candidates make a route. -/
theorem isRoute_of_passing (hkeyed : table.Keyed)
    (hshuffle : ∀ l, (shuffle l).Perm l)
    (hp : ∀ n, p n = true →
      n.nodeId ≠ self ∧ n.nodeId ≠ destination
        ∧ n.kemPublicKey.isSome = true)
    (hmany : MIN_HOPS ≤ (table.passing o p).length) (destPub : Bytes 32)
    (destKem : List UInt8) :
    table.IsRoute self destination destPub destKem
      { hops := ((shuffle (table.passing o p)).take MIN_HOPS).map asHop
          ++ [⟨destination, destPub, destKem⟩]
        destination := destination } := by
  have hperm := hshuffle (table.passing o p)
  -- what is known of a chosen hop
  have hhop : ∀ hop ∈ ((shuffle (table.passing o p)).take MIN_HOPS).map
      asHop, ∃ n, table.getNode n.nodeId = some n ∧ p n = true
        ∧ hop = asHop n := by
    intro hop hmem
    obtain ⟨n, hn, rfl⟩ := List.mem_map.1 hmem
    have hpass := hperm.subset (List.mem_of_mem_take hn)
    obtain ⟨hget, hpn⟩ := (mem_passing hkeyed).1 hpass
    exact ⟨n, hget, hpn, rfl⟩
  have hbefore : ∀ hop ∈ ((shuffle (table.passing o p)).take
      MIN_HOPS).map asHop, hop.nodeId ≠ destination := by
    intro hop hmem
    obtain ⟨n, -, hpn, rfl⟩ := hhop hop hmem
    exact (hp n hpn).2.1
  refine ⟨?_, ?_, ?_, rfl, ?_, ?_, ?_⟩
  · rw [List.length_append, List.length_map, List.length_take,
      hperm.length_eq, Nat.min_eq_left hmany]
    rfl
  · rw [List.map_append, List.map_map]
    have hchosen : (((shuffle (table.passing o p)).take MIN_HOPS).map
        KnownNode.nodeId).Nodup :=
      (((hperm.map KnownNode.nodeId).nodup_iff).2
        (nodup_passing hkeyed)).sublist
          ((List.take_sublist _ _).map KnownNode.nodeId)
    refine List.Nodup.append hchosen (List.nodup_singleton _) ?_
    intro id hid hdest
    rw [List.map_singleton, List.mem_singleton] at hdest
    obtain ⟨n, hn, rfl⟩ := List.mem_map.1 hid
    exact hbefore _ (List.mem_map_of_mem hn) hdest
  · exact List.getLast?_concat
  · rw [List.dropLast_concat]
    exact hbefore
  · intro hop hmem hself
    rcases List.mem_append.1 hmem with hmem | hmem
    · obtain ⟨n, -, hpn, rfl⟩ := hhop hop hmem
      exact absurd hself (hp n hpn).1
    · rw [List.mem_singleton] at hmem
      rw [hmem] at hself
      exact hself.symm
  · rw [List.dropLast_concat]
    intro hop hmem
    obtain ⟨n, hget, hpn, rfl⟩ := hhop hop hmem
    refine ⟨n, hget, rfl, ?_⟩
    obtain ⟨kem, hkem⟩ := Option.isSome_iff_exists.1 (hp n hpn).2.2
    show some (n.kemPublicKey.getD []) = n.kemPublicKey
    rw [hkem]
    rfl

/-- The candidates of `build_hybrid_route` are the relays. -/
theorem length_candidates (hkeyed : table.Keyed) :
    (table.candidates o (some destination)).length
      = (table.relays table.ourNodeId destination).card := by
  have hlen := length_passing (o := o) (p := fun n =>
    some destination ≠ some n.nodeId && n.nodeId ≠ table.ourNodeId
      && n.kemPublicKey.isSome) hkeyed
  rw [candidates, ← passing, hlen, relays]
  congr 1
  apply Finset.filter_congr
  intro id hid
  obtain ⟨n, hget⟩ := (FMap.mem_keys_iff _ _).1 hid
  rw [hget, ← hkeyed id n hget]
  simp only [Option.any_some, Bool.and_eq_true, decide_eq_true_eq,
    ne_eq, Option.some.injEq]
  tauto

/-- The candidates of `build_self_return_route` are the relays between a
node and itself. -/
theorem length_back (hkeyed : table.Keyed) (nodeId : NodeId) :
    (table.passing o fun n =>
        n.nodeId ≠ nodeId && n.kemPublicKey.isSome).length
      = (table.relays nodeId nodeId).card := by
  rw [length_passing hkeyed, relays]
  congr 1
  apply Finset.filter_congr
  intro id hid
  obtain ⟨n, hget⟩ := (FMap.mem_keys_iff _ _).1 hid
  rw [hget, ← hkeyed id n hget]
  simp only [Option.any_some, Bool.and_eq_true, decide_eq_true_eq, ne_eq]
  tauto

end Route

-- ====== construction

/-- What the three builders return, for every order of the table and
every outcome of the shuffle. -/
theorem route_construction (table : RoutingTable) (o : IterOrder NodeId)
    (shuffle : List KnownNode → List KnownNode) (hkeyed : table.Keyed)
    (hshuffle : ∀ l, (shuffle l).Perm l) (destination : NodeId) :
    (∀ (destPub : Bytes 32) (destKem : List UInt8),
        ((table.buildHybridRoute o shuffle destination destPub
            destKem).isSome = true
          ↔ MIN_HOPS ≤ (table.relays table.ourNodeId destination).card)
        ∧ ∀ route, table.buildHybridRoute o shuffle destination destPub
            destKem = some route →
          table.IsRoute table.ourNodeId destination destPub destKem route)
      ∧ ((table.buildRouteToDestination o shuffle destination = none
          ↔ ∀ n, table.getNode destination = some n →
            n.kemPublicKey = none)
        ∧ ∀ n destKem, table.getNode destination = some n →
          n.kemPublicKey = some destKem →
          table.buildRouteToDestination o shuffle destination
            = some ((table.buildHybridRoute o shuffle destination
                n.publicKey destKem).getD
              (directRoute destination n.publicKey destKem)))
      ∧ ∀ (ourPub : Bytes 32) (ourKem : List UInt8),
        (MIN_HOPS ≤ (table.relays destination destination).card →
          table.IsRoute destination destination ourPub ourKem
            (table.buildSelfReturnRoute o shuffle destination ourPub
              ourKem))
        ∧ ((table.relays destination destination).card < MIN_HOPS →
          table.buildSelfReturnRoute o shuffle destination ourPub ourKem
            = directRoute destination ourPub ourKem) := by
  refine ⟨?_, ⟨?_, ?_⟩, ?_⟩
  · intro destPub destKem
    have hlen : (table.candidates o (some destination)).length
        = (table.relays table.ourNodeId destination).card :=
      length_candidates hkeyed
    rw [buildHybridRoute]
    by_cases hfew : (table.candidates o (some destination)).length
        < MIN_HOPS
    · rw [if_pos hfew]
      refine ⟨?_, fun route h => by cases h⟩
      rw [← hlen]
      exact iff_of_false (by simp) (by omega)
    · rw [if_neg hfew]
      refine ⟨?_, ?_⟩
      · rw [← hlen]
        exact iff_of_true rfl (by omega)
      · intro route h
        rw [← Option.some.inj h]
        refine isRoute_of_passing hkeyed hshuffle ?_ (Nat.not_lt.1 hfew)
          destPub destKem
        intro n hn
        simp only [Bool.and_eq_true, decide_eq_true_eq, ne_eq,
          Option.some.injEq] at hn
        exact ⟨hn.1.2, fun heq => hn.1.1 heq.symm, hn.2⟩
  · rw [buildRouteToDestination]
    cases hnode : table.getNode destination with
    | none => exact iff_of_true rfl fun n h => by cases h
    | some node =>
        cases hkem : node.kemPublicKey with
        | none =>
            refine iff_of_true (by simp [hkem]) ?_
            intro n h
            cases h
            exact hkem
        | some kem =>
            refine iff_of_false ?_ ?_
            · simp only [hkem]
              cases table.buildHybridRoute o shuffle destination
                  node.publicKey kem with
              | none => simp
              | some route => simp
            · intro hall
              rw [hall node rfl] at hkem
              cases hkem
  · intro n destKem hnode hkem
    rw [buildRouteToDestination, hnode]
    simp only [hkem]
    cases table.buildHybridRoute o shuffle destination n.publicKey
        destKem with
    | none => rfl
    | some route => rfl
  · intro ourPub ourKem
    have hlen := length_back (o := o) hkeyed destination
    rw [← hlen]
    refine ⟨?_, ?_⟩
    · intro hmany
      rw [buildSelfReturnRoute, ← passing, if_neg (Nat.not_lt.2 hmany)]
      refine isRoute_of_passing hkeyed hshuffle ?_ hmany ourPub ourKem
      intro n hn
      simp only [Bool.and_eq_true, decide_eq_true_eq, ne_eq] at hn
      exact ⟨hn.1, hn.1, hn.2⟩
    · intro hfew
      rw [buildSelfReturnRoute, ← passing, if_pos hfew]
      rfl

-- ====== three relays

/-- A node with a KEM key. -/
def kemNode (i : UInt8) : KnownNode where
  nodeId := Bytes.fill 16 i
  publicKey := Bytes.fill 32 i
  address := ""
  kemPublicKey := some [i]
  computeEnabled := false
  computeCapacity := 0
  identityPublicKey := none

/-- A table of four such nodes, none of them ours. -/
def fourNodes : RoutingTable :=
  ([1, 2, 3, 4].map kemNode).foldl addNode (.new (Bytes.zero 16))

theorem keyed_addNode {table : RoutingTable} (h : table.Keyed)
    (node : KnownNode) :
    (table.addNode node).Keyed := by
  rw [addNode]
  by_cases hours : node.nodeId ≠ table.ourNodeId
  · rw [if_pos hours]
    intro id n hget
    simp only [FMap.get_insert] at hget
    by_cases hid : id = node.nodeId
    · rw [if_pos hid] at hget
      rw [hid, Option.some.inj hget]
    · rw [if_neg hid] at hget
      exact h id n hget
  · rw [if_neg hours]
    exact h

theorem keyed_foldl_addNode {table : RoutingTable} (h : table.Keyed)
    (nodes : List KnownNode) : (nodes.foldl addNode table).Keyed := by
  induction nodes generalizing table with
  | nil => exact h
  | cons node nodes ih => exact ih (keyed_addNode h node)

theorem fourNodes_keyed : fourNodes.Keyed := by
  apply keyed_foldl_addNode
  intro id n hget
  cases hget

/-- The route to the fourth passes the other three. -/
theorem route_construction_four :
    ((fourNodes.buildHybridRoute IterOrder.bytewise id (Bytes.fill 16 4)
        (Bytes.fill 32 4) [4]).isSome = true)
      ∧ fourNodes.IsRoute (Bytes.fill 16 4) (Bytes.fill 16 4)
        (Bytes.fill 32 4) [4]
        (fourNodes.buildSelfReturnRoute IterOrder.bytewise id
          (Bytes.fill 16 4) (Bytes.fill 32 4) [4]) := by
  have hroutes := route_construction fourNodes IterOrder.bytewise id
    fourNodes_keyed (fun l => List.Perm.refl l) (Bytes.fill 16 4)
  have hto : MIN_HOPS ≤ (fourNodes.relays fourNodes.ourNodeId
      (Bytes.fill 16 4)).card := by
    decide +kernel
  have hback : MIN_HOPS ≤ (fourNodes.relays (Bytes.fill 16 4)
      (Bytes.fill 16 4)).card := by
    decide +kernel
  exact ⟨(hroutes.1 _ _).1.2 hto, (hroutes.2.2 _ _).1 hback⟩

end RoutingTable

end StaticNet
