/-
Whom a sender hands its packets to.

# The rule

The packets of a route are for its first hop: the outer layer is sealed
to that hop's key (`Sending.ToFirstHop`).

# Where it breaks

Five of the six senders call with the first hop of the route. The report
of a missing chunk calls with the peer it is for, at the end of the
route. The two are the same as long as the table holds too few other
nodes for a longer route, and differ in every larger network
(`to_first_hop_iff`).
-/
import StaticNet.Node.Senders

namespace StaticNet

-- ========= the route

namespace Turn

variable {t : Turn} {destination : NodeId} {path : HybridRoute}

/-- The table has enough other nodes for intermediate hops. -/
def Long (t : Turn) (destination : NodeId) : Prop :=
  MIN_HOPS ≤ (t.table.candidates t.order (some destination)).length

theorem ne_of_mem_candidates {n : KnownNode}
    (h : n ∈ t.table.candidates t.order (some destination)) :
    n.nodeId ≠ destination := by
  have hpass := (List.mem_filter.1 h).2
  simp only [Bool.and_eq_true, decide_eq_true_eq] at hpass
  intro heq
  exact hpass.1.1 (congrArg some heq.symm)

/-- What `build_route_to_destination` gives: the destination behind its
relays, which are candidates; none unless there are enough for all the
hops. -/
theorem route_shape (h : t.route destination = some path) :
    ∃ relays last, path = ⟨relays ++ [last], destination⟩
      ∧ last.nodeId = destination
      ∧ (∀ hop ∈ relays,
        ∃ n ∈ t.table.candidates t.order (some destination),
          hop = RoutingTable.asHop n)
      ∧ (t.Long destination → relays.length = MIN_HOPS)
      ∧ (¬ t.Long destination → relays = []) := by
  unfold Turn.route RoutingTable.buildRouteToDestination
    RoutingTable.buildHybridRoute at h
  cases hnode : t.table.getNode destination with
  | none =>
      rw [hnode] at h
      cases h
  | some n =>
      rw [hnode] at h
      cases hkem : n.kemPublicKey with
      | none =>
          simp only [hkem] at h
          cases h
      | some kem =>
          simp only [hkem] at h
          by_cases hlong : t.Long destination
          · rw [if_neg (Nat.not_lt.2 hlong)] at h
            cases h
            refine ⟨_, ⟨destination, n.publicKey, kem⟩, rfl, rfl, ?_, ?_,
              fun hnot => absurd hlong hnot⟩
            · intro hop hhop
              obtain ⟨m, hm, rfl⟩ := List.mem_map.1 hhop
              exact ⟨m, (t.shuffle_perm _).mem_iff.1
                (List.mem_of_mem_take hm), rfl⟩
            · intro _
              rw [List.length_map, List.length_take,
                (t.shuffle_perm _).length_eq]
              exact Nat.min_eq_left hlong
          · rw [if_pos (Nat.lt_of_not_le hlong)] at h
            cases h
            refine ⟨[], ⟨destination, n.publicKey, kem⟩, rfl, rfl, ?_, ?_,
              fun _ => rfl⟩
            · intro hop hhop
              cases hhop
            · intro hyes
              exact absurd hyes hlong

/-- The first hop is the destination on a route of one hop, and on no
other. -/
theorem firstHop_eq_iff (h : t.route destination = some path) :
    path.firstHop = destination ↔ ¬ t.Long destination := by
  obtain ⟨relays, last, rfl, hlast, hrelays, hlong, hshort⟩ := route_shape h
  cases relays with
  | nil =>
      refine ⟨fun _ hyes => ?_, fun _ => hlast⟩
      cases hlong hyes
  | cons first rest =>
      refine ⟨fun heq => ?_, fun hnot => ?_⟩
      · obtain ⟨n, hn, rfl⟩ := hrelays first List.mem_cons_self
        exact absurd heq (ne_of_mem_candidates hn)
      · cases hshort hnot

/-- A built route has a first hop. -/
theorem head_eq (h : t.route destination = some path) :
    path.hops.head?.map HybridRouteHop.nodeId = some path.firstHop := by
  obtain ⟨relays, last, rfl, -, -, -, -⟩ := route_shape h
  cases relays with
  | nil => rfl
  | cons first rest => rfl

theorem length_hops (h : t.route destination = some path) :
    0 < path.hops.length ∧ path.hops.length ≤ MAX_HOPS := by
  obtain ⟨relays, last, rfl, -, -, hlong, hshort⟩ := route_shape h
  rw [List.length_append, List.length_singleton]
  by_cases hyes : t.Long destination
  · rw [hlong hyes]
    decide
  · rw [hshort hyes]
    decide

end Turn

-- ======= the packets

section Packets

variable {P : Prims} {kemLookup : NodeId → Option (List UInt8)}

/-- A hop without its KEM key. -/
def HybridRouteHop.classical (hop : HybridRouteHop) : RouteHop :=
  ⟨hop.classicalPublicKey, hop.nodeId⟩

theorem hopWithKem_ok {hop : RouteHop} {h : HybridRouteHop}
    (heq : hopWithKem kemLookup hop = .ok h) :
    h.classical = hop ∧ kemLookup h.nodeId = some h.kemPublicKey := by
  unfold hopWithKem at heq
  cases hkem : kemLookup hop.nodeId with
  | none =>
      rw [hkem] at heq
      cases heq
  | some kem =>
      rw [hkem] at heq
      cases heq
      exact ⟨rfl, hkem⟩

/-- The same hops, each with the key found for it. -/
theorem hopsWithKem_ok {hops : List RouteHop} {hs : List HybridRouteHop}
    (heq : hopsWithKem kemLookup hops = .ok hs) :
    hs.map HybridRouteHop.classical = hops
      ∧ ∀ h ∈ hs, kemLookup h.nodeId = some h.kemPublicKey := by
  induction hops generalizing hs with
  | nil =>
      cases heq
      exact ⟨rfl, fun h hmem => by cases hmem⟩
  | cons hop hops ih =>
      unfold hopsWithKem at heq
      cases hone : hopWithKem kemLookup hop with
      | error e =>
          rw [hone] at heq
          cases heq
      | ok h =>
          cases hrest : hopsWithKem kemLookup hops with
          | error e =>
              rw [hone, hrest] at heq
              cases heq
          | ok rest =>
              rw [hone, hrest] at heq
              cases heq
              obtain ⟨hclassical, hkem⟩ := hopWithKem_ok hone
              obtain ⟨hmap, hall⟩ := ih hrest
              refine ⟨by rw [List.map_cons, hclassical, hmap], ?_⟩
              intro x hx
              rcases List.mem_cons.1 hx with rfl | hx
              · exact hkem
              · exact hall x hx

theorem hopsWithKem_of {hops : List RouteHop}
    (h : ∀ hop ∈ hops, ∃ kem, kemLookup hop.nodeId = some kem) :
    ∃ hs, hopsWithKem kemLookup hops = .ok hs := by
  induction hops with
  | nil => exact ⟨[], rfl⟩
  | cons hop hops ih =>
      obtain ⟨kem, hkem⟩ := h hop List.mem_cons_self
      obtain ⟨hs, hrest⟩ := ih fun x hx => h x (List.mem_cons_of_mem _ hx)
      refine ⟨⟨hop.nodeId, hop.publicKey, kem⟩ :: hs, ?_⟩
      unfold hopsWithKem hopWithKem
      rw [hkem, hrest]

/-- One step of the chain. -/
theorem chainLayers_cons_ok {d : PacketDraws} {hop : HybridRouteHop}
    {hops : List HybridRouteHop} {i : Nat} {alpha : Bytes 32}
    {scalar : Scalar} {agreed : SymmetricKey × List UInt8}
    (h : hybridAgree P d i hop (P.pointMul hop.classicalPublicKey scalar)
      = .ok agreed) :
    (∃ layers, chainLayers P HybridRouteHop.classicalPublicKey
        HybridRouteHop.nodeId (hybridAgree P d) i alpha scalar (hop :: hops)
          = .ok layers)
      ↔ ∃ layers, chainLayers P HybridRouteHop.classicalPublicKey
        HybridRouteHop.nodeId (hybridAgree P d) (i + 1)
        (P.pointMul alpha (blindingFactor P agreed.1))
        (scalar * blindingFactor P agreed.1) hops = .ok layers := by
  rw [chainLayers, h]
  cases hrest : chainLayers P HybridRouteHop.classicalPublicKey
      HybridRouteHop.nodeId (hybridAgree P d) (i + 1)
      (P.pointMul alpha (blindingFactor P agreed.1))
      (scalar * blindingFactor P agreed.1) hops with
  | error e => simp [hrest]
  | ok layers => simp [hrest]

/-- The layers of a chain exist when every hop's key can be encapsulated
to. -/
theorem chainLayers_ok_iff {d : PacketDraws}
    (hops : List HybridRouteHop) (start : Nat) (alpha : Bytes 32)
    (scalar : Scalar) :
    (∃ layers, chainLayers P HybridRouteHop.classicalPublicKey
        HybridRouteHop.nodeId (hybridAgree P d) start alpha scalar hops
          = .ok layers)
      ↔ ∀ i hop, hops[i]? = some hop →
        (P.encapsulateTo hop.kemPublicKey (d.coins (start + i))).isSome
          = true := by
  induction hops generalizing start alpha scalar with
  | nil =>
      refine ⟨fun _ i hop hget => ?_, fun _ => ⟨[], rfl⟩⟩
      cases hget
  | cons hop hops ih =>
      cases hone : P.encapsulateTo hop.kemPublicKey (d.coins start) with
      | none =>
          refine ⟨fun hok => ?_, fun hall => ?_⟩
          · obtain ⟨layers, hlayers⟩ := hok
            unfold chainLayers hybridAgree at hlayers
            rw [hone] at hlayers
            cases hlayers
          · have hfirst := hall 0 hop rfl
            rw [Nat.add_zero, hone] at hfirst
            cases hfirst
      | some r =>
          have hagree : ∀ dh, hybridAgree P d start hop dh
              = .ok (P.hybridSharedSecret dh r.1 "sphinx/hybrid-hop",
                r.2) := by
            intro dh
            unfold hybridAgree
            rw [hone]
          rw [chainLayers_cons_ok (hagree _), ih]
          constructor
          · intro hall i h hget
            cases i with
            | zero =>
                cases hget
                rw [Nat.add_zero, hone]
                rfl
            | succ i =>
                rw [Nat.add_comm i 1, ← Nat.add_assoc]
                exact hall i h hget
          · intro hall i h hget
            rw [Nat.add_assoc, Nat.add_comm 1 i]
            exact hall (i + 1) h hget

/-- A packet is built exactly when there are hops, not too many, with
keys to encapsulate to. -/
theorem createPacketHybrid_ok_iff {d : PacketDraws} {route : HybridRoute}
    {body : List UInt8} (hpos : 0 < route.hops.length)
    (hmax : route.hops.length ≤ MAX_HOPS)
    (hbody : body.length ≤ BODY_SIZE) :
    (∃ packet, createPacketHybrid P d route body = .ok packet)
      ↔ ∀ i hop, route.hops[i]? = some hop →
        (P.encapsulateTo hop.kemPublicKey (d.coins i)).isSome = true := by
  have hchain : (∃ layers, hybridLayers P d route.hops = .ok layers)
      ↔ ∀ i hop, route.hops[i]? = some hop →
        (P.encapsulateTo hop.kemPublicKey (d.coins i)).isSome = true := by
    have hfrom := chainLayers_ok_iff (P := P) (d := d) route.hops 0
      (P.pointMul BASE_POINT d.scalar) d.scalar
    simp only [Nat.zero_add] at hfrom
    exact hfrom
  unfold createPacketHybrid
  rw [if_neg (by omega), if_neg (by omega)]
  by_cases hsize : route.hops.any
      fun h => h.kemPublicKey.length ≠ KEM_PUBLIC_KEY_SIZE
  · rw [if_pos hsize]
    refine ⟨fun hok => ?_, fun hall => ?_⟩
    · obtain ⟨packet, hpacket⟩ := hok
      cases hpacket
    · obtain ⟨hop, hmem, hlen⟩ := List.any_eq_true.1 hsize
      obtain ⟨i, hget⟩ := List.mem_iff_getElem?.1 hmem
      have hsome := hall i hop hget
      unfold Prims.encapsulateTo at hsome
      rw [if_pos (of_decide_eq_true hlen)] at hsome
      cases hsome
  · rw [if_neg hsize, ← hchain]
    cases hlayers : hybridLayers P d route.hops with
    | error e => simp
    | ok layers => simp

theorem bodyPackets_ok_iff {draws : Nat → PacketDraws}
    {route : HybridRoute} (bodies : List (List UInt8)) (i : Nat) :
    (∃ packets, bodyPackets P draws route i bodies = .ok packets)
      ↔ ∀ k body, bodies[k]? = some body → ∃ packet,
        createPacketHybrid P (draws (i + k)) route body = .ok packet := by
  induction bodies generalizing i with
  | nil =>
      refine ⟨fun _ k body hget => ?_, fun _ => ⟨[], rfl⟩⟩
      cases hget
  | cons body bodies ih =>
      have hcons : (∃ packets, bodyPackets P draws route i (body :: bodies)
            = .ok packets)
          ↔ (∃ packet, createPacketHybrid P (draws i) route body
              = .ok packet)
            ∧ ∃ packets, bodyPackets P draws route (i + 1) bodies
              = .ok packets := by
        rw [bodyPackets]
        cases hone : createPacketHybrid P (draws i) route body with
        | error e => simp
        | ok packet =>
            cases hrest : bodyPackets P draws route (i + 1) bodies with
            | error e => simp
            | ok packets => simp
      rw [hcons, ih]
      constructor
      · intro h k b hget
        cases k with
        | zero =>
            cases hget
            exact h.1
        | succ k =>
            rw [Nat.add_comm k 1, ← Nat.add_assoc]
            exact h.2 k b hget
      · intro h
        refine ⟨h 0 body rfl, fun k b hget => ?_⟩
        rw [Nat.add_assoc, Nat.add_comm 1 k]
        exact h (k + 1) b hget

/-- Every packet is one of the route's. -/
theorem bodyPackets_made {draws : Nat → PacketDraws}
    {route : HybridRoute} {bodies : List (List UInt8)} {i : Nat}
    {packets : List SphinxPacket}
    (h : bodyPackets P draws route i bodies = .ok packets) :
    packets.length = bodies.length
      ∧ ∀ packet ∈ packets, ∃ d body,
        createPacketHybrid P d route body = .ok packet := by
  have hall := bodyPackets_get h
  refine ⟨by rw [← hall.length_eq, List.length_zipIdx], fun p hp => ?_⟩
  obtain ⟨k, hk, rfl⟩ := List.getElem_of_mem hp
  exact ⟨_, _, hall.get (hall.length_eq ▸ hk) hk⟩

end Packets

-- ========== the turn

namespace Turn

variable {P : Prims} {t : Turn} {destination : NodeId}
  {path : HybridRoute} {payload : List UInt8}

/-- A built route ends with its destination, so its packets are for its
own hops. -/
theorem effectiveRoute_eq {kemLookup : NodeId → Option (List UInt8)}
    {hops : List HybridRouteHop} (h : t.route destination = some path)
    (hhops : hopsWithKem kemLookup path.classical.hops = .ok hops) :
    effectiveRoute kemLookup path.classical = .ok ⟨hops, destination⟩ := by
  obtain ⟨relays, last, rfl, hlast, -, -, -⟩ := route_shape h
  have hmap := (hopsWithKem_ok hhops).1
  have hend : hops.getLast?.map HybridRouteHop.nodeId
      = some destination := by
    have hids := congrArg (fun l => l.getLast?.map RouteHop.nodeId) hmap
    simp only [List.getLast?_map, Option.map_map, HybridRoute.classical,
      List.map_append, List.map_singleton, List.getLast?_concat,
      Option.map_some, hlast] at hids
    exact hids
  unfold effectiveRoute
  rw [hhops]
  exact if_neg (not_not.2 hend)

theorem getElem_classical {xs ys : List HybridRouteHop} {i : Nat}
    {x : HybridRouteHop}
    (h : xs.map HybridRouteHop.classical
      = ys.map HybridRouteHop.classical) (hget : xs[i]? = some x) :
    ∃ y, ys[i]? = some y ∧ y.classical = x.classical := by
  have hmap : (ys.map HybridRouteHop.classical)[i]? = some x.classical := by
    rw [← h, List.getElem?_map, hget]
    rfl
  rw [List.getElem?_map] at hmap
  exact Option.map_eq_some_iff.1 hmap

theorem nodeId_classical {x y : HybridRouteHop}
    (h : x.classical = y.classical) : x.nodeId = y.nodeId :=
  congrArg RouteHop.nodeId h

/-- Every hop has a key in the table, and the packet of every fragment can
encapsulate to it. -/
def Sealable (P : Prims) (t : Turn) (payload : List UInt8)
    (path : HybridRoute) : Prop :=
  ∀ i hop, path.hops[i]? = some hop →
    ∃ kem, t.kemLookup hop.nodeId = some kem
      ∧ ∀ k < (fragmentPayload payload).length,
        (P.encapsulateTo kem ((t.draws k).coins i)).isSome = true

theorem fragmentPayload_pos (payload : List UInt8) :
    0 < (fragmentPayload payload).length := by
  unfold fragmentPayload
  rw [List.length_map, List.length_range]
  omega

theorem packets_ok_iff (h : t.route destination = some path) :
    (∃ packets, t.packets P payload path = .ok packets)
      ↔ t.Sealable P payload path := by
  obtain ⟨hpos, hmax⟩ := length_hops h
  unfold Turn.packets createHybridPayloadPackets
  cases hhops : hopsWithKem t.kemLookup path.classical.hops with
  | error e =>
      unfold effectiveRoute
      rw [hhops]
      refine ⟨fun hok => ?_, fun hseal => ?_⟩
      · obtain ⟨packets, hpackets⟩ := hok
        cases hpackets
      · have hkeys : ∀ hop ∈ path.classical.hops,
            ∃ kem, t.kemLookup hop.nodeId = some kem := by
          intro hop hmem
          obtain ⟨x, hx, rfl⟩ := List.mem_map.1 hmem
          obtain ⟨i, hget⟩ := List.mem_iff_getElem?.1 hx
          obtain ⟨kem, hkem, -⟩ := hseal i x hget
          exact ⟨kem, hkem⟩
        obtain ⟨hs, hok⟩ := hopsWithKem_of hkeys
        rw [hok] at hhops
        cases hhops
  | ok hops =>
      obtain ⟨hmap, hkeys⟩ := hopsWithKem_ok hhops
      have hlen : hops.length = path.hops.length := by
        have hlens := congrArg List.length hmap
        rw [List.length_map] at hlens
        exact hlens.trans (List.length_map _)
      rw [effectiveRoute_eq h hhops]
      simp only
      rw [bodyPackets_ok_iff]
      have hpacket : ∀ (k : Nat) (f : Fragment), (∃ packet,
          createPacketHybrid P (t.draws (0 + k)) ⟨hops, destination⟩
            (serializeFragment f) = .ok packet)
          ↔ ∀ i hop, hops[i]? = some hop → (P.encapsulateTo
            hop.kemPublicKey ((t.draws k).coins i)).isSome = true := by
        intro k f
        rw [Nat.zero_add]
        exact createPacketHybrid_ok_iff (by simp only; omega)
          (by simp only; omega) (Nat.le_of_eq (length_serializeFragment f))
      have hsame : hops.map HybridRouteHop.classical
          = path.hops.map HybridRouteHop.classical := hmap
      constructor
      · intro hall i x hget
        obtain ⟨y, hy, hxy⟩ := getElem_classical hsame.symm hget
        have hkem := hkeys y (List.mem_of_getElem? hy)
        rw [nodeId_classical hxy] at hkem
        refine ⟨y.kemPublicKey, hkem, fun k hk => ?_⟩
        have hbody : ((fragmentPayload payload).map serializeFragment)[k]?
            = some (serializeFragment (fragmentPayload payload)[k]) := by
          rw [List.getElem?_map, List.getElem?_eq_getElem hk]
          rfl
        exact (hpacket k _).1 (hall k _ hbody) i y hy
      · intro hseal k body hbody
        obtain ⟨f, hf, rfl⟩ : ∃ f, (fragmentPayload payload)[k]? = some f
            ∧ serializeFragment f = body := by
          rw [List.getElem?_map] at hbody
          exact Option.map_eq_some_iff.1 hbody
        refine (hpacket k f).2 fun i y hget => ?_
        obtain ⟨x, hx, hxy⟩ := getElem_classical hsame hget
        obtain ⟨kem, hkem, henc⟩ := hseal i x hx
        have hy := hkeys y (List.mem_of_getElem? hget)
        rw [← nodeId_classical hxy, hkem] at hy
        cases hy
        exact henc k (List.getElem?_eq_some_iff.1 hf).1

/-- The packets of a turn: some, each over hops that start with the first
hop of the route. -/
theorem packets_made {kemLookup : NodeId → Option (List UInt8)}
    {draws : Nat → PacketDraws} {packets : List SphinxPacket}
    (h : t.route destination = some path)
    (hok : createHybridPayloadPackets P draws payload path.classical
      kemLookup = .ok packets) :
    packets ≠ [] ∧ ∀ packet ∈ packets, ∃ d route body,
      createPacketHybrid P d route body = .ok packet
        ∧ route.hops.map HybridRouteHop.classical
          = path.hops.map HybridRouteHop.classical := by
  unfold createHybridPayloadPackets at hok
  cases hhops : hopsWithKem kemLookup path.classical.hops with
  | error e =>
      unfold effectiveRoute at hok
      rw [hhops] at hok
      cases hok
  | ok hops =>
      rw [effectiveRoute_eq h hhops] at hok
      obtain ⟨hlen, hmade⟩ := bodyPackets_made hok
      rw [List.length_map] at hlen
      refine ⟨?_, fun packet hp => ?_⟩
      · intro hnil
        rw [hnil] at hlen
        have hpos := fragmentPayload_pos payload
        rw [← hlen] at hpos
        exact Nat.lt_irrefl 0 hpos
      · obtain ⟨d, body, hcreate⟩ := hmade packet hp
        exact ⟨d, _, body, hcreate, (hopsWithKem_ok hhops).1⟩

end Turn

-- ====== the property

/-- The packets of a route are called with its first hop, all of them
where no call fails, and its outer layer is that hop's. -/
structure Sending.ToFirstHop (P : Prims)
    (takes : NodeId → SphinxPacket → Bool) (d : Sending) : Prop where
  only : ∀ call ∈ d.calls,
    d.route.hops.head?.map HybridRouteHop.nodeId = some call.1
  all : (∀ packet ∈ d.packets, takes d.route.firstHop packet = true) →
    d.calls = d.packets.map (Prod.mk d.route.firstHop)
  outer : ∀ packet ∈ d.packets, ∃ draws route body,
    createPacketHybrid P draws route body = .ok packet
      ∧ route.hops.head?.map HybridRouteHop.classical
        = d.route.hops.head?.map HybridRouteHop.classical

section Calls

variable {P : Prims} {takes : NodeId → SphinxPacket → Bool} {t : Turn}
  {destination : NodeId} {path : HybridRoute} {payload : List UInt8}
  {packets : List SphinxPacket} {peer : NodeId}

theorem mem_sendUntilRefused {call : NodeId × SphinxPacket}
    (h : call ∈ sendUntilRefused takes peer packets) : call.1 = peer := by
  induction packets with
  | nil => cases h
  | cons packet packets ih =>
      unfold sendUntilRefused at h
      rcases List.mem_cons.1 h with rfl | h
      · rfl
      by_cases htakes : takes peer packet = true
      · rw [if_pos htakes] at h
        exact ih h
      · rw [if_neg htakes] at h
        cases h

theorem sendUntilRefused_eq
    (h : ∀ packet ∈ packets, takes peer packet = true) :
    sendUntilRefused takes peer packets = packets.map (Prod.mk peer) := by
  induction packets with
  | nil => rfl
  | cons packet packets ih =>
      unfold sendUntilRefused
      rw [if_pos (h packet List.mem_cons_self),
        ih fun p hp => h p (List.mem_cons_of_mem _ hp)]
      rfl

/-- A sender that calls with the first hop, one way or the other. -/
theorem toFirstHop_of {calls : List (NodeId × SphinxPacket)}
    (h : t.route destination = some path)
    (hmade : ∀ packet ∈ packets, ∃ d route body,
      createPacketHybrid P d route body = .ok packet
        ∧ route.hops.map HybridRouteHop.classical
          = path.hops.map HybridRouteHop.classical)
    (hcalls : calls = sendAll path.firstHop packets
      ∨ calls = sendUntilRefused takes path.firstHop packets) :
    Sending.ToFirstHop P takes ⟨path, packets, calls⟩ := by
  refine ⟨?_, ?_, ?_⟩
  · intro call hcall
    rw [Turn.head_eq h]
    rcases hcalls with rfl | rfl
    · obtain ⟨packet, -, rfl⟩ := List.mem_map.1 hcall
      rfl
    · rw [mem_sendUntilRefused hcall]
  · intro hall
    rcases hcalls with rfl | rfl
    · rfl
    · exact sendUntilRefused_eq hall
  · intro packet hp
    obtain ⟨d, route, body, hcreate, hhops⟩ := hmade packet hp
    refine ⟨d, route, body, hcreate, ?_⟩
    rw [← List.head?_map, ← List.head?_map, hhops]

/-- Calls with the destination are calls with the first hop when the
route has no other hop, and otherwise none of them is. -/
theorem toFirstHop_destination_iff (h : t.route destination = some path)
    (hok : t.packets P payload path = .ok packets) :
    Sending.ToFirstHop P takes
        ⟨path, packets, sendAll destination packets⟩
      ↔ ¬ t.Long destination := by
  rw [← Turn.firstHop_eq_iff h]
  constructor
  · intro hfirst
    obtain ⟨packet, hp⟩ :=
      List.exists_mem_of_ne_nil _ (Turn.packets_made h hok).1
    have hcall := hfirst.only (destination, packet)
      (List.mem_map_of_mem hp)
    rw [Turn.head_eq h] at hcall
    exact Option.some.inj hcall
  · intro heq
    refine toFirstHop_of h (Turn.packets_made h hok).2 (Or.inl ?_)
    rw [heq]

end Calls

-- ======= the senders

section Senders

variable {P : Prims} {takes : NodeId → SphinxPacket → Bool}

theorem ChunkGossip.toPeer_eq_some_iff {g : ChunkGossip} {peer : KnownNode}
    {d : Sending} : g.toPeer P peer = some d
      ↔ ∃ path packets, (g.turn peer.nodeId).route peer.nodeId = some path
        ∧ (g.turn peer.nodeId).packets P g.payload path = .ok packets
        ∧ d = ⟨path, packets, sendAll peer.nodeId packets⟩ := by
  unfold ChunkGossip.toPeer
  cases hroute : (g.turn peer.nodeId).route peer.nodeId with
  | none => simp
  | some path =>
      cases hpackets : (g.turn peer.nodeId).packets P g.payload path with
      | error e => simp [hpackets]
      | ok packets => simp [hpackets, eq_comm]

/-- Where nobody who is told of a missing chunk stands behind relays: too
few other nodes are known, or no packet can be built for the route. -/
def ChunkGossip.NoneBehindRelays (P : Prims) (g : ChunkGossip) : Prop :=
  g.isNew = true → ∀ peer ∈ g.peers, ∀ path,
    (g.turn peer.nodeId).route peer.nodeId = some path →
      (g.turn peer.nodeId).Long peer.nodeId →
        ¬ (g.turn peer.nodeId).Sealable P g.payload path

theorem ChunkGossip.toFirstHop_iff (g : ChunkGossip) :
    (∀ d ∈ g.sendMissingChunkGossip P, d.ToFirstHop P takes)
      ↔ g.NoneBehindRelays P := by
  unfold ChunkGossip.sendMissingChunkGossip ChunkGossip.NoneBehindRelays
  by_cases hnew : g.isNew = true
  · rw [if_pos hnew]
    constructor
    · intro hall _ peer hpeer path hroute hlong hseal
      obtain ⟨packets, hpackets⟩ := (Turn.packets_ok_iff hroute).2 hseal
      have hto := ChunkGossip.toPeer_eq_some_iff.2
        ⟨path, packets, hroute, hpackets, rfl⟩
      have hfirst := hall _ (List.mem_filterMap.2 ⟨peer, hpeer, hto⟩)
      exact (toFirstHop_destination_iff hroute hpackets).1 hfirst hlong
    · intro hnone d hd
      obtain ⟨peer, hpeer, hto⟩ := List.mem_filterMap.1 hd
      obtain ⟨path, packets, hroute, hpackets, rfl⟩ :=
        ChunkGossip.toPeer_eq_some_iff.1 hto
      refine (toFirstHop_destination_iff hroute hpackets).2 ?_
      intro hlong
      exact hnone hnew peer hpeer path hroute hlong
        ((Turn.packets_ok_iff hroute).1 ⟨packets, hpackets⟩)
  · rw [if_neg hnew]
    refine ⟨fun _ hyes => absurd hyes hnew, fun _ d hd => ?_⟩
    cases hd

theorem SurbRequestSending.toFirstHop (s : SurbRequestSending)
    (d : Sending) (h : d ∈ (s.sendSurbRequest P takes).2) :
    d.ToFirstHop P takes := by
  unfold SurbRequestSending.sendSurbRequest at h
  cases hroute : s.turn.route s.peer with
  | none => simp [hroute] at h
  | some path =>
      cases hok : createSurbRequestPackets P s.turn.draws s.chunkId s.surb
          path with
      | error e => simp [hroute, hok] at h
      | ok packets =>
          simp only [hroute, hok, List.mem_singleton] at h
          subst h
          refine toFirstHop_of hroute ?_ (Or.inr rfl)
          intro packet hp
          obtain ⟨draws, body, hcreate⟩ := (bodyPackets_made hok).2 packet hp
          exact ⟨draws, path, body, hcreate, rfl⟩

/-- What the tick sends is for the first hop of the route to the
partner. -/
theorem VerificationTick.toPartner_eq_some {t : VerificationTick}
    {partner : NodeId} {challenge : VerificationChallenge} {d : Sending}
    (h : t.toPartner P takes partner challenge = some d) :
    d.ToFirstHop P takes := by
  unfold VerificationTick.toPartner at h
  cases hkem : t.partnerKem partner with
  | none => simp [hkem] at h
  | some kem =>
      cases hroute : t.turn.route partner with
      | none => simp [hkem, hroute] at h
      | some path =>
          cases hser : Verification.serializeChallenge challenge with
          | error e => simp [hkem, hroute, hser] at h
          | ok payload =>
              cases hok : createHybridPayloadPackets P t.turn.draws payload
                  path.classical
                  (VerificationTick.singlePeerKemLookup partner kem) with
              | error e => simp [hkem, hroute, hser, hok] at h
              | ok packets =>
                  simp only [hkem, hroute, hser, hok, Option.some.injEq] at h
                  subst h
                  exact toFirstHop_of hroute (Turn.packets_made hroute hok).2
                    (Or.inr rfl)

theorem VerificationTick.toFirstHop (t : VerificationTick) (d : Sending)
    (h : d ∈ (t.runVerificationTick P takes).2) :
    d.ToFirstHop P takes := by
  unfold VerificationTick.runVerificationTick at h
  cases hchallenge : t.challenge with
  | none => simp [hchallenge] at h
  | some c =>
      obtain ⟨pending, challenge⟩ := c
      cases hto : t.toPartner P takes pending.challengedNode challenge with
      | none => simp [hchallenge, hto] at h
      | some sent =>
          have hsent : d = sent := by
            by_cases hall : sent.packets.all (takes sent.route.firstHop)
            · simp [hchallenge, hto, hall] at h
              exact h
            · simp [hchallenge, hto, hall] at h
              exact h
          rw [hsent]
          exact VerificationTick.toPartner_eq_some hto

theorem ComputeSubmission.built_eq_ok {s : ComputeSubmission}
    {peer : KnownNode} {path : HybridRoute} {packets : List SphinxPacket}
    (h : s.built P = .ok (peer, path, packets)) :
    ∃ payload, s.turn.route peer.nodeId = some path
      ∧ s.turn.packets P payload path = .ok packets := by
  unfold ComputeSubmission.built at h
  by_cases hsize : MAX_COMPUTE_INPUT_SIZE < s.inputData.length
  · simp [hsize] at h
  rw [if_neg hsize] at h
  cases hprovider : s.provider with
  | none => simp [hprovider] at h
  | some n =>
      by_cases hkem : n.kemPublicKey.map List.length ≠ some KEM_PUBLIC_KEY_SIZE
      · simp [hprovider, hkem] at h
      cases hroute : s.turn.route n.nodeId with
      | none => simp [hprovider, hkem, hroute] at h
      | some r =>
          cases hser : Compute.serializeRequest (submittedRequest P s.self
              s.moduleContentPubKey s.currency s.requestId
              s.inputData) with
          | error e => simp [hprovider, hkem, hroute, hser] at h
          | ok payload =>
              cases hok : s.turn.packets P payload r with
              | error e => simp [hprovider, hkem, hroute, hser, hok] at h
              | ok ps =>
                  simp [hprovider, hkem, hroute, hser, hok] at h
                  obtain ⟨rfl, rfl, rfl⟩ := h
                  exact ⟨payload, hroute, hok⟩

theorem ComputeSubmission.toFirstHop (s : ComputeSubmission)
    (d : Sending) (h : d ∈ (s.submitComputeRequest P takes).2.2) :
    d.ToFirstHop P takes := by
  unfold ComputeSubmission.submitComputeRequest at h
  cases hbuilt : s.built P with
  | error e => simp [hbuilt] at h
  | ok b =>
      obtain ⟨peer, path, packets⟩ := b
      obtain ⟨payload, hroute, hok⟩ := ComputeSubmission.built_eq_ok hbuilt
      simp only [hbuilt, List.mem_singleton] at h
      subst h
      exact toFirstHop_of hroute (Turn.packets_made hroute hok).2
        (Or.inr rfl)

theorem PaymentSending.built_eq_ok {s : PaymentSending}
    {path : HybridRoute} {packets : List SphinxPacket}
    (h : s.built P = .ok (path, packets)) :
    ∃ provider payload, s.turn.route provider = some path
      ∧ s.turn.packets P payload path = .ok packets := by
  unfold PaymentSending.built at h
  cases hpending : s.pendingRequests.get s.requestId with
  | none => simp [hpending] at h
  | some pending =>
      cases hquote : pending.payment with
      | none => simp [hpending, hquote] at h
      | some quote =>
          cases hser : Compute.serializePaymentConfirmation
              ⟨s.requestId, s.txHash, quote.currency⟩ with
          | error e => simp [hpending, hquote, hser] at h
          | ok payload =>
              cases hroute : s.turn.route pending.provider with
              | none => simp [hpending, hquote, hser, hroute] at h
              | some r =>
                  cases hok : s.turn.packets P payload r with
                  | error e =>
                      simp [hpending, hquote, hser, hroute, hok] at h
                  | ok ps =>
                      simp [hpending, hquote, hser, hroute, hok] at h
                      obtain ⟨rfl, rfl⟩ := h
                      exact ⟨pending.provider, payload, hroute, hok⟩

theorem PaymentSending.toFirstHop (s : PaymentSending) (d : Sending)
    (h : d ∈ (s.confirmComputePayment P takes).2) :
    d.ToFirstHop P takes := by
  unfold PaymentSending.confirmComputePayment at h
  cases hbuilt : s.built P with
  | error e => simp [hbuilt] at h
  | ok b =>
      obtain ⟨path, packets⟩ := b
      obtain ⟨provider, payload, hroute, hok⟩ :=
        PaymentSending.built_eq_ok hbuilt
      simp only [hbuilt, List.mem_singleton] at h
      subst h
      exact toFirstHop_of hroute (Turn.packets_made hroute hok).2
        (Or.inr rfl)

theorem HeartbeatRound.toHolder_eq_some {r : HeartbeatRound}
    {contentId : ContentId} {hb : Heartbeat} {peer : NodeId}
    {d : Sending} (h : r.toHolder P contentId hb peer = some d) :
    d.ToFirstHop P takes := by
  unfold HeartbeatRound.toHolder at h
  cases hroute : (r.turn contentId peer).route peer with
  | none => simp [hroute] at h
  | some path =>
      cases hok : (r.turn contentId peer).packets P hb.wireSerialize
          path with
      | error e => simp [hroute, hok] at h
      | ok packets =>
          simp only [hroute, hok, Option.some.injEq] at h
          subst h
          exact toFirstHop_of hroute (Turn.packets_made hroute hok).2
            (Or.inl rfl)

theorem HeartbeatRound.toFirstHop (r : HeartbeatRound) (d : Sending)
    (h : d ∈ (r.propagateHeartbeatsOnce P).2) :
    d.ToFirstHop P takes := by
  obtain ⟨contentId, -, hd⟩ := List.mem_flatMap.1 h
  unfold HeartbeatRound.ofContent at hd
  cases hkey : r.contentKeypairs.get contentId with
  | none => simp [hkey] at hd
  | some signingKey =>
      cases hhb : r.leases.createHeartbeat P contentId
          DEFAULT_LEASE_DURATION_SECS signingKey r.now
          (r.nonce contentId) with
      | error e => simp [hkey, hhb] at hd
      | ok hb =>
          simp only [hkey, hhb] at hd
          obtain ⟨peer, -, hto⟩ := List.mem_filterMap.1 hd
          exact HeartbeatRound.toHolder_eq_some hto

/-- A sender that reports no missing chunk to a peer behind relays. -/
def Sender.NoneBehindRelays (P : Prims) : Sender → Prop
  | .surbRequest _ => True
  | .missingChunkGossip g => g.NoneBehindRelays P
  | .verificationTick _ => True
  | .computeRequest _ => True
  | .computePayment _ => True
  | .heartbeats _ => True

/-- Every sender calls with the first hops of its routes, exactly when it
reports no missing chunk to a peer behind relays. -/
theorem to_first_hop_iff (P : Prims)
    (takes : NodeId → SphinxPacket → Bool) (sender : Sender) :
    (∀ d ∈ sender.sendings P takes, d.ToFirstHop P takes)
      ↔ sender.NoneBehindRelays P := by
  cases sender with
  | surbRequest s => exact iff_of_true s.toFirstHop trivial
  | missingChunkGossip g => exact g.toFirstHop_iff
  | verificationTick t => exact iff_of_true t.toFirstHop trivial
  | computeRequest s => exact iff_of_true s.toFirstHop trivial
  | computePayment s => exact iff_of_true s.toFirstHop trivial
  | heartbeats r => exact iff_of_true r.toFirstHop trivial

end Senders

-- ======== four peers

/-- A node with a KEM key of the right size. -/
def sizedNode (i : UInt8) : KnownNode where
  nodeId := Bytes.fill 16 i
  publicKey := Bytes.fill 32 i
  address := ""
  kemPublicKey := some (List.replicate KEM_PUBLIC_KEY_SIZE i)
  computeEnabled := false
  computeCapacity := 0
  identityPublicKey := none

def fourPeers : RoutingTable :=
  ([1, 2, 3, 4].map sizedNode).foldl RoutingTable.addNode
    (.new (Bytes.zero 16))

theorem fourPeers_keyed : fourPeers.Keyed := by
  apply RoutingTable.keyed_foldl_addNode
  intro id n hget
  cases hget

/-- Whoever is in a table of such nodes is one of them. -/
theorem sized_foldl_addNode {table : RoutingTable} (is : List UInt8)
    (h : ∀ id n, table.getNode id = some n → ∃ i, n = sizedNode i)
    (id : NodeId) (n : KnownNode)
    (hget : ((is.map sizedNode).foldl RoutingTable.addNode table).getNode id
      = some n) : ∃ i, n = sizedNode i := by
  induction is generalizing table with
  | nil => exact h id n hget
  | cons i is ih =>
      refine ih ?_ hget
      intro id n hn
      by_cases hid : id = (sizedNode i).nodeId
      · by_cases hours : (sizedNode i).nodeId = table.ourNodeId
        · rw [RoutingTable.addNode, if_neg (not_not.2 hours)] at hn
          exact h id n hn
        · rw [hid, RoutingTable.getNode_addNode_self hours] at hn
          exact ⟨i, (Option.some.inj hn).symm⟩
      · rw [RoutingTable.getNode_addNode_ne hid] at hn
        exact h id n hn

/-- Both reads of the table see the four peers. -/
def fourTurn : Turn where
  table := fourPeers
  order := IterOrder.bytewise
  shuffle := id
  shuffle_perm := fun nodes => List.Perm.refl nodes
  keys := fourPeers
  draws := fun _ => ⟨Bytes.zero 32, Prims.someKey, fun _ => Bytes.zero 32,
    fun _ => 0, fun _ => 0⟩

theorem fourTurn_sealable {destination : NodeId} {path : HybridRoute}
    {payload : List UInt8} (h : fourTurn.route destination = some path)
    (hknown : (fourPeers.getNode destination).isSome = true) :
    fourTurn.Sealable .plain payload path := by
  obtain ⟨relays, last, rfl, hlast, hrelays, -, -⟩ := Turn.route_shape h
  intro i hop hget
  have hnode : ∃ n, fourPeers.getNode hop.nodeId = some n := by
    rcases List.mem_append.1 (List.mem_of_getElem? hget) with hmem | hmem
    · obtain ⟨n, hn, rfl⟩ := hrelays hop hmem
      exact ⟨n, ((RoutingTable.mem_passing fourPeers_keyed).1 hn).1⟩
    · rw [List.mem_singleton.1 hmem, hlast]
      exact Option.isSome_iff_exists.1 hknown
  obtain ⟨n, hn⟩ := hnode
  obtain ⟨x, rfl⟩ := sized_foldl_addNode [1, 2, 3, 4]
    (fun id n hempty => by cases hempty) _ _ hn
  refine ⟨List.replicate KEM_PUBLIC_KEY_SIZE x, ?_, fun k _ => ?_⟩
  · show (fourPeers.getNode hop.nodeId).bind KnownNode.kemPublicKey = _
    rw [hn]
    rfl
  · obtain ⟨kem, ciphertext, hkem, -⟩ := (Prims.plain_kemPair
      (List.length_replicate (a := x) (n := KEM_PUBLIC_KEY_SIZE))
      (List.length_replicate (a := x) (n := KEM_SECRET_KEY_SIZE))).inverts
        ((fourTurn.draws k).coins i)
    rw [hkem]
    rfl

/-- A chunk is missing, and four peers are told. -/
def lostReport : ChunkGossip where
  contentId := Bytes.zero 32
  chunkId := Bytes.zero 32
  now := 0
  recent := ∅
  table := fourPeers
  order := IterOrder.bytewise
  self := loneRoute
  turn := fun _ => fourTurn

theorem fourPeers_fourth :
    fourPeers.getNode (Bytes.fill 16 4) = some (sizedNode 4) := by
  have hours : (sizedNode 4).nodeId
      ≠ (([1, 2, 3].map sizedNode).foldl RoutingTable.addNode
        (.new (Bytes.zero 16))).ourNodeId := by
    decide
  exact RoutingTable.getNode_addNode_self hours

theorem lostReport_fourth : sizedNode 4 ∈ lostReport.peers := by
  refine List.mem_filter.2 ⟨List.mem_filterMap.2
    ⟨Bytes.fill 16 4, ?_, fourPeers_fourth⟩, ?_⟩
  · exact (IterOrder.bytewise.mem_iter _ _).2
      (FMap.mem_keys_of_get fourPeers_fourth)
  · exact decide_eq_true List.length_replicate

/-- There is a route to the fourth, with keys to seal its packets. -/
theorem fourTurn_route : ∃ path,
    fourTurn.route (Bytes.fill 16 4) = some path
      ∧ ∀ payload, fourTurn.Sealable .plain payload path := by
  cases hroute : fourTurn.route (Bytes.fill 16 4) with
  | none =>
      have hnone := (RoutingTable.route_construction fourPeers
        IterOrder.bytewise id fourPeers_keyed
        (fun l => List.Perm.refl l) (Bytes.fill 16 4)).2.1.1.1 hroute
      have hkem := hnone _ fourPeers_fourth
      cases hkem
  | some path =>
      exact ⟨path, rfl, fun payload => fourTurn_sealable hroute
        (by rw [fourPeers_fourth]; rfl)⟩

/-- Each of the four is behind the other three. -/
theorem lostReport_behind : ¬ lostReport.NoneBehindRelays .plain := by
  intro h
  have hlong : fourTurn.Long (Bytes.fill 16 4) := by
    have hrelays : MIN_HOPS ≤ (fourPeers.relays fourPeers.ourNodeId
        (Bytes.fill 16 4)).card := by
      decide +kernel
    exact hrelays.trans_eq
      (RoutingTable.length_candidates fourPeers_keyed).symm
  obtain ⟨path, hroute, hseal⟩ := fourTurn_route
  exact h rfl _ lostReport_fourth path hroute hlong (hseal _)

/-- The reports to the four go to the connections of the four, and not to
those of their first hops. -/
theorem lostReport_misrouted :
    ¬ ∀ (P : Prims) (takes : NodeId → SphinxPacket → Bool)
      (sender : Sender), ∀ d ∈ sender.sendings P takes,
        d.ToFirstHop P takes := by
  intro h
  exact lostReport_behind (lostReport.toFirstHop_iff.1
    (h .plain (fun _ _ => true) (.missingChunkGossip lostReport)))

end StaticNet
