/-
What a holder reads of a chunk request (`static-mesh/src/retrieval.rs`,
`static-sphinx/src/surb.rs`).

A request's reply block is opaque where it is encrypted: the header's
slots, the KEM block, the keys. The rest is plain, and the holder parses
it: the return route of the request, kept for compatibility, and the
block's own fields for addressing and sealing the answer. Two of those
fields are the requester's id, so the clear view is settled by the first
hop, the number of hops AND the destination (`clearView_built`), and two
requests look alike exactly when they come from one requester.
-/
import StaticNet.Wire.Sent
import StaticNet.Retrieval.Basic

namespace StaticNet

variable {P : Prims}

-- ========== the view

/-- The plain part of a request with its reply block: the return route,
and of the block everything but the header, the KEM bytes and the keys
themselves. -/
structure ClearView where
  returnHops : List RouteHop
  returnDestination : NodeId
  bodyKeyCount : Nat
  kemLength : Nat
  aadDestination : NodeId
  firstHop : NodeId
deriving DecidableEq

def clearFields (request : ChunkRequest) (surb : Surb) : ClearView where
  returnHops := request.returnRoute.hops
  returnDestination := request.returnRoute.destination
  bodyKeyCount := surb.bodyKeys.length
  kemLength := surb.kemCiphertexts.length
  aadDestination := surb.aadDestination
  firstHop := surb.firstHop

/-- What the holder makes of a reassembled request, by the two decoders
it runs on it. -/
def clearView (requestBytes : List UInt8) : Option ClearView :=
  match deserializeRequest requestBytes with
  | .error _ => none
  | .ok request =>
      match request.surb with
      | none => none
      | some surbBytes =>
          match Surb.deserialize surbBytes with
          | .error _ => none
          | .ok surb => some (clearFields request surb)

-- ===== what it shows

/-- A block that was built has the sizes its decoder wants, and says of
its route the first hop, the length and the destination. -/
theorem createSurbHybrid_clear {d : PacketDraws} {route : HybridRoute}
    {surb : Surb} {secret : SurbSecret}
    (h : createSurbHybrid P d route = .ok (surb, secret)) :
    surb.WellFormed
      ∧ surb.bodyKeys.length = route.hops.length
      ∧ surb.aadDestination = route.destination
      ∧ some surb.firstHop
        = route.hops.head?.map HybridRouteHop.nodeId := by
  unfold createSurbHybrid at h
  by_cases hhops : route.hops.length = 0 ∨ MAX_HOPS < route.hops.length
  · rw [if_pos hhops] at h
    cases h
  rw [if_neg hhops] at h
  split at h
  · cases h
  cases hlayers : hybridLayers P d route.hops with
  | error e =>
      rw [hlayers] at h
      cases h
  | ok layers =>
      rw [hlayers] at h
      obtain ⟨rfl, -⟩ := Prod.mk.inj (Except.ok.inj h)
      obtain ⟨hids, hcts⟩ := hybridLayers_sized hlayers
      have hlen := congrArg List.length hids
      rw [List.length_map, List.length_map] at hlen
      have hmax : layers.length ≤ MAX_HOPS := by omega
      have hkeys : (hybridSurb P d route.destination
          layers).bodyKeys.length = layers.length := List.length_map _
      refine ⟨⟨rfl, length_kemBlock_of hcts hmax,
        buildHeader_routing_length hmax, by omega, by omega⟩,
        hkeys.trans hlen, rfl, ?_⟩
      have hhead := congrArg List.head? hids
      rw [List.head?_map, List.head?_map] at hhead
      rw [← hhead]
      cases layers with
      | nil =>
          simp only [List.length_nil] at hlen
          omega
      | cons l rest => rfl

/-- The view of a request for any chunk, over any route. -/
theorem clearView_built {d : PacketDraws} {route : HybridRoute}
    {surb : Surb} {secret : SurbSecret} (chunkId : ChunkId)
    (h : createSurbHybrid P d route = .ok (surb, secret)) :
    clearView (serializeRequest (surbRequest chunkId surb))
      = some
        { returnHops := []
          returnDestination := route.destination
          bodyKeyCount := route.hops.length
          kemLength := KEM_BLOCK_SIZE
          aadDestination := route.destination
          firstHop := surb.firstHop } := by
  obtain ⟨hwf, hkeys, hdest, -⟩ := createSurbHybrid_clear h
  have hread : deserializeRequest
      (serializeRequest (surbRequest chunkId surb))
        = .ok (surbRequest chunkId surb) := by
    refine deserializeRequest_serialize (Nat.zero_le _) ?_
    intro bytes hbytes
    obtain rfl := Option.some.inj hbytes
    exact Surb.length_serialize_le hwf
  rw [clearView, hread]
  simp only [surbRequest, Surb.deserialize_serialize hwf, clearFields,
    hkeys, hwf.kem_length, hdest]

/-- Requests over routes of one length that leave through one first hop
look alike to the holder exactly when they return to one node. -/
theorem clear_views_equal_iff (P : Prims) (d d' : PacketDraws)
    (route route' : HybridRoute) (surb surb' : Surb)
    (secret secret' : SurbSecret) (chunkId : ChunkId)
    (hsurb : createSurbHybrid P d route = .ok (surb, secret))
    (hsurb' : createSurbHybrid P d' route' = .ok (surb', secret'))
    (hcount : route.hops.length = route'.hops.length)
    (hfirst : route.hops.head?.map HybridRouteHop.nodeId
      = route'.hops.head?.map HybridRouteHop.nodeId) :
    ∃ view view',
      clearView (serializeRequest (surbRequest chunkId surb)) = some view
      ∧ clearView (serializeRequest (surbRequest chunkId surb'))
        = some view'
      ∧ (view = view' ↔ route.destination = route'.destination) := by
  refine ⟨_, _, clearView_built chunkId hsurb,
    clearView_built chunkId hsurb', ?_⟩
  have hhop : surb.firstHop = surb'.firstHop := by
    rw [← (createSurbHybrid_clear hsurb).2.2.2,
      ← (createSurbHybrid_clear hsurb').2.2.2] at hfirst
    exact Option.some.inj hfirst
  rw [ClearView.mk.injEq, hcount, hhop]
  constructor
  · rintro ⟨-, hdest, -⟩
    exact hdest
  · intro hdest
    exact ⟨rfl, hdest, rfl, rfl, hdest, rfl⟩

-- ====== two requests

/-- A block can be built over any route of one to `MAX_HOPS` hops with
working KEM keys. -/
theorem createSurbHybrid_ok {route : HybridRoute} (d : PacketDraws)
    (hpos : 0 < route.hops.length) (hmax : route.hops.length ≤ MAX_HOPS)
    (hkem : ∀ hop ∈ route.hops, ∃ secret,
      P.KemPair hop.kemPublicKey secret) :
    ∃ surb secret, createSurbHybrid P d route = .ok (surb, secret) := by
  have hsizes : (route.hops.any fun h =>
      h.kemPublicKey.length ≠ KEM_PUBLIC_KEY_SIZE) = false := by
    rw [List.any_eq_false]
    intro hop hmem
    obtain ⟨secret, hpair⟩ := hkem hop hmem
    simp [hpair.public_length]
  have hagree : ∀ hop ∈ route.hops, ∀ i dh, ∃ r,
      hybridAgree P d i hop dh = .ok r := by
    intro hop hmem i dh
    obtain ⟨secret, hpair⟩ := hkem hop hmem
    obtain ⟨kem, ct, henc, -⟩ := hpair.inverts (d.coins i)
    exact ⟨(P.hybridSharedSecret dh kem "sphinx/hybrid-hop", ct), by
      simp only [hybridAgree, henc]⟩
  obtain ⟨layers, hlayers⟩ := chainLayers_ok 0
    (P.pointMul BASE_POINT d.scalar) d.scalar hagree
  change hybridLayers P d route.hops = .ok layers at hlayers
  refine ⟨hybridSurb P d route.destination layers,
    ⟨0, route.hops.length⟩, ?_⟩
  rw [createSurbHybrid, if_neg (by omega), hsizes, hlayers]
  rfl

/-- A return route through these nodes to the last of them. -/
def returnThrough (middle : List UInt8) (requester : UInt8) :
    HybridRoute where
  hops := (middle ++ [requester]).map fun id =>
    (quietStop Prims.someKey id).asHop .plain (List.replicate 1184 0)
  destination := Bytes.fill 16 requester

theorem returnThrough_ok (middle : List UInt8) (requester : UInt8)
    (hmax : middle.length < MAX_HOPS) :
    ∃ surb secret, createSurbHybrid .plain quietDraws
      (returnThrough middle requester) = .ok (surb, secret) := by
  have hlen : (returnThrough middle requester).hops.length
      = middle.length + 1 := by
    rw [returnThrough, List.length_map, List.length_append,
      List.length_singleton]
  refine createSurbHybrid_ok quietDraws (by omega) (by omega) ?_
  intro hop hmem
  simp only [returnThrough, List.mem_map] at hmem
  obtain ⟨id, -, rfl⟩ := hmem
  exact ⟨List.replicate 2400 0,
    Prims.plain_kemPair List.length_replicate List.length_replicate⟩

/-- One requester through other hops: the holder sees no difference. -/
theorem clear_views_other_middle :
    ∃ surb surb' secret secret' view,
      createSurbHybrid .plain quietDraws (returnThrough [1, 2, 3] 9)
        = .ok (surb, secret)
      ∧ createSurbHybrid .plain quietDraws (returnThrough [1, 4, 5] 9)
        = .ok (surb', secret')
      ∧ clearView (serializeRequest
          (surbRequest (Bytes.fill 32 6) surb)) = some view
      ∧ clearView (serializeRequest
          (surbRequest (Bytes.fill 32 6) surb')) = some view := by
  obtain ⟨surb, secret, hsurb⟩ :=
    returnThrough_ok [1, 2, 3] 9 (by decide)
  obtain ⟨surb', secret', hsurb'⟩ :=
    returnThrough_ok [1, 4, 5] 9 (by decide)
  obtain ⟨view, view', hview, hview', hiff⟩ :=
    clear_views_equal_iff .plain quietDraws quietDraws
      (returnThrough [1, 2, 3] 9) (returnThrough [1, 4, 5] 9) surb surb'
      secret secret' (Bytes.fill 32 6) hsurb hsurb' rfl rfl
  obtain rfl := hiff.2 rfl
  exact ⟨surb, surb', secret, secret', view, hsurb, hsurb', hview, hview'⟩

/-- Another requester through the same hops: the holder reads its id. -/
theorem requester_shows :
    ∃ surb surb' secret secret' view view',
      createSurbHybrid .plain quietDraws (returnThrough [1, 2, 3] 8)
        = .ok (surb, secret)
      ∧ createSurbHybrid .plain quietDraws (returnThrough [1, 2, 3] 9)
        = .ok (surb', secret')
      ∧ (returnThrough [1, 2, 3] 8).hops.length
        = (returnThrough [1, 2, 3] 9).hops.length
      ∧ (returnThrough [1, 2, 3] 8).hops.head?
        = (returnThrough [1, 2, 3] 9).hops.head?
      ∧ clearView (serializeRequest
          (surbRequest (Bytes.fill 32 6) surb)) = some view
      ∧ clearView (serializeRequest
          (surbRequest (Bytes.fill 32 6) surb')) = some view'
      ∧ view ≠ view' ∧ view.returnDestination = Bytes.fill 16 8
      ∧ view'.returnDestination = Bytes.fill 16 9 := by
  obtain ⟨surb, secret, hsurb⟩ :=
    returnThrough_ok [1, 2, 3] 8 (by decide)
  obtain ⟨surb', secret', hsurb'⟩ :=
    returnThrough_ok [1, 2, 3] 9 (by decide)
  refine ⟨surb, surb', secret, secret', _, _, hsurb, hsurb', rfl, rfl,
    clearView_built _ hsurb, clearView_built _ hsurb', ?_, rfl, rfl⟩
  intro heq
  have hdest : (Bytes.fill 16 8 : NodeId) = Bytes.fill 16 9 :=
    congrArg ClearView.returnDestination heq
  exact absurd hdest (by decide)

end StaticNet
