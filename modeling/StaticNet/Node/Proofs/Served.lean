/-
A chunk request on its way to the holder: the pieces of the request and
of the reply block in it, sent as packets through the network, and
collected by the transport of the last node, which serves the request
once it has all of them.

A piece is added to the session of its block; that session is gone when
the request is served, and the packets delivered again are replays, so
nothing is served twice (`Collecting`).
-/
import StaticNet.Node.Proofs.EndToEnd

namespace StaticNet

-- ======== collecting

/-- What the holder's table has of a request: these pieces, collected
since `t₀`. -/
def Collecting (surb : Surb) (c : ChunkId) (t₀ : Nat) (ids : Finset Nat)
    (m : ReassemblyManager) : Prop :=
  match m.sessions.get (requestKey surb.sessionId) with
  | none => ids = ∅
  | some r => Collected (requestPieces surb c) ids r ∧ t₀ ≤ r.createdAt

section Collecting

variable {surb : Surb} {c : ChunkId} {t₀ : Nat} {ids : Finset Nat}
  {m : ReassemblyManager} {now i : Nat} {f : Fragment}

theorem Collecting.live (h : Collecting surb c t₀ ids m)
    (hnow : now < t₀ + SURB_REQUEST_TIMEOUT_SECS) :
    m.Live (requestKey surb.sessionId) now := by
  intro r hget
  unfold Collecting at h
  rw [hget] at h
  have hsince := h.2
  have hpos : 0 < SURB_REQUEST_TIMEOUT_SECS := by decide
  omega

/-- The session a piece is added to. -/
theorem Collecting.session (h : Collecting surb c t₀ ids m)
    (hnow : t₀ ≤ now) :
    Collected (requestPieces surb c) ids
        (m.sessionFor (requestKey surb.sessionId) now)
      ∧ t₀ ≤ (m.sessionFor (requestKey surb.sessionId) now).createdAt := by
  unfold Collecting at h
  unfold ReassemblyManager.sessionFor
  cases hget : m.sessions.get (requestKey surb.sessionId) with
  | none =>
      rw [hget] at h
      subst h
      exact ⟨.new _ _, hnow⟩
  | some r =>
      rw [hget] at h
      exact h

/-- One more piece, or the last one. -/
theorem Collecting.feed (hwf : surb.WellFormed)
    (h : Collecting surb c t₀ ids m) (hlow : t₀ ≤ now)
    (hhigh : now < t₀ + SURB_REQUEST_TIMEOUT_SECS)
    (hf : (requestPieces surb c)[i]? = some f) (hi : i ∉ ids) :
    let fed := tryFeedSurbRequestFragment m
      (padTo BODY_SIZE (surbRequestBody surb.sessionId f)) now
    (insert i ids = Finset.range (requestPieces surb c).length →
        fed.1 = some (some (serializeRequest (surbRequest c surb))))
      ∧ (insert i ids ≠ Finset.range (requestPieces surb c).length →
        fed.1 = some none ∧ Collecting surb c t₀ (insert i ids) fed.2) := by
  have hfrag := requestPieces_fragmentation hwf c
  have hmem := List.mem_of_getElem? hf
  have hid := (hfrag.piece i f hf).1
  obtain ⟨hcol, hsince⟩ := h.session hlow
  obtain ⟨m', hget, hfed⟩ := tryFeed_piece (hfrag.valid hmem)
    (h.live hhigh)
  have hcreated := addFragment_createdAt
    (m.sessionFor (requestKey surb.sessionId) now) f
  obtain ⟨-, r', hadd, hcol'⟩ := hcol.add hfrag hmem (by rw [hid]; exact hi)
  rw [hadd] at hget hfed hcreated
  rw [hid] at hcol'
  have hiff := hcol'.isComplete_iff hfrag.pos
  intro fed
  have hfed : fed = _ := hfed
  refine ⟨fun hall => ?_, fun hpart => ?_⟩
  · have hcomplete := hiff.2 hall
    rw [hall] at hcol'
    rw [hfed]
    simp only [hcomplete, Bool.not_true, Bool.false_eq_true, if_false,
      hcol'.reassemble hfrag]
  · have hcomplete : r'.isComplete = false :=
      Bool.eq_false_iff.2 fun hc => hpart (hiff.1 hc)
    rw [hfed]
    simp only [hcomplete, Bool.not_false, if_true]
    refine ⟨trivial, ?_⟩
    unfold Collecting
    rw [hget]
    exact ⟨hcol', hcreated ▸ hsince⟩

end Collecting

-- ======= the request

/-- The bodies of a request, for the holder at the end of a route. -/
def requestShipment (sender : NodeId) (route : HybridRoute)
    (draws : Nat → PacketDraws) (c : ChunkId) (surb : Surb) : Shipment where
  sender := sender
  route := route
  draws := draws
  bodies := buildSurbRequestBodies (serializeRequest (surbRequest c surb))
    surb.sessionId

/-- Until the last piece nothing is served; then the request is. -/
def ServedOnce (surb : Surb) (c : ChunkId) (t₀ : Nat) (ks : List Nat)
    (m : ReassemblyManager) (out : List Outcome) : Prop :=
  if ks.toFinset = Finset.range (requestPieces surb c).length then
    out = [.serve (serializeRequest (surbRequest c surb))]
  else out = [] ∧ Collecting surb c t₀ ks.toFinset m

/-- The pieces come in while the session lives. -/
def WithinTimeout (t₀ : Nat) (r : Reading) : Prop :=
  t₀ ≤ r.requestAt ∧ r.requestAt < t₀ + SURB_REQUEST_TIMEOUT_SECS

/-- The holder's other requests leave this one's session alone. -/
def SameSession (surb : Surb) (m m' : ReassemblyManager) : Prop :=
  m'.sessions.get (requestKey surb.sessionId)
    = m.sessions.get (requestKey surb.sessionId)

section Request

variable {sender : NodeId} {route : HybridRoute} {draws : Nat → PacketDraws}
  {c : ChunkId} {surb : Surb} {t₀ : Nat}

theorem length_requestShipment :
    (requestShipment sender route draws c surb).bodies.length
      = (requestPieces surb c).length :=
  List.length_map _

theorem body_request {k : Nat} {f : Fragment}
    (hf : (requestPieces surb c)[k]? = some f) :
    (requestShipment sender route draws c surb).body k
      = padTo BODY_SIZE (surbRequestBody surb.sessionId f) := by
  have hget : (requestShipment sender route draws c surb).bodies[k]?
      = some (surbRequestBody surb.sessionId f) := by
    show ((requestPieces surb c).map (surbRequestBody surb.sessionId))[k]?
      = _
    rw [List.getElem?_map, hf]
    rfl
  unfold Shipment.body
  rw [List.getD_eq_getElem?_getD, hget]
  rfl

/-- A piece is kept by the transport, and the last one makes it serve the
request. -/
theorem collects_request (hwf : surb.WellFormed) :
    Shipment.Collects (requestShipment sender route draws c surb)
      (ServedOnce surb c t₀) (WithinTimeout t₀) (SameSession surb) where
  body ks k s out via r h hnot hk htime := by
    rw [length_requestShipment] at hk
    have hf := List.getElem?_eq_getElem hk
    have hpart : ks.toFinset
        ≠ Finset.range (requestPieces surb c).length := by
      intro heq
      refine hnot (List.mem_toFinset.1 ?_)
      rw [heq]
      exact Finset.mem_range.2 hk
    unfold ServedOnce at h
    rw [if_neg hpart] at h
    obtain ⟨rfl, hcol⟩ := h
    obtain ⟨hlast, hnext⟩ := hcol.feed hwf htime.1 htime.2 hf
      (fun hmem => hnot (List.mem_toFinset.1 hmem))
    obtain ⟨e, hone⟩ := deserializeRequest_piece surb.sessionId
      (requestPieces surb c)[k]
    rw [body_request hf]
    unfold handleBody ServedOnce
    rw [hone, List.toFinset_append, List.toFinset_cons, List.toFinset_nil,
      insert_empty_eq, Finset.union_comm, ← Finset.insert_eq]
    by_cases hall : insert k ks.toFinset
        = Finset.range (requestPieces surb c).length
    · rw [if_pos hall]
      simp only [hlast hall, List.nil_append]
    · obtain ⟨hfed, hcol'⟩ := hnext hall
      rw [if_neg hall]
      simp only [hfed, List.append_nil]
      exact ⟨trivial, hcol'⟩
  quiet ks m m' out h hsame := by
    unfold ServedOnce at h ⊢
    split at h
    next hall =>
      rw [if_pos hall]
      exact h
    next hpart =>
      rw [if_neg hpart]
      refine ⟨h.1, ?_⟩
      have hcol := h.2
      unfold Collecting at hcol ⊢
      rw [hsame]
      exact hcol

/-- A chunk request that is sent to a holder over honest hops is served at
most once, and by nobody else, whatever happens to its packets; when every
packet was delivered at least once on a connected route, it is served. -/
theorem surb_request_served (P : Prims) (hdh : P.DhCommutes)
    (haead : P.AeadCorrect) (nodes : NodeId → MessageState)
    (sender : NodeId) (route : HybridRoute) (draws : Nat → PacketDraws)
    (c : ChunkId) (surb : Surb) (hwf : surb.WellFormed)
    (packets : List SphinxPacket)
    (hok : createSurbRequestPackets P draws c surb route = .ok packets)
    (hready : (requestShipment sender route draws c surb).Ready P nodes)
    (hnone : (nodes (requestShipment sender route draws c
      surb).last).pendingRequests.sessions.get (requestKey surb.sessionId)
        = none)
    (t₀ : Nat) (moves : List NetMove)
    (hall : (requestShipment sender route draws c surb).AllAllowed P
      (WithinTimeout t₀) (SameSession surb)
      ((requestShipment sender route draws c surb).start nodes packets)
      moves) :
    let S := requestShipment sender route draws c surb
    let net := (S.start nodes packets).run P moves
    (∀ id, id ≠ S.last → net.handed id = [])
      ∧ (net.handed S.last = []
        ∨ net.handed S.last
          = [.serve (serializeRequest (surbRequest c surb))])
      ∧ (S.AllLinked P (S.start nodes packets) moves → net.Settled →
        net.handed S.last
          = [.serve (serializeRequest (surbRequest c surb))]) := by
  intro S net
  have hfrag := requestPieces_fragmentation hwf c
  have hne : S.bodies ≠ [] := by
    rw [← List.length_pos_iff, length_requestShipment]
    exact hfrag.pos
  have hstart : ServedOnce surb c t₀ [] (nodes S.last).pendingRequests
      [] := by
    unfold ServedOnce
    rw [if_neg]
    · refine ⟨rfl, ?_⟩
      unfold Collecting
      rw [hnone]
      rfl
    · intro heq
      have hzero := Finset.mem_range.2 hfrag.pos
      rw [← heq] at hzero
      cases hzero
  obtain ⟨ks, -, hbound, hout, helsewhere, hcomplete⟩ :=
    Shipment.carried hdh haead hready hne hok (collects_request hwf) hstart
      hall
  refine ⟨helsewhere, ?_, fun hlinked hsettled => ?_⟩
  · unfold ServedOnce at hout
    split at hout
    · exact .inr hout
    · exact .inl hout.1
  · rw [length_requestShipment] at hbound hcomplete
    unfold ServedOnce at hout
    rwa [if_pos] at hout
    ext k
    rw [List.mem_toFinset, Finset.mem_range]
    exact ⟨hbound k, hcomplete hlinked hsettled k⟩

end Request

-- ======== the answer

section Serving

variable {P : Prims} {s : MessageState} {nonces : Nat → Bytes 32}
  {draws : Nat → PacketDraws} {body : List UInt8} {request : ChunkRequest}

/-- What a request with a reply block is answered with goes to the first
hop of the block: the packet, and the session replies after it. -/
theorem serveChunk_block (hserves : s.serveEnabled = true)
    (hreq : deserializeRequest body = .ok request)
    (hsurb : request.surb.isSome = true) :
    serveChunk P s nonces draws body
      = (serveChunkRequest P nonces s.chunkHolder.getChunk body).elim []
          fun packets =>
            if packets.firstHop ∈ s.connections then
              (packets.firstHop, .sphinx packets.firstPacket)
                :: packets.sessionReplies.map fun reply =>
                  (packets.firstHop, .sessionReply reply)
            else [] := by
  unfold serveChunk serveChunkRequest
  simp only [hserves, hreq, hsurb, Bool.not_true, Bool.false_eq_true,
    if_false, if_true]
  cases handleRetrievalRequestWithSurb P nonces body
      (s.chunkHolder.getChunk request.chunkId) <;> rfl

/-- Without one, the packets of the answer go to the first hop of the
route that the request names. -/
theorem serveChunk_route (hserves : s.serveEnabled = true)
    (hreq : deserializeRequest body = .ok request)
    (hsurb : request.surb = none) {hop : RouteHop} {hops : List RouteHop}
    (hroute : request.returnRoute.hops = hop :: hops)
    {packets : List SphinxPacket}
    (hok : handleRetrievalRequest P draws body
      (s.chunkHolder.getChunk request.chunkId)
      (fun id => (s.routingTable.getNode id).bind KnownNode.kemPublicKey)
        = .ok packets) :
    serveChunk P s nonces draws body
      = if hop.nodeId ∈ s.connections then
          packets.map fun packet => (hop.nodeId, .sphinx packet)
        else [] := by
  unfold serveChunk
  simp only [hserves, hreq, hsurb, hroute, hok, Bool.not_true,
    Bool.false_eq_true, Option.isSome_none, if_false]

/-- Nothing leaves but over a connection, and nothing at all from a node
that does not serve. -/
theorem serveChunk_connected {x : NodeId × WireMessage}
    (h : x ∈ serveChunk P s nonces draws body) :
    s.serveEnabled = true ∧ x.1 ∈ s.connections := by
  have hto : ∀ (hop : NodeId) (msgs : List (NodeId × WireMessage)),
      (∀ m ∈ msgs, m.1 = hop) →
        x ∈ (if hop ∈ s.connections then msgs else []) →
          x.1 ∈ s.connections := by
    intro hop msgs hmsgs hx
    split at hx
    next hin => exact hmsgs x hx ▸ hin
    next => cases hx
  unfold serveChunk at h
  cases hserves : s.serveEnabled with
  | false =>
      rw [hserves] at h
      cases h
  | true =>
      refine ⟨rfl, ?_⟩
      simp only [hserves, Bool.not_true, Bool.false_eq_true, if_false] at h
      cases hreq : deserializeRequest body with
      | error e => simp only [hreq, List.not_mem_nil] at h
      | ok request =>
          simp only [hreq] at h
          split at h
          next =>
            split at h
            next => cases h
            next packets _ =>
              refine hto packets.firstHop _ ?_ h
              rintro m (_ | ⟨_, hm⟩)
              · rfl
              · obtain ⟨reply, -, rfl⟩ := List.mem_map.1 hm
                rfl
          next =>
            split at h
            next packets hop hops _ _ =>
              refine hto hop.nodeId _ ?_ h
              intro m hm
              obtain ⟨packet, -, rfl⟩ := List.mem_map.1 hm
              rfl
            next => cases h

end Serving

-- ======= one request

/-- A block over one layer of zeros. -/
def blankSurb : Surb where
  header :=
    { version := SPHINX_VERSION_HYBRID
      ephemeralKey := Bytes.zero 32
      routingInfo := List.replicate ROUTING_INFO_SIZE 0
      mac := Bytes.zero 16
      sessionId := Bytes.fill 32 9 }
  kemCiphertexts := List.replicate KEM_BLOCK_SIZE 0
  bodyKeys := [Bytes.zero 32]
  bodyAeadKey := Bytes.zero 32
  aadDestination := Bytes.fill 16 9
  firstHop := Bytes.fill 16 8

theorem blankSurb_wellFormed : blankSurb.WellFormed :=
  ⟨rfl, List.length_replicate, List.length_replicate, by decide, by decide⟩

/-- A request whose block is over one layer is cut into six pieces. -/
theorem length_pieces_one {surb : Surb} (hwf : surb.WellFormed)
    (hone : surb.bodyKeys.length = 1) (c : ChunkId) :
    (requestPieces surb c).length = 6 := by
  have hkem : surb.kemCiphertexts.length = 5440 := hwf.kem_length
  have hrouting : surb.header.routingInfo.length = 165 :=
    hwf.routing_length
  have hlen := length_serializeRequest surb c
  unfold Surb.serialize at hlen
  simp only [List.length_append, Bytes.length_toList, length_beBytes,
    length_keys_flatten, List.length_singleton, hkem, hrouting, hone]
    at hlen
  unfold requestPieces surbRequestFragments
  rw [hlen, List.length_map, List.length_range]
  rfl

/-- A piece fills a body at most. -/
theorem length_body_request {bytes : List UInt8} {sessionId : SessionId} :
    ∀ body ∈ buildSurbRequestBodies bytes sessionId,
      body.length ≤ BODY_SIZE := by
  intro body hmem
  obtain ⟨f, hf, rfl⟩ := List.mem_map.1 hmem
  obtain ⟨i, -, rfl⟩ := List.mem_map.1 hf
  have hsid := sessionId.length_toList
  have htake := List.length_take_le SURB_REQUEST_CHUNK_SIZE
    (bytes.drop (i * SURB_REQUEST_CHUNK_SIZE))
  have hm : SURB_REQUEST_CHUNK_SIZE = 979 := rfl
  have hbody : BODY_SIZE = 1024 := rfl
  simp only [surbRequestBody, List.length_cons, List.length_append,
    length_beBytes]
  omega

/-- The first hop gets the six packets, the first of them twice, and the
holder what the first hop sends on, from the last to the first: the
request is served. -/
theorem surb_request_served_blank :
    ∃ packets,
      createSurbRequestPackets .drawn drawnAt (Bytes.fill 32 5) blankSurb
        shortRoute = .ok packets
      ∧ let net := ((requestShipment (Bytes.fill 16 9) shortRoute drawnAt
            (Bytes.fill 32 5) blankSurb).start meshNodes packets).run .drawn
          (deliveries firstReading (List.range 6 ++ [0]
            ++ [12, 11, 10, 9, 8, 7, 6, 11]))
        net.Settled
          ∧ net.handed (Bytes.fill 16 1) = []
          ∧ net.handed (Bytes.fill 16 2) = [.serve (serializeRequest
            (surbRequest (Bytes.fill 32 5) blankSurb))] := by
  have hwf := blankSurb_wellFormed
  have hsix := length_pieces_one hwf rfl (Bytes.fill 32 5)
  generalize blankSurb = surb at hwf hsix ⊢
  have hbodies : (requestShipment (Bytes.fill 16 9) shortRoute drawnAt
      (Bytes.fill 32 5) surb).bodies.length = 6 :=
    length_requestShipment.trans hsix
  obtain ⟨packets, hok⟩ := drawn_packets (@length_body_request
    (serializeRequest (surbRequest (Bytes.fill 32 5) surb)) surb.sessionId)
  have hpacked : packets.length = 6 := by
    rw [← (bodyPackets_get hok).length_eq, List.length_zipIdx]
    exact hbodies
  obtain ⟨hallowed, hlinked, hsettled⟩ :=
    @mesh_rounds (requestShipment (Bytes.fill 16 9) shortRoute drawnAt
        (Bytes.fill 32 5) surb).bodies packets (WithinTimeout 200)
      (SameSession surb) ⟨le_refl _, by decide⟩ (List.range 6 ++ [0])
      [12, 11, 10, 9, 8, 7, 6, 11] (by decide)
      (by rw [hpacked]; decide) (by rw [hpacked]; decide) (by
        rw [hpacked]
        intro i hlow hhigh
        have hi : i < 13 := hhigh
        simp only [List.mem_cons, List.not_mem_nil, or_false]
        omega)
  have hnone : (meshNodes (requestShipment (Bytes.fill 16 9) shortRoute
      drawnAt (Bytes.fill 32 5) surb).last).pendingRequests.sessions.get
        (requestKey surb.sessionId) = none := by
    rw [mesh_pendingRequests]
    rfl
  obtain ⟨helsewhere, -, hserved⟩ := surb_request_served .drawn
    drawn_dhCommutes drawn_aeadCorrect meshNodes (Bytes.fill 16 9)
    shortRoute drawnAt (Bytes.fill 32 5) surb hwf packets hok
    (ready_drawn (hbodies.trans_le (by decide))) hnone 200 _ hallowed
  have hlast : (requestShipment (Bytes.fill 16 9) shortRoute drawnAt
      (Bytes.fill 32 5) surb).last = Bytes.fill 16 2 := rfl
  rw [hlast] at helsewhere hserved
  refine ⟨packets, hok, hsettled, ?_, ?_⟩
  · rw [helsewhere (Bytes.fill 16 1) (by decide)]
  · rw [hserved hlinked hsettled]

end StaticNet
