/-
The senders that build their packets for a route to one peer
(`static-node/src/runner.rs`), and the packets of a payload
(`create_hybrid_payload_packets` and `create_surb_request_packets` of
`static-mesh/src/retrieval.rs`).

# What is in a sender

Six senders do the same by hand: a route to the destination, a lookup of
KEM keys, the fragments of the payload as packets of that route, and a
call of `send_sphinx` for each packet. What differs is where the payload
comes from, whether the keys are those of the whole table, whether the
packets after one that is refused are sent, and whom the calls name.

# What it meets

A sender reads the routing table for the route and again for the keys,
with other tasks in between, so the two may differ (`Turn`). Whether a
call succeeds depends on the connection and its channel: any answer is
allowed (`takes`). A `Sending` keeps what was done for one destination.
-/
import StaticNet.Bodies.Built
import StaticNet.Retrieval.Request

namespace StaticNet

-- ======= the packets

/-- The classical part of a route. -/
def HybridRoute.classical (route : HybridRoute) : Route where
  hops := route.hops.map fun h => ⟨h.classicalPublicKey, h.nodeId⟩
  destination := route.destination

/-- A hop with the KEM key that the lookup finds. -/
def hopWithKem (kemLookup : NodeId → Option (List UInt8))
    (hop : RouteHop) : Except RetrievalError HybridRouteHop :=
  match kemLookup hop.nodeId with
  | none => .error .sphinxError
  | some kem => .ok ⟨hop.nodeId, hop.publicKey, kem⟩

def hopsWithKem (kemLookup : NodeId → Option (List UInt8)) :
    List RouteHop → Except RetrievalError (List HybridRouteHop)
  | [] => .ok []
  | hop :: hops =>
      match hopWithKem kemLookup hop with
      | .error e => .error e
      | .ok h =>
          match hopsWithKem kemLookup hops with
          | .error e => .error e
          | .ok rest => .ok (h :: rest)

/-- The route of the packets: the destination is put behind the hops of a
route that does not end with it. -/
def effectiveRoute (kemLookup : NodeId → Option (List UInt8))
    (route : Route) : Except RetrievalError HybridRoute :=
  match hopsWithKem kemLookup route.hops with
  | .error e => .error e
  | .ok hops =>
      if hops.getLast?.map HybridRouteHop.nodeId
          ≠ some route.destination then
        let classical := (route.hops.getLast?.map RouteHop.publicKey).getD
          (Bytes.zero 32)
        match hopWithKem kemLookup ⟨classical, route.destination⟩ with
        | .error e => .error e
        | .ok last => .ok ⟨hops ++ [last], route.destination⟩
      else .ok ⟨hops, route.destination⟩

/-- One packet for each body, from the `i`-th on, with the draws of
each. -/
def bodyPackets (P : Prims) (draws : Nat → PacketDraws)
    (route : HybridRoute) :
    Nat → List (List UInt8) → Except RetrievalError (List SphinxPacket)
  | _, [] => .ok []
  | i, body :: bodies =>
      match createPacketHybrid P (draws i) route body with
      | .error _ => .error .sphinxError
      | .ok packet =>
          match bodyPackets P draws route (i + 1) bodies with
          | .error e => .error e
          | .ok packets => .ok (packet :: packets)

/-- The packets are those of the bodies, in order. -/
theorem bodyPackets_get {P : Prims} {draws : Nat → PacketDraws}
    {route : HybridRoute} {bodies : List (List UInt8)} {i : Nat} {packets : List SphinxPacket}
    (h : bodyPackets P draws route i bodies = .ok packets) :
    List.Forall₂ (fun (kb : List UInt8 × Nat) packet =>
      createPacketHybrid P (draws kb.2) route kb.1 = .ok packet)
      (bodies.zipIdx i) packets := by
  induction bodies generalizing i packets with
  | nil =>
      cases h
      exact .nil
  | cons body bodies ih =>
      rw [bodyPackets] at h
      cases hone : createPacketHybrid P (draws i) route body with
      | error e =>
          rw [hone] at h
          cases h
      | ok packet =>
          cases hrest : bodyPackets P draws route (i + 1) bodies with
          | error e =>
              rw [hone, hrest] at h
              cases h
          | ok rest =>
              rw [hone, hrest] at h
              cases h
              exact .cons hone (ih hrest)

/-- `create_hybrid_payload_packets`. -/
def createHybridPayloadPackets (P : Prims) (draws : Nat → PacketDraws)
    (payload : List UInt8) (route : Route)
    (kemLookup : NodeId → Option (List UInt8)) :
    Except RetrievalError (List SphinxPacket) :=
  match effectiveRoute kemLookup route with
  | .error e => .error e
  | .ok effective =>
      bodyPackets P draws effective 0
        ((fragmentPayload payload).map serializeFragment)

/-- `create_surb_request_packets`. -/
def createSurbRequestPackets (P : Prims) (draws : Nat → PacketDraws)
    (chunkId : ChunkId) (surb : Surb) (forwardRoute : HybridRoute) :
    Except RetrievalError (List SphinxPacket) :=
  bodyPackets P draws forwardRoute 0
    (buildSurbRequestBodies (serializeRequest (surbRequest chunkId surb))
      surb.sessionId)

-- ======= what is met

/-- What a sender reads and draws while it serves one destination. -/
structure Turn where
  table : RoutingTable
  order : IterOrder NodeId
  shuffle : List KnownNode → List KnownNode
  shuffle_perm : ∀ nodes, (shuffle nodes).Perm nodes
  keys : RoutingTable
  draws : Nat → PacketDraws

namespace Turn

/-- `build_route_to_destination`. -/
def route (t : Turn) (destination : NodeId) : Option HybridRoute :=
  t.table.buildRouteToDestination t.order t.shuffle destination

/-- `kem_lookup` over the whole table. -/
def kemLookup (t : Turn) (id : NodeId) : Option (List UInt8) :=
  (t.keys.getNode id).bind KnownNode.kemPublicKey

/-- The packets of a payload, with the keys of the table. -/
def packets (P : Prims) (t : Turn) (payload : List UInt8)
    (route : HybridRoute) : Except RetrievalError (List SphinxPacket) :=
  createHybridPayloadPackets P t.draws payload route.classical t.kemLookup

end Turn

/-- What was done for one destination: the route, the packets built for
it and the calls of `send_sphinx`. -/
structure Sending where
  route : HybridRoute
  packets : List SphinxPacket
  calls : List (NodeId × SphinxPacket)

/-- `route.hops[0].node_id`; a route that is built has a hop. -/
def HybridRoute.firstHop (route : HybridRoute) : NodeId :=
  (route.hops.head?.map HybridRouteHop.nodeId).getD (Bytes.zero 16)

/-- Every packet, whatever the calls return. -/
def sendAll (peer : NodeId) (packets : List SphinxPacket) :
    List (NodeId × SphinxPacket) :=
  packets.map (Prod.mk peer)

/-- The packets up to the first call that fails. -/
def sendUntilRefused (takes : NodeId → SphinxPacket → Bool)
    (peer : NodeId) : List SphinxPacket → List (NodeId × SphinxPacket)
  | [] => []
  | packet :: packets =>
      (peer, packet) :: if takes peer packet then
        sendUntilRefused takes peer packets else []

inductive SendError
  | inputTooLarge (size max : Nat)
  | noComputePeers
  | noKemKey (peer : NodeId)
  | unknownRequest
  | noQuote
  | noRoute
  | serialization (e : StorageError)
  | sphinxError
  | notSent
deriving DecidableEq

-- ==== chunk requests

/-- A chunk that is asked for over a reply session. -/
structure SurbRequestSending where
  chunkId : ChunkId
  peer : NodeId
  surb : Surb
  turn : Turn

/-- `send_surb_request`. -/
def SurbRequestSending.sendSurbRequest (P : Prims)
    (takes : NodeId → SphinxPacket → Bool) (s : SurbRequestSending) :
    Except SendError Unit × List Sending :=
  match s.turn.route s.peer with
  | none => (.error .noRoute, [])
  | some forward =>
      match createSurbRequestPackets P s.turn.draws s.chunkId s.surb
          forward with
      | .error _ => (.error .sphinxError, [])
      | .ok packets =>
          (if packets.all (takes forward.firstHop) then .ok ()
            else .error .notSent,
            [⟨forward, packets,
              sendUntilRefused takes forward.firstHop packets⟩])

-- ======= lost chunks

def MISSING_GOSSIP_DEDUP_TTL_SECS : Nat := 600

def MISSING_GOSSIP_DEDUP_MAX : Nat := 1024

/-- A report of a missing chunk: what was reported before, the table that
lists the peers, and what is met at each of them. -/
structure ChunkGossip where
  contentId : ContentId
  chunkId : ChunkId
  now : Nat
  recent : FMap (ContentId × ChunkId) Nat
  table : RoutingTable
  order : IterOrder NodeId
  self : SelfRoute
  turn : NodeId → Turn

namespace ChunkGossip

/-- `missing_gossip_recent` once old entries of a full map are gone. -/
def swept (g : ChunkGossip) : FMap (ContentId × ChunkId) Nat :=
  if MISSING_GOSSIP_DEDUP_MAX ≤ g.recent.len then
    g.recent.retain fun _ sent =>
      g.now - sent < MISSING_GOSSIP_DEDUP_TTL_SECS
  else g.recent

/-- The chunk was not reported lately. -/
def isNew (g : ChunkGossip) : Bool :=
  (g.swept.get (g.contentId, g.chunkId)).all fun sent =>
    MISSING_GOSSIP_DEDUP_TTL_SECS ≤ g.now - sent

/-- `missing_gossip_recent` afterwards. -/
def recorded (g : ChunkGossip) : FMap (ContentId × ChunkId) Nat :=
  if g.isNew then g.swept.insert (g.contentId, g.chunkId) g.now
  else g.swept

/-- The peers with a KEM key of the right size. -/
def peers (g : ChunkGossip) : List KnownNode :=
  ((g.order.iter g.table.nodes.keys).filterMap g.table.nodes.get).filter
    fun p => (p.kemPublicKey.map List.length).getD 0 = KEM_PUBLIC_KEY_SIZE

def payload (g : ChunkGossip) : List UInt8 :=
  serializeGossip
    ⟨g.contentId, g.chunkId, UInt64.ofNat g.now, g.self.returnRoute⟩

/-- The part of one peer: every call names the peer itself. -/
def toPeer (P : Prims) (g : ChunkGossip) (peer : KnownNode) :
    Option Sending :=
  match (g.turn peer.nodeId).route peer.nodeId with
  | none => none
  | some route =>
      match (g.turn peer.nodeId).packets P g.payload route with
      | .error _ => none
      | .ok packets => some ⟨route, packets, sendAll peer.nodeId packets⟩

/-- `send_missing_chunk_gossip`. -/
def sendMissingChunkGossip (P : Prims) (g : ChunkGossip) :
    List Sending :=
  if g.isNew then g.peers.filterMap (g.toPeer P) else []

end ChunkGossip

-- ====== verification

/-- A challenge that waits for its answer. -/
structure VerificationPending where
  chunkId : ChunkId
  segmentIndex : UInt32
  expectedHash : Bytes 32
  challengedNode : NodeId
  sentAt : Nat
deriving DecidableEq

/-- What the tick reads and draws once old challenges are swept. -/
structure VerificationTick where
  nodeId : NodeId
  claims : List (ChunkId × NodeId)
  connected : List NodeId
  manifests : List ContentManifest
  pending : FMap (Bytes 32) VerificationPending
  candidateDraw : Nat
  segmentDraw : Nat
  nonce : Bytes 32
  now : Nat
  self : SelfRoute
  routing : RoutingTable
  order : IterOrder NodeId
  turn : Turn

namespace VerificationTick

/-- Swaps with connected partners, over chunks of manifests we hold. -/
def candidates (t : VerificationTick) : List (ChunkId × NodeId) :=
  (t.claims.filter fun c =>
    t.connected.contains c.2 && c.2 ≠ t.nodeId).filter fun c =>
      (t.manifests.flatMap ContentManifest.chunkIds).contains c.1

/-- The segment hashes of a chunk, from the first manifest that has
them. -/
def segmentHashes (t : VerificationTick) (chunkId : ChunkId) :
    Option (List (Bytes 32)) :=
  t.manifests.findSome? fun manifest =>
    (manifest.chunkIds.idxOf? chunkId).bind fun i =>
      manifest.segmentHashes[i]?

/-- The challenge of the tick with what is kept of it. -/
def challenge (t : VerificationTick) :
    Option (VerificationPending × VerificationChallenge) :=
  match t.candidates[t.candidateDraw % t.candidates.length]? with
  | none => none
  | some (chunkId, partner) =>
      match t.segmentHashes chunkId with
      | none => none
      | some hashes =>
          let i := t.segmentDraw % hashes.length
          match hashes[i]? with
          | none => none
          | some expected =>
              some
                (⟨chunkId, UInt32.ofNat i, expected, partner, t.now⟩,
                  ⟨chunkId, UInt32.ofNat i, t.nonce, t.self.returnRoute⟩)

/-- The KEM key of the partner. -/
def partnerKem (t : VerificationTick) (partner : NodeId) :
    Option (List UInt8) :=
  (((t.order.iter t.routing.nodes.keys).filterMap
    t.routing.nodes.get).find? fun n => n.nodeId = partner).bind
      KnownNode.kemPublicKey

/-- `single_peer_kem_lookup`. -/
def singlePeerKemLookup (peer : NodeId) (kem : List UInt8)
    (id : NodeId) : Option (List UInt8) :=
  if id = peer then some kem else none

/-- The challenge on its way to the partner, or nothing. -/
def toPartner (P : Prims) (takes : NodeId → SphinxPacket → Bool)
    (t : VerificationTick) (partner : NodeId)
    (challenge : VerificationChallenge) : Option Sending :=
  match t.partnerKem partner with
  | none => none
  | some kem =>
      match t.turn.route partner with
      | none => none
      | some route =>
          match Verification.serializeChallenge challenge with
          | .error _ => none
          | .ok payload =>
              match createHybridPayloadPackets P t.turn.draws payload
                  route.classical (singlePeerKemLookup partner kem) with
              | .error _ => none
              | .ok packets =>
                  some ⟨route, packets,
                    sendUntilRefused takes route.firstHop packets⟩

/-- `run_verification_tick`, from the choice of a challenge on: what
waits afterwards, and what was sent. -/
def runVerificationTick (P : Prims) (takes : NodeId → SphinxPacket → Bool)
    (t : VerificationTick) :
    FMap (Bytes 32) VerificationPending × List Sending :=
  match t.challenge with
  | none => (t.pending, [])
  | some (pending, challenge) =>
      let registered := t.pending.insert t.nonce pending
      match t.toPartner P takes pending.challengedNode challenge with
      | none => (registered.erase t.nonce, [])
      | some d =>
          if d.packets.all (takes d.route.firstHop) then (registered, [d])
          else (registered.erase t.nonce, [d])

end VerificationTick

-- =========== compute

/-- A compute request that waits for its response. -/
structure PendingComputeRequest where
  requestId : RequestId
  provider : NodeId
  payment : Option PaymentRequest
  startedAt : Nat
deriving DecidableEq

/-- `max_by_key`: the last of the largest. -/
def maxByKey {α : Type} (key : α → Nat) (xs : List α) : Option α :=
  xs.foldl (fun best x =>
    if best.all fun b => key b ≤ key x then some x else best) none

/-- What `submit_compute_request` reads and draws, besides its
arguments. -/
structure ComputeSubmission where
  moduleContentPubKey : Bytes 32
  inputData : List UInt8
  currency : Currency
  routing : RoutingTable
  order : IterOrder NodeId
  requestId : RequestId
  self : SelfRoute
  pendingRequests : FMap RequestId PendingComputeRequest
  now : Nat
  turn : Turn

namespace ComputeSubmission

/-- The provider: the peer that offers most. -/
def provider (s : ComputeSubmission) : Option KnownNode :=
  maxByKey (fun n => n.computeCapacity.toNat)
    (((s.order.iter s.routing.nodes.keys).filterMap
      s.routing.nodes.get).filter KnownNode.computeEnabled)

/-- The request with its route and its packets. -/
def built (P : Prims) (s : ComputeSubmission) :
    Except SendError
      (KnownNode × HybridRoute × List SphinxPacket) :=
  if MAX_COMPUTE_INPUT_SIZE < s.inputData.length then
    .error (.inputTooLarge s.inputData.length MAX_COMPUTE_INPUT_SIZE)
  else
    match s.provider with
    | none => .error .noComputePeers
    | some peer =>
        if (peer.kemPublicKey.map List.length) ≠ some KEM_PUBLIC_KEY_SIZE
        then .error (.noKemKey peer.nodeId)
        else
          match s.turn.route peer.nodeId with
          | none => .error .noRoute
          | some route =>
              match Compute.serializeRequest (submittedRequest P s.self
                  s.moduleContentPubKey s.currency s.requestId
                  s.inputData) with
              | .error e => .error (.serialization e)
              | .ok payload =>
                  match s.turn.packets P payload route with
                  | .error _ => .error .sphinxError
                  | .ok packets => .ok (peer, route, packets)

/-- `submit_compute_request`: what it returns, the requests that wait
afterwards, and what was sent. -/
def submitComputeRequest (P : Prims)
    (takes : NodeId → SphinxPacket → Bool) (s : ComputeSubmission) :
    Except SendError RequestId
      × FMap RequestId PendingComputeRequest × List Sending :=
  match s.built P with
  | .error e => (.error e, s.pendingRequests, [])
  | .ok (peer, route, packets) =>
      let pendingRequests := s.pendingRequests.insert s.requestId
        ⟨s.requestId, peer.nodeId, none, s.now⟩
      (if packets.all (takes route.firstHop) then .ok s.requestId
        else .error .notSent,
        pendingRequests,
        [⟨route, packets, sendUntilRefused takes route.firstHop packets⟩])

end ComputeSubmission

/-- What `confirm_compute_payment` reads and draws, besides its
arguments. -/
structure PaymentSending where
  requestId : RequestId
  txHash : String
  pendingRequests : FMap RequestId PendingComputeRequest
  turn : Turn

namespace PaymentSending

def built (P : Prims) (s : PaymentSending) :
    Except SendError (HybridRoute × List SphinxPacket) :=
  match s.pendingRequests.get s.requestId with
  | none => .error .unknownRequest
  | some pending =>
      match pending.payment with
      | none => .error .noQuote
      | some quote =>
          match Compute.serializePaymentConfirmation
              ⟨s.requestId, s.txHash, quote.currency⟩ with
          | .error e => .error (.serialization e)
          | .ok payload =>
              match s.turn.route pending.provider with
              | none => .error .noRoute
              | some route =>
                  match s.turn.packets P payload route with
                  | .error _ => .error .sphinxError
                  | .ok packets => .ok (route, packets)

/-- `confirm_compute_payment`. -/
def confirmComputePayment (P : Prims)
    (takes : NodeId → SphinxPacket → Bool) (s : PaymentSending) :
    Except SendError Unit × List Sending :=
  match s.built P with
  | .error e => (.error e, [])
  | .ok (route, packets) =>
      (if packets.all (takes route.firstHop) then .ok ()
        else .error .notSent,
        [⟨route, packets, sendUntilRefused takes route.firstHop packets⟩])

end PaymentSending

-- ======== heartbeats

/-- What the propagation of heartbeats reads and draws. -/
structure HeartbeatRound where
  nodeId : NodeId
  leases : LeaseManager
  contents : IterOrder ContentId
  contentKeypairs : FMap ContentId SigningKey
  activeSwaps : FMap ChunkId NodeId
  order : IterOrder NodeId
  now : Nat
  nonce : ContentId → Bytes 32
  turn : ContentId → NodeId → Turn

namespace HeartbeatRound

/-- The holders of these chunks, ourselves apart. -/
def peersToNotify (r : HeartbeatRound) (chunkIds : List ChunkId) :
    Finset NodeId :=
  (chunkIds.filterMap r.activeSwaps.get).toFinset.erase r.nodeId

/-- The heartbeat of one content, to one holder. -/
def toHolder (P : Prims) (r : HeartbeatRound) (contentId : ContentId)
    (hb : Heartbeat) (peer : NodeId) : Option Sending :=
  match (r.turn contentId peer).route peer with
  | none => none
  | some route =>
      match (r.turn contentId peer).packets P hb.wireSerialize route with
      | .error _ => none
      | .ok packets => some ⟨route, packets, sendAll route.firstHop packets⟩

/-- What one content comes to. -/
def ofContent (P : Prims) (r : HeartbeatRound) (contentId : ContentId) :
    List Sending :=
  match r.contentKeypairs.get contentId with
  | none => []
  | some signingKey =>
      match r.leases.createHeartbeat P contentId
          DEFAULT_LEASE_DURATION_SECS signingKey r.now
          (r.nonce contentId) with
      | .error _ => []
      | .ok hb =>
          (r.order.iter (r.peersToNotify
            ((r.leases.contentChunks.get contentId).getD []))).filterMap
              (r.toHolder P contentId hb)

/-- `propagate_heartbeats_once`: how many holders were notified, and what
was sent. -/
def propagateHeartbeatsOnce (P : Prims) (r : HeartbeatRound) :
    Nat × List Sending :=
  let sent := (r.contents.iter r.leases.contentChunks.keys).flatMap
    (r.ofContent P)
  (sent.length, sent)

end HeartbeatRound

-- =========== senders

/-- A sender with all that it meets. -/
inductive Sender
  | surbRequest (s : SurbRequestSending)
  | missingChunkGossip (g : ChunkGossip)
  | verificationTick (t : VerificationTick)
  | computeRequest (s : ComputeSubmission)
  | computePayment (s : PaymentSending)
  | heartbeats (r : HeartbeatRound)

def Sender.sendings (P : Prims) (takes : NodeId → SphinxPacket → Bool) :
    Sender → List Sending
  | .surbRequest s => (s.sendSurbRequest P takes).2
  | .missingChunkGossip g => g.sendMissingChunkGossip P
  | .verificationTick t => (t.runVerificationTick P takes).2
  | .computeRequest s => (s.submitComputeRequest P takes).2.2
  | .computePayment s => (s.confirmComputePayment P takes).2
  | .heartbeats r => (r.propagateHeartbeatsOnce P).2

end StaticNet
