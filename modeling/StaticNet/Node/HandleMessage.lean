/-
What a node does with a message that comes in over a connection
(`handle_message`, `serve_chunk_request` and `handle_retrieval_request`
of `static-mesh`).

A packet is peeled, and then it is forwarded, or its body is for this
node: a chunk request to serve, a piece of one to collect, or something
for the application, which gets it over a channel. A session reply is
looked up and goes the same two ways. What must not block the connection
runs as a task of its own, so it is an outcome here (`serve`) and a
function of its own (`serveChunk`).
-/
import StaticNet.Node.Senders
import StaticNet.Wire.Basic

namespace StaticNet

/-- The part of the transport state that messages go through. A
connection that is there but whose channel is closed takes nothing, so
only the peers whose channel is open are kept. -/
structure MessageState where
  mixNode : MixNode
  kemSecret : List UInt8
  pendingRequests : ReassemblyManager
  peerActivity : FMap NodeId Nat
  connections : Finset NodeId
  serveEnabled : Bool
  chunkHolder : ChunkHolder
  routingTable : RoutingTable

/-- The clock at each of its readings, and what the mix node draws. -/
structure Reading where
  activityAt : Nat
  draws : MixDraws
  requestAt : Nat

/-- What comes of a message. -/
inductive Outcome
  | inbound (sender : NodeId) (body : List UInt8)
  | inboundReply (sender : NodeId) (reply : SessionReply)
  | send (peer : NodeId) (msg : WireMessage)
  | serve (requestBody : List UInt8)
deriving DecidableEq

namespace MessageState

/-- `note_peer_activity`. -/
def noteActivity (s : MessageState) (peer : NodeId) (now : Nat) :
    MessageState :=
  { s with peerActivity := s.peerActivity.insert peer now }

/-- Into the channel of a connection, if there is one. -/
def forward (s : MessageState) (peer : NodeId) (msg : WireMessage) :
    List Outcome :=
  if peer ∈ s.connections then [.send peer msg] else []

end MessageState

-- ========== messages

/-- A body that is for this node. -/
def handleBody (s : MessageState) (sender : NodeId) (body : List UInt8)
    (now : Nat) : List Outcome × MessageState :=
  match deserializeRequest body with
  | .ok _ => ([.serve body], s)
  | .error _ =>
      let fed := tryFeedSurbRequestFragment s.pendingRequests body now
      (match fed.1 with
        | none => [.inbound sender body]
        | some none => []
        | some (some requestBytes) => [.serve requestBytes],
        { s with pendingRequests := fed.2 })

/-- What becomes of a packet once it is peeled. -/
def routeOutcome (s : MessageState) (sender : NodeId) (now : Nat)
    (outcome : ProcessedPacket) : List Outcome × MessageState :=
  match outcome.flag with
  | .destination =>
      match outcome.body with
      | some body => handleBody s sender body now
      | none => ([], s)
  | .forward =>
      match outcome.forwardPacket with
      | some packet => (s.forward outcome.nextHop (.sphinx packet), s)
      | none => ([], s)

def handleSphinx (P : Prims) (s : MessageState) (sender : NodeId)
    (r : Reading) (packet : SphinxPacket) :
    Except SphinxError (List Outcome) × MessageState :=
  if packet.header.version ≠ SPHINX_VERSION_HYBRID then (.ok [], s)
  else
    let out :=
      processPacketHybridWithKeys P s.mixNode s.kemSecret packet r.draws
    let s := { s with mixNode := out.2 }
    match out.1 with
    | .error e => (.error e, s)
    | .ok outcome =>
        let routed := routeOutcome s sender r.requestAt outcome
        (.ok routed.1, routed.2)

def handleSessionReply (P : Prims) (s : MessageState) (r : Reading)
    (reply : SessionReply) : List Outcome × MessageState :=
  let out := processSessionReply P s.mixNode reply r.draws.now
  let s := { s with mixNode := out.2 }
  match out.1 with
  | .error _ => ([], s)
  | .ok outcome =>
      (if outcome.isFinal then
          [.inboundReply outcome.nextHop outcome.reply]
        else s.forward outcome.nextHop (.sessionReply outcome.reply),
        s)

/-- `handle_message`: any message counts as activity, and handshake
messages do nothing more here. -/
def handleMessage (P : Prims) (s : MessageState) (sender : NodeId)
    (r : Reading) (msg : WireMessage) :
    Except SphinxError (List Outcome) × MessageState :=
  let s := s.noteActivity sender r.activityAt
  match msg with
  | .handshake _ | .hello _ | .welcome _ | .authIdentity _ => (.ok [], s)
  | .sphinx packet => handleSphinx P s sender r packet
  | .sessionReply reply =>
      let out := handleSessionReply P s r reply
      (.ok out.1, out.2)

-- =========== serving

/-- `handle_retrieval_request`: the answer as packets over the return
route, to which the keys are added. -/
def handleRetrievalRequest (P : Prims) (draws : Nat → PacketDraws)
    (requestBody : List UInt8) (chunkData : Option (List UInt8))
    (kemLookup : NodeId → Option (List UInt8)) :
    Except RetrievalError (List SphinxPacket) :=
  match deserializeRequest requestBody with
  | .error _ => .error .invalidRequest
  | .ok request =>
      createHybridPayloadPackets P draws
        (serializeResponse (chunkResponse request.chunkId chunkData))
        ⟨request.returnRoute.hops, request.returnRoute.destination⟩
        kemLookup

/-- `serve_chunk_request`: what it puts into the channel of the first
hop. -/
def serveChunk (P : Prims) (s : MessageState) (nonces : Nat → Bytes 32)
    (draws : Nat → PacketDraws) (requestBody : List UInt8) :
    List (NodeId × WireMessage) :=
  if !s.serveEnabled then []
  else
    match deserializeRequest requestBody with
    | .error _ => []
    | .ok request =>
        let chunkData := s.chunkHolder.getChunk request.chunkId
        if request.surb.isSome then
          match handleRetrievalRequestWithSurb P nonces requestBody
              chunkData with
          | .error _ => []
          | .ok packets =>
              if packets.firstHop ∈ s.connections then
                (packets.firstHop, .sphinx packets.firstPacket)
                  :: packets.sessionReplies.map fun reply =>
                    (packets.firstHop, .sessionReply reply)
              else []
        else
          let kemLookup := fun id =>
            (s.routingTable.getNode id).bind KnownNode.kemPublicKey
          match handleRetrievalRequest P draws requestBody chunkData
              kemLookup, request.returnRoute.hops with
          | .ok packets, hop :: _ =>
              if hop.nodeId ∈ s.connections then
                packets.map fun packet => (hop.nodeId, .sphinx packet)
              else []
          | _, _ => []

end StaticNet
