/-
Several requests with one reply block: the pieces of the requests, the
answers of the holders, and the return route that all of them take.

# The network

As in ReplyNet.lean, with a list of answers in place of one, and with
the requests (`fetch_shards`, `retrieve_content` and
`process_swap_retrievals` of `static-node/src/runner.rs` send each with
`send_surb_request`). A piece that reaches its holder goes to the
holder's table; the piece that completes a request makes the holder send
an answer. The nonces of the session replies are one stream, numbered in
the order the replies are sent.

# The invariant

Every answer starts with a packet under the block's one header, so the
first of these packets to move takes the block's tag at the first hop,
and that hop drops the others as replays. `Shared` (Lead.lean) says so:
until a packet moves all are where they were sent, and from then on one
of them, with every session reply of every answer, is `Answer.Sound`.
A session reply that overtakes the first packets is dropped, and for the
others it is as if it had never moved.
-/
import StaticNet.Retrieval.Reply
import StaticNet.Retrieval.Request
import StaticNet.Retrieval.Returned

namespace StaticNet

-- =========== network

/-- A chunk, and the holder it is asked of. -/
structure Query where
  chunkId : ChunkId
  holder : NodeId
deriving DecidableEq

/-- What the holder of a query answers. -/
def Query.expected (chunks : NodeId → ChunkId → Option (List UInt8))
    (q : Query) : ChunkResponse :=
  chunkResponse q.chunkId (chunks q.holder q.chunkId)

/-- A body of a request, and the holder it is for. -/
structure RequestPiece where
  holder : NodeId
  body : List UInt8

structure SharedNet where
  nodes : NodeId → MixNode
  tables : NodeId → ReassemblyManager
  pieces : List RequestPiece
  firsts : List (Transit SphinxPacket (List UInt8))
  replies : List (Transit SessionReply SessionReply)

/-- What can happen next: a message moves, or a node does other work. -/
inductive SharedMove
  | piece (k now : Nat)
  | first (k : Nat) (d : MixDraws)
  | reply (k now : Nat)
  | other (id : NodeId) (node : MixNode)
  | busy (id : NodeId) (table : ReassemblyManager)

/-- What has arrived, if anything. -/
def Place.out {α β : Type} : Place α β → Option β
  | .arrived out => some out
  | .at _ _ => none
  | .lost => none

/-- Is the message still on its way? -/
def Place.moving {α β : Type} : Place α β → Bool
  | .at _ _ => true
  | .arrived _ => false
  | .lost => false

/-- The bodies of a query's request, each to be delivered to the
holder. -/
def Query.pieces (surb : Surb) (q : Query) : List RequestPiece :=
  (buildSurbRequestBodies (serializeRequest (surbRequest q.chunkId surb))
    surb.sessionId).map fun body => ⟨q.holder, padTo BODY_SIZE body⟩

namespace SharedNet

/-- The requests have been sent, and nothing has arrived. -/
def start (nodes : NodeId → MixNode) (tables : NodeId → ReassemblyManager)
    (surb : Surb) (queries : List Query) : SharedNet where
  nodes := nodes
  tables := tables
  pieces := queries.flatMap (Query.pieces surb)
  firsts := []
  replies := []

/-- A holder sends the packets of an answer to the first hop. -/
def send (net : SharedNet) (packets : SurbReplyPackets) : SharedNet :=
  { net with
    firsts := net.firsts ++ [⟨[], .at packets.firstHop packets.firstPacket⟩]
    replies := net.replies ++ packets.sessionReplies.map fun reply =>
      ⟨[], .at packets.firstHop reply⟩ }

section Moves

variable (P : Prims) (kem : NodeId → List UInt8)
  (chunks : NodeId → ChunkId → Option (List UInt8))
  (draws : Nat → Bytes 32)

/-- A piece reaches its holder. -/
def movePiece (net : SharedNet) (k now : Nat) : SharedNet :=
  match net.pieces[k]? with
  | none => net
  | some piece =>
      let out := requestOf (net.tables piece.holder) piece.body now
      let fed : SharedNet :=
        { net with
          tables := Function.update net.tables piece.holder out.2
          pieces := net.pieces.eraseIdx k }
      match out.1.bind (serveChunkRequest P
          (fun i => draws (net.replies.length + i))
          (chunks piece.holder)) with
      | none => fed
      | some packets => fed.send packets

def moveFirst (net : SharedNet) (k : Nat) (d : MixDraws) : SharedNet :=
  match net.firsts[k]? with
  | some ⟨path, .at id packet⟩ =>
      let out := processPacketHybridWithKeys P (net.nodes id) (kem id)
        packet d
      { net with
        nodes := Function.update net.nodes id out.2
        firsts := net.firsts.set k ⟨path ++ [id], placeOfPacket out.1⟩ }
  | _ => net

def moveReply (net : SharedNet) (k now : Nat) : SharedNet :=
  match net.replies[k]? with
  | some ⟨path, .at id reply⟩ =>
      let out := processSessionReply P (net.nodes id) reply now
      { net with
        nodes := Function.update net.nodes id out.2
        replies := net.replies.set k ⟨path ++ [id], placeOfReply out.1⟩ }
  | _ => net

def move (net : SharedNet) : SharedMove → SharedNet
  | .piece k now => net.movePiece P chunks draws k now
  | .first k d => net.moveFirst P kem k d
  | .reply k now => net.moveReply P k now
  | .other id node =>
      { net with nodes := Function.update net.nodes id node }
  | .busy id table =>
      { net with tables := Function.update net.tables id table }

def run (net : SharedNet) : List SharedMove → SharedNet
  | [] => net
  | mv :: moves => run (net.move P kem chunks draws mv) moves

/-- A move between honest nodes that do not forget: a holder's session
has not expired when a piece reaches it, and the nonces it draws are new;
a hop's session has not expired when a session reply reaches it; other
work keeps the node's keys, the session's entry and what the node
remembers of the block's tags, and the holder's session of the block. -/
def Allowed (sessionId : SessionId) (tags : List Mac) (net : SharedNet) :
    SharedMove → Prop
  | .piece k now =>
      (∀ piece, net.pieces[k]? = some piece →
          (net.tables piece.holder).Live (requestKey sessionId) now)
        ∧ Set.InjOn draws (Set.Iio
          (net.movePiece P chunks draws k now).replies.length)
  | .first _ _ => True
  | .reply k now =>
      ∀ path id reply, net.replies[k]? = some ⟨path, .at id reply⟩ →
        ∀ s, (net.nodes id).sessionCache.get sessionId = some s →
          now - s.createdAt < SESSION_TTL_SECS
  | .other id node =>
      node.privateKey = (net.nodes id).privateKey
        ∧ node.sessionCache.get sessionId
          = (net.nodes id).sessionCache.get sessionId
        ∧ ∀ tag ∈ tags, (tag ∈ node.seenTags
          ↔ tag ∈ (net.nodes id).seenTags)
  | .busy id table =>
      table.sessions.get (requestKey sessionId)
        = (net.tables id).sessions.get (requestKey sessionId)

/-- A session reply does not reach a node before a first packet does. -/
def Follows (net : SharedNet) : SharedMove → Prop
  | .reply k _ =>
      ∀ path id reply, net.replies[k]? = some ⟨path, .at id reply⟩ →
        ∃ t ∈ net.firsts, id ∈ t.path
  | .piece _ _ => True
  | .first _ _ => True
  | .other _ _ => True
  | .busy _ _ => True

/-- Every move of the run is allowed where it happens. -/
def AllAllowed (sessionId : SessionId) (tags : List Mac) :
    SharedNet → List SharedMove → Prop
  | _, [] => True
  | net, mv :: moves =>
      net.Allowed P chunks draws sessionId tags mv
        ∧ AllAllowed sessionId tags (net.move P kem chunks draws mv) moves

/-- No session reply of the run overtakes the first packets. -/
def AllFollow : SharedNet → List SharedMove → Prop
  | _, [] => True
  | net, mv :: moves =>
      net.Follows mv ∧ AllFollow (net.move P kem chunks draws mv) moves

/-- A first packet moves if it is at a node. -/
theorem moveFirst_cases (net : SharedNet) (k : Nat) (d : MixDraws) :
    net.moveFirst P kem k d = net
      ∨ ∃ path id packet, net.firsts[k]? = some ⟨path, .at id packet⟩
        ∧ net.moveFirst P kem k d
          = { net with
              nodes := Function.update net.nodes id
                (processPacketHybridWithKeys P (net.nodes id) (kem id)
                  packet d).2
              firsts := net.firsts.set k ⟨path ++ [id],
                placeOfPacket (processPacketHybridWithKeys P
                  (net.nodes id) (kem id) packet d).1⟩ } := by
  unfold moveFirst
  cases hk : net.firsts[k]? with
  | none => exact Or.inl rfl
  | some t =>
      obtain ⟨path, place⟩ := t
      cases place with
      | «at» id packet => exact Or.inr ⟨path, id, packet, rfl, rfl⟩
      | arrived out => exact Or.inl rfl
      | lost => exact Or.inl rfl

/-- So does a session reply. -/
theorem moveReply_cases (net : SharedNet) (k now : Nat) :
    net.moveReply P k now = net
      ∨ ∃ path id reply, net.replies[k]? = some ⟨path, .at id reply⟩
        ∧ net.moveReply P k now
          = { net with
              nodes := Function.update net.nodes id
                (processSessionReply P (net.nodes id) reply now).2
              replies := net.replies.set k ⟨path ++ [id],
                placeOfReply (processSessionReply P (net.nodes id) reply
                  now).1⟩ } := by
  unfold moveReply
  cases hk : net.replies[k]? with
  | none => exact Or.inl rfl
  | some t =>
      obtain ⟨path, place⟩ := t
      cases place with
      | «at» id reply => exact Or.inr ⟨path, id, reply, rfl, rfl⟩
      | arrived out => exact Or.inl rfl
      | lost => exact Or.inl rfl

end Moves

/-- Nothing is on its way any more. -/
structure Quiet (net : SharedNet) : Prop where
  pieces : net.pieces = []
  firsts : ∀ t ∈ net.firsts, t.place.moving = false
  replies : ∀ t ∈ net.replies, t.place.moving = false

/-- The bodies that the requester's application gets. -/
def arrivedBodies (P : Prims) (surb : Surb) (net : SharedNet) :
    List (List UInt8) :=
  net.firsts.filterMap (fun t => t.place.out)
    ++ net.replies.filterMap fun t => t.place.out.bind fun reply =>
      (decryptSessionReplyBody P reply surb.bodyAeadKey
        surb.aadDestination).toOption

end SharedNet

-- ======= the packets

section Sent

variable (P : Prims) (d : PacketDraws) (layers : List Layer)
  (destination : NodeId)

/-- The packet that starts an answer, at the first hop. -/
def sentFirst (head : Fragment) : Transit SphinxPacket (List UInt8) :=
  ⟨[], .at (hybridSurb P d destination layers).firstHop
    { header := (hybridSurb P d destination layers).header
      kemCiphertexts := kemBlock d layers
      body := onion P (innerBody P layers destination
        (serializeFragment head)) layers }⟩

/-- The session replies of an answer, at the first hop. -/
def sentReplies (nonces : Nat → Bytes 32) (rest : List Fragment) :
    List (Transit SessionReply SessionReply) :=
  (buildSessionReplies P (hybridSurb P d destination layers) nonces
    rest).map fun reply =>
      ⟨[], .at (hybridSurb P d destination layers).firstHop reply⟩

theorem length_sentReplies (nonces : Nat → Bytes 32)
    (rest : List Fragment) :
    (sentReplies P d layers destination nonces rest).length
      = rest.length := by
  simp [sentReplies, buildSessionReplies]

/-- The replies of two answers are those of one with all the pieces. -/
theorem sentReplies_append (draws : Nat → Bytes 32)
    (rest more : List Fragment) :
    sentReplies P d layers destination draws (rest ++ more)
      = sentReplies P d layers destination draws rest
        ++ sentReplies P d layers destination
          (fun i => draws (rest.length + i)) more := by
  simp only [sentReplies, buildSessionReplies, List.mapIdx_append,
    List.map_append, Nat.add_comm]

end Sent

end StaticNet
