/-
A reply on its way back: the first packet and the session replies of one
answer, crossing the nodes of the return route.

# The network

Nodes are found by their id, so a message reaches whatever node the
previous hop named. A move hands one message to the node it is at
(`handle_message` of `static-mesh/src/transport.rs`: a packet goes
through `process_packet_hybrid_with_keys`, a reply through
`process_session_reply`), in any order; between two moves any node may
do other work that leaves this session's entry alone (`Move.other`).

# The invariant

`Sound` ties every message to the layers it has crossed: the packet is
`InFlight` over the rest, a reply's body is the onion of the rest. A
node that the packet has crossed holds the session with this layer's
body key and the next hop's id, and has recorded no nonce but those of
replies that crossed it; a node that the packet has not crossed has not
seen its tag. Distinct nodes make the moves of one message invisible to
the layers of the others.
-/
import StaticNet.Retrieval.Feed

namespace StaticNet

-- =========== network

/-- Where a message is: at a node, at the application of the last one,
or dropped. -/
inductive Place (α β : Type)
  | at (node : NodeId) (msg : α)
  | arrived (out : β)
  | lost

/-- A message and the nodes that have processed it. -/
structure Transit (α β : Type) where
  path : List NodeId
  place : Place α β

structure ReplyNet where
  nodes : NodeId → MixNode
  first : Transit SphinxPacket (List UInt8)
  replies : List (Transit SessionReply SessionReply)

/-- What can happen next. -/
inductive Move
  | first (d : MixDraws)
  | reply (k : Nat) (now : Nat)
  | other (id : NodeId) (node : MixNode)

/-- Where a processed packet goes. -/
def placeOfPacket : Except SphinxError ProcessedPacket →
    Place SphinxPacket (List UInt8)
  | .error _ => .lost
  | .ok out =>
      match out.flag with
      | .destination =>
          match out.body with
          | some body => .arrived body
          | none => .lost
      | .forward =>
          match out.forwardPacket with
          | some packet => .at out.nextHop packet
          | none => .lost

/-- Where a processed session reply goes. -/
def placeOfReply : Except SphinxError SessionReplyResult →
    Place SessionReply SessionReply
  | .error _ => .lost
  | .ok out =>
      if out.isFinal then .arrived out.reply else .at out.nextHop out.reply

namespace ReplyNet

def moveFirst (P : Prims) (kem : NodeId → List UInt8) (net : ReplyNet)
    (d : MixDraws) : ReplyNet :=
  match net.first.place with
  | .at id packet =>
      let out := processPacketHybridWithKeys P (net.nodes id) (kem id)
        packet d
      { net with
        nodes := Function.update net.nodes id out.2
        first := ⟨net.first.path ++ [id], placeOfPacket out.1⟩ }
  | _ => net

def moveReply (P : Prims) (net : ReplyNet) (k now : Nat) : ReplyNet :=
  match net.replies[k]? with
  | some ⟨path, .at id reply⟩ =>
      let out := processSessionReply P (net.nodes id) reply now
      { net with
        nodes := Function.update net.nodes id out.2
        replies := net.replies.set k ⟨path ++ [id], placeOfReply out.1⟩ }
  | _ => net

def move (P : Prims) (kem : NodeId → List UInt8) (net : ReplyNet) :
    Move → ReplyNet
  | .first d => net.moveFirst P kem d
  | .reply k now => net.moveReply P k now
  | .other id node =>
      { net with nodes := Function.update net.nodes id node }

def run (P : Prims) (kem : NodeId → List UInt8) (net : ReplyNet) :
    List Move → ReplyNet
  | [] => net
  | mv :: moves => (net.move P kem mv).run P kem moves

/-- A move that is within the session's lifetime: the packet has crossed
a node before a reply reaches it and the session there has not expired;
other work keeps the node's keys and the session's entry, and does not
see the packet's tags. -/
def Allowed (sessionId : SessionId) (tags : List Mac) (net : ReplyNet) :
    Move → Prop
  | .first _ => True
  | .reply k now =>
      ∀ path id reply, net.replies[k]? = some ⟨path, .at id reply⟩ →
        id ∈ net.first.path
          ∧ ∀ s, (net.nodes id).sessionCache.get sessionId = some s →
            now - s.createdAt < SESSION_TTL_SECS
  | .other id node =>
      node.privateKey = (net.nodes id).privateKey
        ∧ node.sessionCache.get sessionId
          = (net.nodes id).sessionCache.get sessionId
        ∧ ∀ tag ∈ tags, tag ∈ node.seenTags →
          tag ∈ (net.nodes id).seenTags

/-- Every move of the run is allowed where it happens. -/
def AllAllowed (P : Prims) (kem : NodeId → List UInt8)
    (sessionId : SessionId) (tags : List Mac) :
    ReplyNet → List Move → Prop
  | _, [] => True
  | net, mv :: moves =>
      net.Allowed sessionId tags mv
        ∧ AllAllowed P kem sessionId tags (net.move P kem mv) moves

/-- An answer just sent: everything is at the first hop. -/
def start (nodes : NodeId → MixNode) (packets : SurbReplyPackets) :
    ReplyNet where
  nodes := nodes
  first := ⟨[], .at packets.firstHop packets.firstPacket⟩
  replies := packets.sessionReplies.map fun reply =>
    ⟨[], .at packets.firstHop reply⟩

/-- What the requester's application gets: the body of the packet, and
the decrypted bodies of the replies. -/
def finalBodies (P : Prims) (surb : Surb) (net : ReplyNet) :
    List (Option (List UInt8)) :=
  (match net.first.place with
    | .arrived body => some body
    | _ => none)
    :: net.replies.map fun t =>
      match t.place with
      | .arrived reply =>
          (decryptSessionReplyBody P reply surb.bodyAeadKey
            surb.aadDestination).toOption
      | _ => none

end ReplyNet

def Move.isFirst : Move → Bool
  | .first _ => true
  | _ => false

def Move.isReply (k : Nat) : Move → Bool
  | .reply j _ => j = k
  | _ => false

-- ===== the invariant

/-- The next hop after the layers before `rest`. -/
def nextId (destination : NodeId) (rest : List Layer) : NodeId :=
  (rest.head?.map Layer.nodeId).getD destination

/-- The answer being tracked: its layers, and what was sealed. -/
structure Answer where
  layers : List Layer
  sessionId : SessionId
  destination : NodeId
  inner : List UInt8
  plaintext : List UInt8
  nonces : List (Bytes 32)
  bodies : List (List UInt8)

namespace Answer

variable (P : Prims) (a : Answer)

/-- The packet, with `rest` still to cross. -/
def FirstAt (rest : List Layer) (place : Place SphinxPacket (List UInt8)) :
    Prop :=
  match rest with
  | [] => place = .arrived a.plaintext
  | l :: _ => ∃ packet, place = .at l.nodeId packet
      ∧ InFlight P SPHINX_VERSION_HYBRID a.sessionId a.destination
        (fun _ => placeholder) a.inner KEM_BLOCK_SIZE rest packet

/-- A reply, with `rest` still to cross. -/
def ReplyAt (nonce : Bytes 32) (sealed : List UInt8) (rest : List Layer)
    (place : Place SessionReply SessionReply) : Prop :=
  match rest with
  | [] => place = .arrived ⟨a.sessionId, nonce, sealed⟩
  | l :: _ =>
      place = .at l.nodeId ⟨a.sessionId, nonce, onion P sealed rest⟩

/-- The session a crossed node holds. -/
structure SessionAt (l : Layer) (rest : List Layer)
    (replies : List (Transit SessionReply SessionReply))
    (s : CachedSession) : Prop where
  body_key : s.bodyKey = (l.keys P).bodyKey
  next_hop : s.nextHop = nextId a.destination rest
  is_final : s.isFinal = rest.isEmpty
  nonces : ∀ nonce ∈ s.seenNonces,
    ∃ (k : Nat) (t : Transit SessionReply SessionReply),
      replies[k]? = some t ∧ l.nodeId ∈ t.path
        ∧ a.nonces[k]? = some nonce

structure Sound (kem : NodeId → List UInt8) (net : ReplyNet) : Prop where
  opens : ∀ l ∈ a.layers, ∀ d,
    OpensHybrid P ⟨net.nodes l.nodeId, kem l.nodeId, d⟩ l
  first : ∃ passed rest, a.layers = passed ++ rest
    ∧ net.first.path = passed.map Layer.nodeId
    ∧ a.FirstAt P rest net.first.place
  fresh : ∀ l ∈ a.layers, l.nodeId ∉ net.first.path →
    (l.keys P).tag ∉ (net.nodes l.nodeId).seenTags
  sessions : ∀ passed l rest, a.layers = passed ++ l :: rest →
    l.nodeId ∈ net.first.path →
    ∃ s, (net.nodes l.nodeId).sessionCache.get a.sessionId = some s
      ∧ a.SessionAt P l rest net.replies s
  length_eq : net.replies.length = a.nonces.length
  replies : ∀ (k : Nat) (t : Transit SessionReply SessionReply)
    (nonce : Bytes 32) (sealed : List UInt8), net.replies[k]? = some t →
    a.nonces[k]? = some nonce → a.bodies[k]? = some sealed →
    ∃ passed rest, a.layers = passed ++ rest
      ∧ t.path = passed.map Layer.nodeId
      ∧ a.ReplyAt P nonce sealed rest t.place

/-- What building the answer guarantees. -/
structure Built : Prop where
  chained : Chained P a.layers
  distinct : (a.layers.map Layer.nodeId).Nodup
  inner_length : a.inner.length = WIRE_BODY_SIZE
  opens_inner : ∀ l, a.layers.getLast? = some l →
    aeadDecryptBody P (bodyAeadKey P l.shared) a.inner a.destination
      = .ok a.plaintext
  matched : ∀ l rest packet, l :: rest <:+ a.layers →
    InFlight P SPHINX_VERSION_HYBRID a.sessionId a.destination
      (fun _ => placeholder) a.inner KEM_BLOCK_SIZE (l :: rest) packet →
    matchMac P (l.keys P) packet = .ok true
  nonces_distinct : a.nonces.Nodup
  bodies_length : a.bodies.length = a.nonces.length
  body_length : ∀ sealed ∈ a.bodies, sealed.length = WIRE_BODY_SIZE

end Answer

-- ========= crossings

theorem Chained.suffix {P : Prims} {layers rest : List Layer}
    (h : Chained P layers) (hsuf : rest <:+ layers) : Chained P rest := by
  induction layers with
  | nil =>
      rw [List.suffix_nil.1 hsuf]
      trivial
  | cons l layers ih =>
      rcases List.suffix_cons_iff.1 hsuf with rfl | hsuf
      · exact h
      · exact ih h.2 hsuf

namespace Answer

variable {P : Prims} {a : Answer} {kem : NodeId → List UInt8}
  {net : ReplyNet}

/-- Layers are told apart by their node. -/
theorem Built.layer_eq (hb : a.Built P) {l l' : Layer}
    (hl : l ∈ a.layers) (hl' : l' ∈ a.layers)
    (h : l.nodeId = l'.nodeId) : l = l' :=
  List.inj_on_of_nodup_map hb.distinct hl hl' h

/-- A layer ahead is not among those crossed. -/
theorem Built.not_passed (hb : a.Built P) {passed rest : List Layer}
    {l : Layer} (hsplit : a.layers = passed ++ l :: rest) :
    l.nodeId ∉ passed.map Layer.nodeId := by
  have hnd := hb.distinct
  rw [hsplit, List.map_append, List.map_cons] at hnd
  intro hmem
  exact (List.nodup_append.1 hnd).2.2 _ hmem _ List.mem_cons_self rfl

/-- A layer has one place in the route. -/
theorem Built.split_eq (hb : a.Built P) {passed rest passed' rest' :
      List Layer} {l : Layer} (hsplit : a.layers = passed ++ l :: rest)
    (hsplit' : a.layers = passed' ++ l :: rest') : rest = rest' := by
  have hnot : l ∉ passed' := fun hmem =>
    hb.not_passed hsplit' (List.mem_map_of_mem hmem)
  have hnd := hb.distinct
  rw [hsplit', List.map_append, List.map_cons] at hnd
  have hrest : l ∉ rest' := fun hmem =>
    (List.nodup_cons.1 (List.nodup_append.1 hnd).2.1).1
      (List.mem_map_of_mem hmem)
  exact ((List.append_cons_inj_of_notMem hnot hrest).1
    (hsplit'.symm.trans hsplit)).2.2.symm

/-- What the packet leaves behind at a node it crosses. -/
structure Crossed (P : Prims) (a : Answer) (l : Layer) (rest : List Layer)
    (node node' : MixNode) : Prop where
  private_key : node'.privateKey = node.privateKey
  session : ∃ s, node'.sessionCache.get a.sessionId = some s
    ∧ ∀ replies, a.SessionAt P l rest replies s

theorem crossed_afterLayer (node : MixNode) (l : Layer)
    (rest : List Layer) (flag : RoutingFlag) (now : Nat)
    (hflag : decide (flag = .destination) = rest.isEmpty) :
    Crossed P a l rest node (node.afterLayer P l a.sessionId true
      (nextId a.destination rest) flag now) := by
  refine ⟨?_, newSession (l.keys P) (nextId a.destination rest) flag now,
    ?_, fun _ => ⟨rfl, rfl, hflag, ?_⟩⟩
  · simp only [MixNode.afterLayer, if_true,
      MixNode.insertSession_privateKey, MixNode.insertSeenTag]
  · simp only [MixNode.afterLayer, if_true, MixNode.insertSession_get_self]
  · intro nonce hnonce
    cases hnonce

/-- The packet crosses the node of its next layer. -/
theorem Sound.cross (hb : a.Built P) (h : a.Sound P kem net)
    {passed rest : List Layer} {l : Layer} {packet : SphinxPacket}
    (hsplit : a.layers = passed ++ l :: rest)
    (hpath : net.first.path = passed.map Layer.nodeId)
    (hfly : InFlight P SPHINX_VERSION_HYBRID a.sessionId a.destination
      (fun _ => placeholder) a.inner KEM_BLOCK_SIZE (l :: rest) packet)
    (d : MixDraws) :
    ∃ out node',
      processPacketHybridWithKeys P (net.nodes l.nodeId) (kem l.nodeId)
          packet d = (out, node')
      ∧ a.FirstAt P rest (placeOfPacket out)
      ∧ Crossed P a l rest (net.nodes l.nodeId) node' := by
  have hmem : l ∈ a.layers := by
    rw [hsplit]
    simp
  have hsuf : l :: rest <:+ a.layers := ⟨passed, hsplit.symm⟩
  have hfresh : (l.keys P).tag ∉ (net.nodes l.nodeId).seenTags := by
    apply h.fresh l hmem
    rw [hpath]
    exact hb.not_passed hsplit
  have hm := hb.matched l rest packet hsuf hfly
  obtain ⟨kemRest, heq, hkem, hkemLen⟩ :=
    processHybrid_eq_peel hb.inner_length
      ⟨net.nodes l.nodeId, kem l.nodeId, d⟩ l rest packet
      (h.opens l hmem d) hfly
  rw [Stop.processHybrid] at heq
  cases rest with
  | nil =>
      have hlast : a.layers.getLast? = some l := by
        rw [hsplit, List.getLast?_append]
        rfl
      rw [peel_destination hfly hm hfresh (hb.opens_inner l hlast)] at heq
      exact ⟨_, _, heq, rfl, crossed_afterLayer _ l [] .destination _ rfl⟩
  | cons next rest =>
      obtain ⟨fwd, hpeel, hfwd⟩ := peel_forward (d := d) hfly
        (hb.chained.suffix hsuf) hm hfresh hkem hkemLen
      rw [hpeel] at heq
      exact ⟨_, _, heq, ⟨fwd, rfl, hfwd⟩,
        crossed_afterLayer _ l (next :: rest) .forward _ rfl⟩

theorem opens_congr {node node' : MixNode} {secret : List UInt8}
    {d : MixDraws} {l : Layer} (hkey : node'.privateKey = node.privateKey)
    (h : OpensHybrid P ⟨node, secret, d⟩ l) :
    OpensHybrid P ⟨node', secret, d⟩ l := by
  obtain ⟨hlen, kemSecret, hdec, hshared⟩ := h
  refine ⟨hlen, kemSecret, hdec, ?_⟩
  rw [hkey]
  exact hshared

theorem Sound.moveFirst (hb : a.Built P) (h : a.Sound P kem net)
    (d : MixDraws) : a.Sound P kem (net.moveFirst P kem d) := by
  obtain ⟨passed, rest, hsplit, hpath, hat⟩ := h.first
  cases rest with
  | nil =>
      simp only [FirstAt] at hat
      simp only [ReplyNet.moveFirst, hat]
      exact h
  | cons l rest =>
      obtain ⟨packet, hplace, hfly⟩ := hat
      obtain ⟨out, node', hproc, hnext, hcrossed⟩ :=
        h.cross hb hsplit hpath hfly d
      have hmem : l ∈ a.layers := by
        rw [hsplit]
        simp
      simp only [ReplyNet.moveFirst, hplace, hproc]
      refine ⟨?_, ⟨passed ++ [l], rest, ?_, ?_, hnext⟩, ?_, ?_,
        h.length_eq, h.replies⟩
      · intro l' hl' d'
        by_cases hid : l'.nodeId = l.nodeId
        · rw [hb.layer_eq hl' hmem hid]
          simp only [Function.update_self]
          exact opens_congr hcrossed.private_key (h.opens l hmem d')
        · simp only [Function.update_of_ne hid]
          exact h.opens l' hl' d'
      · rw [hsplit, List.append_assoc]
        rfl
      · simp only [hpath, List.map_append, List.map_cons, List.map_nil]
      · intro l' hl' hnot
        simp only [List.mem_append, List.mem_singleton, not_or] at hnot
        simp only [Function.update_of_ne hnot.2]
        exact h.fresh l' hl' hnot.1
      · intro passed' l' rest' hsplit' hin
        have hl' : l' ∈ a.layers := by
          rw [hsplit']
          simp
        by_cases hid : l'.nodeId = l.nodeId
        · have hll := hb.layer_eq hl' hmem hid
          subst hll
          rw [hb.split_eq hsplit' hsplit]
          obtain ⟨s, hs, hat⟩ := hcrossed.session
          simp only [Function.update_self]
          exact ⟨s, hs, hat _⟩
        · simp only [List.mem_append, List.mem_singleton, hid, or_false]
            at hin
          simp only [Function.update_of_ne hid]
          exact h.sessions passed' l' rest' hsplit' hin

/-- Replies that have gone further keep a session's record true. -/
theorem SessionAt.mono {l : Layer} {rest : List Layer}
    {replies replies' : List (Transit SessionReply SessionReply)}
    {s : CachedSession} (h : a.SessionAt P l rest replies s)
    (hmono : ∀ (k : Nat) (t : Transit SessionReply SessionReply),
      replies[k]? = some t →
      ∃ t', replies'[k]? = some t' ∧ t.path ⊆ t'.path) :
    a.SessionAt P l rest replies' s := by
  refine ⟨h.body_key, h.next_hop, h.is_final, fun nonce hnonce => ?_⟩
  obtain ⟨k, t, ht, hin, hk⟩ := h.nonces nonce hnonce
  obtain ⟨t', ht', hsub⟩ := hmono k t ht
  exact ⟨k, t', ht', hsub hin, hk⟩

/-- A live session forwards a fresh reply one layer lighter. -/
theorem SessionAt.process {l : Layer} {rest : List Layer}
    {replies : List (Transit SessionReply SessionReply)}
    {s : CachedSession} {node : MixNode} {nonce : Bytes 32}
    {sealed : List UInt8} {now : Nat}
    (h : a.SessionAt P l rest replies s)
    (hs : node.sessionCache.get a.sessionId = some s)
    (hlen : sealed.length = WIRE_BODY_SIZE)
    (httl : now - s.createdAt < SESSION_TTL_SECS)
    (hnew : nonce ∉ s.seenNonces) :
    ∃ out, processSessionReply P node
        ⟨a.sessionId, nonce, onion P sealed (l :: rest)⟩ now
        = (out, { node with
            sessionCache := node.sessionCache.insert a.sessionId
              (s.recordNonce nonce) })
      ∧ a.ReplyAt P nonce sealed rest (placeOfReply out) := by
  refine ⟨.ok ⟨s.nextHop, ⟨a.sessionId, nonce, onion P sealed rest⟩,
    s.isFinal⟩, ?_, ?_⟩
  · simp only [processSessionReply, length_onion, length_xorBody, hlen,
      ne_eq, not_true_eq_false, if_false, hs, Nat.not_le.2 httl, hnew,
      h.body_key, onion, xorBody_xorBody]
  · cases rest with
    | nil =>
        simp only [placeOfReply, h.is_final, List.isEmpty_nil, if_true]
        rfl
    | cons next rest =>
        simp only [placeOfReply, h.is_final, h.next_hop,
          List.isEmpty_cons, Bool.false_eq_true, if_false]
        rfl

/-- A reply's nonce is not recorded ahead of it. -/
theorem Built.nonce_fresh (hb : a.Built P) {k : Nat}
    {t : Transit SessionReply SessionReply} {nonce : Bytes 32}
    {passed rest : List Layer} {l : Layer} {s : CachedSession}
    (ht : net.replies[k]? = some t) (hk : a.nonces[k]? = some nonce)
    (hsplit : a.layers = passed ++ l :: rest)
    (hpath : t.path = passed.map Layer.nodeId)
    (hs : a.SessionAt P l rest net.replies s) :
    nonce ∉ s.seenNonces := by
  intro hmem
  obtain ⟨j, t', ht', hin, hj⟩ := hs.nonces nonce hmem
  have hjk : j = k := by
    obtain ⟨hjlt, hjget⟩ := List.getElem?_eq_some_iff.1 hj
    obtain ⟨hklt, hkget⟩ := List.getElem?_eq_some_iff.1 hk
    exact (List.Nodup.getElem_inj_iff hb.nonces_distinct).1
      (hjget.trans hkget.symm)
  subst hjk
  rw [ht] at ht'
  rw [← Option.some.inj ht', hpath] at hin
  exact hb.not_passed hsplit hin

theorem Sound.moveReply (hb : a.Built P) (h : a.Sound P kem net)
    {tags : List Mac} {k now : Nat}
    (hallowed : net.Allowed a.sessionId tags (.reply k now)) :
    a.Sound P kem (net.moveReply P k now) := by
  cases hk : net.replies[k]? with
  | none =>
      simp only [ReplyNet.moveReply, hk]
      exact h
  | some t =>
      obtain ⟨hklt, -⟩ := List.getElem?_eq_some_iff.1 hk
      have hnlt : k < a.nonces.length := by rw [← h.length_eq]; exact hklt
      have hblt : k < a.bodies.length := by
        rw [hb.bodies_length]
        exact hnlt
      have hnonce := List.getElem?_eq_getElem hnlt
      have hbody := List.getElem?_eq_getElem hblt
      generalize a.nonces[k] = nonce at hnonce
      have hlen := hb.body_length _ (List.getElem_mem hblt)
      generalize a.bodies[k] = sealed at hbody hlen
      obtain ⟨passed, rest, hsplit, hpath, hat⟩ :=
        h.replies k t nonce sealed hk hnonce hbody
      obtain ⟨path, place⟩ := t
      cases rest with
      | nil =>
          simp only [ReplyAt] at hat
          simp only [ReplyNet.moveReply, hk, hat]
          exact h
      | cons l rest =>
          simp only [ReplyAt] at hat
          simp only at hpath
          subst hat
          obtain ⟨hin, httl⟩ := hallowed _ _ _ hk
          obtain ⟨s, hs, hsess⟩ := h.sessions passed l rest hsplit hin
          have hnew := hb.nonce_fresh hk hnonce hsplit hpath hsess
          obtain ⟨out, hproc, hnext⟩ :=
            hsess.process hs hlen (httl s hs) hnew
          have hmem : l ∈ a.layers := by
            rw [hsplit]
            simp
          have hset : ∀ (j : Nat) (t : Transit SessionReply SessionReply),
              net.replies[j]? = some t →
              ∃ t', (net.replies.set k ⟨path ++ [l.nodeId],
                  placeOfReply out⟩)[j]? = some t' ∧ t.path ⊆ t'.path := by
            intro j t hj
            by_cases hjk : k = j
            · subst hjk
              rw [hk] at hj
              refine ⟨_, List.getElem?_set_self hklt, ?_⟩
              rw [← Option.some.inj hj]
              exact List.subset_append_left _ _
            · exact ⟨t, by rw [List.getElem?_set_ne hjk, hj],
                List.Subset.refl _⟩
          simp only [ReplyNet.moveReply, hk, hproc]
          refine ⟨?_, h.first, ?_, ?_, ?_, ?_⟩
          · intro l' hl' d'
            by_cases hid : l'.nodeId = l.nodeId
            · rw [hb.layer_eq hl' hmem hid]
              simp only [Function.update_self]
              exact opens_congr rfl (h.opens l hmem d')
            · simp only [Function.update_of_ne hid]
              exact h.opens l' hl' d'
          · intro l' hl' hnot
            by_cases hid : l'.nodeId = l.nodeId
            · rw [hb.layer_eq hl' hmem hid] at hnot ⊢
              simp only [Function.update_self]
              exact h.fresh l hmem hnot
            · simp only [Function.update_of_ne hid]
              exact h.fresh l' hl' hnot
          · intro passed' l' rest' hsplit' hin'
            have hl' : l' ∈ a.layers := by
              rw [hsplit']
              simp
            by_cases hid : l'.nodeId = l.nodeId
            · have hll := hb.layer_eq hl' hmem hid
              subst hll
              rw [hb.split_eq hsplit' hsplit]
              simp only [Function.update_self]
              refine ⟨s.recordNonce nonce, FMap.get_insert_self _ _ _, ?_⟩
              have hmono := hsess.mono hset
              refine ⟨hmono.body_key, hmono.next_hop, hmono.is_final, ?_⟩
              intro x hx
              rcases Fifo.mem_of_mem_push hx with hx | rfl
              · exact hmono.nonces x hx
              · exact ⟨k, _, List.getElem?_set_self hklt, by simp, hnonce⟩
            · simp only [Function.update_of_ne hid]
              obtain ⟨s', hs', hsess'⟩ :=
                h.sessions passed' l' rest' hsplit' hin'
              exact ⟨s', hs', hsess'.mono hset⟩
          · rw [List.length_set]
            exact h.length_eq
          · intro j t nonce' sealed' hj hnonce' hbody'
            by_cases hjk : k = j
            · subst hjk
              rw [List.getElem?_set_self hklt] at hj
              rw [hnonce] at hnonce'
              rw [hbody] at hbody'
              rw [← Option.some.inj hj, ← Option.some.inj hnonce',
                ← Option.some.inj hbody']
              refine ⟨passed ++ [l], rest, ?_, ?_, hnext⟩
              · rw [hsplit, List.append_assoc]
                rfl
              · simp only [hpath, List.map_append, List.map_cons,
                  List.map_nil]
            · rw [List.getElem?_set_ne hjk] at hj
              exact h.replies j t nonce' sealed' hj hnonce' hbody'

theorem Sound.moveOther (h : a.Sound P kem net) {tags : List Mac}
    (htags : ∀ l ∈ a.layers, (l.keys P).tag ∈ tags) {id : NodeId}
    {node : MixNode}
    (hallowed : net.Allowed a.sessionId tags (.other id node)) :
    a.Sound P kem
      { net with nodes := Function.update net.nodes id node } := by
  obtain ⟨hkey, hsess, htag⟩ := hallowed
  refine ⟨?_, h.first, ?_, ?_, h.length_eq, h.replies⟩
  · intro l hl d
    by_cases hid : l.nodeId = id
    · subst hid
      simp only [Function.update_self]
      exact opens_congr hkey (h.opens l hl d)
    · simp only [Function.update_of_ne hid]
      exact h.opens l hl d
  · intro l hl hnot
    by_cases hid : l.nodeId = id
    · subst hid
      simp only [Function.update_self]
      exact fun hseen => h.fresh l hl hnot (htag _ (htags l hl) hseen)
    · simp only [Function.update_of_ne hid]
      exact h.fresh l hl hnot
  · intro passed l rest hsplit hin
    by_cases hid : l.nodeId = id
    · subst hid
      simp only [Function.update_self, hsess]
      exact h.sessions passed l rest hsplit hin
    · simp only [Function.update_of_ne hid]
      exact h.sessions passed l rest hsplit hin

-- ============== runs

theorem Sound.move (hb : a.Built P) {tags : List Mac}
    (htags : ∀ l ∈ a.layers, (l.keys P).tag ∈ tags) {mv : Move}
    (h : a.Sound P kem net) (hallowed : net.Allowed a.sessionId tags mv) :
    a.Sound P kem (net.move P kem mv) := by
  cases mv with
  | first d => exact h.moveFirst hb d
  | reply k now => exact h.moveReply hb hallowed
  | other id node => exact h.moveOther htags hallowed

/-- Every allowed run keeps the answer sound. -/
theorem Sound.run (hb : a.Built P) {tags : List Mac}
    (htags : ∀ l ∈ a.layers, (l.keys P).tag ∈ tags) {moves : List Move}
    (h : a.Sound P kem net)
    (hall : ReplyNet.AllAllowed P kem a.sessionId tags net moves) :
    a.Sound P kem (net.run P kem moves) := by
  induction moves generalizing net with
  | nil => exact h
  | cons mv moves ih =>
      exact ih (h.move hb htags hall.1) hall.2

end Answer

end StaticNet
