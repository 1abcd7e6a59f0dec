/-
Sphinx packets at a mix node: the replay tags, the reply sessions, and
the processing of packets and session replies
(`static-sphinx/src/lib.rs`).

A node returns its result beside its new state: a valid packet whose
routing flag turns out wrong, or whose body fails to authenticate, has
consumed its replay tag by then.
-/
import StaticNet.Lib.Fifo
import StaticNet.Sphinx.Basic

namespace StaticNet

/-- Replay tags retained per node; the oldest go first. -/
def MAX_SEEN_TAGS : Nat := 100000

def MAX_SESSION_CACHE : Nat := 4096

def SESSION_TTL_SECS : Nat := 3600

def MAX_SESSION_NONCES : Nat := 2048

/-- A reply session cached during the first fragment's traversal, with
the nonces seen in it. -/
structure CachedSession where
  nextHop : NodeId
  bodyKey : SymmetricKey
  isFinal : Bool
  seenNonces : Finset (Bytes 32)
  nonceOrder : List (Bytes 32)
  createdAt : Nat
deriving DecidableEq

namespace CachedSession

/-- The session's nonces as one memory. -/
def nonces (session : CachedSession) : Fifo (Bytes 32) :=
  ⟨session.seenNonces, session.nonceOrder⟩

def recordNonce (session : CachedSession) (nonce : Bytes 32) :
    CachedSession :=
  let kept := session.nonces.push MAX_SESSION_NONCES nonce
  { session with seenNonces := kept.seen, nonceOrder := kept.order }

end CachedSession

/-- A mix node: its keys, the replay tags it has seen and their order,
and the cached sessions and theirs. -/
structure MixNode where
  privateKey : Scalar
  nodeId : NodeId
  seenTags : Finset Mac
  seenOrder : List Mac
  sessionCache : FMap SessionId CachedSession
  sessionOrder : List SessionId

namespace MixNode

/-- The node's public key. -/
def publicKey (P : Prims) (node : MixNode) : Bytes 32 :=
  P.pointMul BASE_POINT node.privateKey

/-- A node that has processed nothing. -/
def new (privateKey : Scalar) (nodeId : NodeId) : MixNode :=
  ⟨privateKey, nodeId, ∅, [], ∅, []⟩

/-- The node's replay tags as one memory. -/
def tags (node : MixNode) : Fifo Mac := ⟨node.seenTags, node.seenOrder⟩

def insertSeenTag (node : MixNode) (tag : Mac) : MixNode :=
  let kept := node.tags.push MAX_SEEN_TAGS tag
  { node with seenTags := kept.seen, seenOrder := kept.order }

/-- `insert_session`: refreshing keeps the slot in the order. -/
def insertSession (node : MixNode) (id : SessionId)
    (session : CachedSession) : MixNode :=
  if node.sessionCache.contains id then
    { node with sessionCache := node.sessionCache.insert id session }
  else
    let full := MAX_SESSION_CACHE ≤ node.sessionCache.len
    let cache :=
      match node.sessionOrder.head? with
      | some oldest =>
          if full then node.sessionCache.erase oldest
          else node.sessionCache
      | none => node.sessionCache
    let order := if full then node.sessionOrder.drop 1
      else node.sessionOrder
    { node with
      sessionCache := cache.insert id session
      sessionOrder := order ++ [id] }

/-- `clean_expired_sessions`. -/
def cleanExpiredSessions (node : MixNode) (currentTime : Nat) : MixNode :=
  let cache := node.sessionCache.retain fun _ session =>
    currentTime - session.createdAt < SESSION_TTL_SECS
  { node with
    sessionCache := cache
    sessionOrder := node.sessionOrder.filter fun id => cache.contains id }

section insertSession

variable (node : MixNode) (id : SessionId) (session : CachedSession)

theorem insertSession_tags :
    (node.insertSession id session).tags = node.tags := by
  unfold insertSession
  split <;> rfl

theorem insertSession_privateKey :
    (node.insertSession id session).privateKey = node.privateKey := by
  unfold insertSession
  split <;> rfl

theorem insertSession_get_self :
    (node.insertSession id session).sessionCache.get id
      = some session := by
  unfold insertSession
  split <;> exact FMap.get_insert_self _ _ _

end insertSession

end MixNode

-- =========== packets

structure ProcessedPacket where
  nextHop : NodeId
  flag : RoutingFlag
  forwardPacket : Option SphinxPacket
  body : Option (List UInt8)
deriving DecidableEq

/-- What a node draws while it processes: a routing slot and a KEM slot
of padding; and the clock it reads. -/
structure MixDraws where
  routingPad : Nat → UInt8
  kemPad : Nat → UInt8
  now : Nat

/-- The zero body a reply block's MACs cover. -/
def placeholder : List UInt8 := List.replicate WIRE_BODY_SIZE 0

/-- The MAC a node expects at this packet for this body. -/
def expectedMac (P : Prims) (keys : HopKeys) (packet : SphinxPacket)
    (body : List UInt8) : Mac :=
  computeMac P keys.macKey packet.header.version
    packet.header.ephemeralKey packet.header.sessionId
    (packet.header.routingInfo.take SLOT_SIZE) body

/-- How the MAC matches: over the body, over the placeholder (a reply
block), or not at all. -/
def matchMac (P : Prims) (keys : HopKeys) (packet : SphinxPacket) :
    Except SphinxError Bool :=
  if packet.header.mac = expectedMac P keys packet packet.body then
    .ok false
  else if packet.header.mac = expectedMac P keys packet placeholder then
    .ok true
  else .error .macVerificationFailed

/-- The session a reply block's first packet installs. -/
def newSession (keys : HopKeys) (nextHop : NodeId) (flag : RoutingFlag)
    (now : Nat) : CachedSession where
  nextHop := nextHop
  bodyKey := keys.bodyKey
  isFinal := flag = .destination
  seenNonces := ∅
  nonceOrder := []
  createdAt := now

/-- The last step: hand over the body, or build the packet for the next
hop. -/
def deliver (P : Prims) (shared : SymmetricKey) (packet : SphinxPacket)
    (kemRest : List UInt8) (d : MixDraws) (nextHop : NodeId)
    (flag : RoutingFlag) (nextMac : Mac) :
    Except SphinxError ProcessedPacket :=
  let peeled := xorBody P (deriveHopKeys P shared).bodyKey packet.body
  match flag with
  | .destination =>
      match aeadDecryptBody P (bodyAeadKey P shared) peeled nextHop with
      | .error e => .error e
      | .ok plaintext => .ok ⟨nextHop, flag, none, some plaintext⟩
  | .forward =>
      .ok ⟨nextHop, flag,
        some
          { header :=
              { version := packet.header.version
                ephemeralKey := P.pointMul packet.header.ephemeralKey
                  (blindingFactor P shared)
                sessionId := packet.header.sessionId
                routingInfo := packet.header.routingInfo.drop SLOT_SIZE
                  ++ randomBytes d.routingPad SLOT_SIZE
                mac := nextMac }
            kemCiphertexts := kemRest
            body := peeled },
        none⟩

/-- What both versions do once the hop's secret is known: MAC, replay
tag, routing block, session, body. -/
def peel (P : Prims) (node : MixNode) (shared : SymmetricKey)
    (packet : SphinxPacket) (kemRest : List UInt8) (d : MixDraws) :
    Except SphinxError ProcessedPacket × MixNode :=
  let keys := deriveHopKeys P shared
  match matchMac P keys packet with
  | .error e => (.error e, node)
  | .ok matchedSurb =>
      if keys.tag ∈ node.seenTags then (.error .replayDetected, node)
      else
        let node := node.insertSeenTag keys.tag
        let block := xorSlot P keys.streamKey
          (packet.header.routingInfo.take SLOT_SIZE)
        let nextHop := Bytes.ofList 16 (slice block 0 NODE_ID_SIZE)
        let nextMac :=
          Bytes.ofList 16 (slice block (NODE_ID_SIZE + FLAG_SIZE) MAC_SIZE)
        match RoutingFlag.ofByte (block.getD NODE_ID_SIZE 0) with
        | .error e => (.error e, node)
        | .ok flag =>
            let node :=
              if matchedSurb then
                node.insertSession packet.header.sessionId
                  (newSession keys nextHop flag d.now)
              else node
            (deliver P shared packet kemRest d nextHop flag nextMac, node)

def processPacket (P : Prims) (node : MixNode) (packet : SphinxPacket)
    (d : MixDraws) : Except SphinxError ProcessedPacket × MixNode :=
  if packet.header.version = SPHINX_VERSION_HYBRID then
    (.error (.unsupportedVersion packet.header.version), node)
  else if packet.header.version ≠ SPHINX_VERSION_CLASSICAL then
    (.error (.unsupportedVersion packet.header.version), node)
  else if packet.header.routingInfo.length ≠ ROUTING_INFO_SIZE then
    (.error .invalidPacketSize, node)
  else if packet.body.length ≠ WIRE_BODY_SIZE then
    (.error .invalidPacketSize, node)
  else
    peel P node (P.pointMul packet.header.ephemeralKey node.privateKey)
      packet [] d

def processPacketHybridWithKeys (P : Prims) (node : MixNode)
    (kemSecret : List UInt8) (packet : SphinxPacket) (d : MixDraws) :
    Except SphinxError ProcessedPacket × MixNode :=
  if packet.header.version ≠ SPHINX_VERSION_HYBRID then
    (.error (.unsupportedVersion packet.header.version), node)
  else if packet.header.routingInfo.length ≠ ROUTING_INFO_SIZE then
    (.error .invalidPacketSize, node)
  else if packet.body.length ≠ WIRE_BODY_SIZE then
    (.error .invalidPacketSize, node)
  else if packet.kemCiphertexts.length ≠ KEM_BLOCK_SIZE then
    (.error .invalidKemCiphertext, node)
  else
    let dh := P.pointMul packet.header.ephemeralKey node.privateKey
    match P.decapsulateWith kemSecret
        (packet.kemCiphertexts.take KEM_CIPHERTEXT_SIZE) with
    | none => (.error .invalidKemCiphertext, node)
    | some kem =>
        peel P node (P.hybridSharedSecret dh kem "sphinx/hybrid-hop")
          packet
          (packet.kemCiphertexts.drop KEM_CIPHERTEXT_SIZE
            ++ randomBytes d.kemPad KEM_CIPHERTEXT_SIZE) d

-- ==== session replies

structure SessionReply where
  sessionId : SessionId
  nonce : Bytes 32
  body : List UInt8
deriving DecidableEq

structure SessionReplyResult where
  nextHop : NodeId
  reply : SessionReply
  isFinal : Bool
deriving DecidableEq

def processSessionReply (P : Prims) (node : MixNode)
    (reply : SessionReply) (currentTime : Nat) :
    Except SphinxError SessionReplyResult × MixNode :=
  if reply.body.length ≠ WIRE_BODY_SIZE then
    (.error .invalidPacketSize, node)
  else
    match node.sessionCache.get reply.sessionId with
    | none => (.error .sessionNotFound, node)
    | some session =>
        if SESSION_TTL_SECS ≤ currentTime - session.createdAt then
          (.error .sessionExpired,
            { node with
              sessionCache := node.sessionCache.erase reply.sessionId
              sessionOrder := node.sessionOrder.filter
                fun id => id ≠ reply.sessionId })
        else if reply.nonce ∈ session.seenNonces then
          (.error .replayDetected, node)
        else
          (.ok
            { nextHop := session.nextHop
              reply := { reply with
                body := xorBody P session.bodyKey reply.body }
              isFinal := session.isFinal },
            { node with
              sessionCache := node.sessionCache.insert reply.sessionId
                (session.recordNonce reply.nonce) })

end StaticNet
