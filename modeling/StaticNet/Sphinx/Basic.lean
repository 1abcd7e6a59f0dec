/-
Sphinx packets: sizes, headers, per-hop keys, and packet construction
(`static-sphinx/src/lib.rs`).

# One construction

`create_packet`, `create_packet_hybrid`, `create_surb` and
`create_surb_hybrid` run the same three loops. The first goes forward
over the hops and blinds: it produces a `Layer` per hop (`chainLayers`),
the two kinds of packet differing in how a hop's secret is agreed on. The
second goes backward and wraps the body (`onion`). The third goes
backward and nests each hop's MAC in the slot before it (`buildSlots`),
over the body each hop will see for a packet, over a zero placeholder for
a reply block. Going backward over an array is recursion on the list of
layers here: what the source stores at index `i` is the value at the
suffix that starts there.
-/
import StaticNet.Lib.FMap
import StaticNet.Crypto

namespace StaticNet

-- ========= constants

def MAX_HOPS : Nat := 5

def NODE_ID_SIZE : Nat := 16

def FLAG_SIZE : Nat := 1

def MAC_SIZE : Nat := 16

/-- A routing slot: next hop, flag, next MAC. -/
def SLOT_SIZE : Nat := NODE_ID_SIZE + FLAG_SIZE + MAC_SIZE

def ROUTING_INFO_SIZE : Nat := MAX_HOPS * SLOT_SIZE

/-- Plaintext capacity of a body. -/
def BODY_SIZE : Nat := 1024

/-- The body on the wire: plaintext and AEAD tag. -/
def WIRE_BODY_SIZE : Nat := BODY_SIZE + 16

def KEM_BLOCK_SIZE : Nat := MAX_HOPS * KEM_CIPHERTEXT_SIZE

def SPHINX_VERSION_CLASSICAL : UInt8 := 0

def SPHINX_VERSION_HYBRID : UInt8 := 1

/-- The Montgomery base point, u = 9. -/
def BASE_POINT : Bytes 32 := Bytes.ofList 32 [9]

-- ============== data

abbrev Mac := Bytes 16

abbrev SessionId := Bytes 32

inductive RoutingFlag
  | forward
  | destination
deriving DecidableEq

def RoutingFlag.toByte : RoutingFlag → UInt8
  | forward => 0
  | destination => 1

inductive SphinxError
  | macVerificationFailed
  | replayDetected
  | invalidPacketSize
  | invalidRoutingFlag
  | routeTooLong
  | bodyTooLarge
  | unsupportedVersion (version : UInt8)
  | invalidKemCiphertext
  | invalidKemPublicKey
  | bodyAuthFailed
  | sessionNotFound
  | sessionExpired
deriving DecidableEq

/-- `RoutingFlag::try_from`. -/
def RoutingFlag.ofByte (b : UInt8) : Except SphinxError RoutingFlag :=
  if b = 0 then .ok .forward
  else if b = 1 then .ok .destination
  else .error .invalidRoutingFlag

structure RouteHop where
  publicKey : Bytes 32
  nodeId : NodeId
deriving DecidableEq

structure Route where
  hops : List RouteHop
  destination : NodeId
deriving DecidableEq

structure HybridRouteHop where
  nodeId : NodeId
  classicalPublicKey : Bytes 32
  kemPublicKey : List UInt8
deriving DecidableEq

structure HybridRoute where
  hops : List HybridRouteHop
  destination : NodeId
deriving DecidableEq

structure SphinxHeader where
  version : UInt8
  ephemeralKey : Bytes 32
  sessionId : SessionId
  routingInfo : List UInt8
  mac : Mac
deriving DecidableEq

structure SphinxPacket where
  header : SphinxHeader
  kemCiphertexts : List UInt8
  body : List UInt8
deriving DecidableEq

-- ====== key schedule

structure HopKeys where
  streamKey : SymmetricKey
  macKey : SymmetricKey
  bodyKey : SymmetricKey
  tag : Mac
deriving DecidableEq

def deriveHopKeys (P : Prims) (shared : SymmetricKey) : HopKeys where
  streamKey := P.derive shared "sphinx/stream"
  macKey := P.derive shared "sphinx/mac"
  bodyKey := P.derive shared "sphinx/body"
  tag := Bytes.ofList 16 ((P.derive shared "sphinx/tag").toList.take 16)

/-- The per-hop routing MAC: version, ephemeral key, session id, slot and
body. -/
def computeMac (P : Prims) (macKey : SymmetricKey) (version : UInt8)
    (ephemeralKey : Bytes 32) (sessionId : SessionId)
    (slot body : List UInt8) : Mac :=
  Bytes.ofList 16
    ((P.blake3Keyed (P.derive macKey "sphinx/mac/compute")
      (version :: (ephemeralKey.toList ++ sessionId.toList ++ slot
        ++ body))).toList.take 16)

def slotKeystream (P : Prims) (key : SymmetricKey) : List UInt8 :=
  (P.derive key "sphinx/slot:0").toList
    ++ (P.derive key "sphinx/slot:1").toList.take 1

def xorSlot (P : Prims) (key : SymmetricKey) (slot : List UInt8) :
    List UInt8 := xorBytes (slotKeystream P key) slot

/-- `body_keystream`: derived blocks until there are enough, cut. -/
def bodyKeystream (P : Prims) (key : SymmetricKey) (len : Nat) :
    List UInt8 :=
  ((List.range ((31 + len) / 32)).flatMap fun i =>
    (P.derive key ("sphinx/body:" ++ toString i)).toList).take len

def xorBody (P : Prims) (key : SymmetricKey) (body : List UInt8) :
    List UInt8 := xorBytes (bodyKeystream P key body.length) body

def bodyAeadKey (P : Prims) (shared : SymmetricKey) : SymmetricKey :=
  P.derive shared "sphinx/body-aead"

def bodyAeadNonce (P : Prims) (aeadKey : SymmetricKey) : NonceBytes :=
  Bytes.ofList 12 ((P.derive aeadKey "sphinx/body-nonce").toList.take 12)

def aeadEncryptBody (P : Prims) (aeadKey : SymmetricKey)
    (padded : List UInt8) (destination : NodeId) : List UInt8 :=
  P.encryptAad aeadKey (bodyAeadNonce P aeadKey) padded destination.toList

def aeadDecryptBody (P : Prims) (aeadKey : SymmetricKey)
    (wireBody : List UInt8) (destination : NodeId) :
    Except SphinxError (List UInt8) :=
  if wireBody.length ≠ WIRE_BODY_SIZE then .error .invalidPacketSize
  else
    match P.decryptAad aeadKey (bodyAeadNonce P aeadKey) wireBody
        destination.toList with
    | some plaintext => .ok plaintext
    | none => .error .bodyAuthFailed

/-- `blinding_factor`: 32 derived bytes, little-endian, reduced. -/
def blindingFactor (P : Prims) (shared : SymmetricKey) : Scalar :=
  Prims.pointScalar (P.derive shared "sphinx/blind")

-- ====== construction

/-- What the sender knows about one hop. -/
structure Layer where
  nodeId : NodeId
  alpha : Bytes 32
  shared : SymmetricKey
  ciphertext : List UInt8
deriving DecidableEq

def Layer.keys (P : Prims) (l : Layer) : HopKeys := deriveHopKeys P l.shared

/-- The forward loop: the secret of each hop from the running scalar,
which is then blinded together with the ephemeral key. -/
def chainLayers (P : Prims) {H : Type} (pub : H → Bytes 32)
    (nodeId : H → NodeId)
    (agree : Nat → H → SymmetricKey →
      Except SphinxError (SymmetricKey × List UInt8)) :
    Nat → Bytes 32 → Scalar → List H → Except SphinxError (List Layer)
  | _, _, _, [] => .ok []
  | i, alpha, scalar, hop :: rest =>
      match agree i hop (P.pointMul (pub hop) scalar) with
      | .error e => .error e
      | .ok (shared, ciphertext) =>
          let blind := blindingFactor P shared
          match chainLayers P pub nodeId agree (i + 1)
              (P.pointMul alpha blind) (scalar * blind) rest with
          | .error e => .error e
          | .ok layers =>
              .ok (⟨nodeId hop, alpha, shared, ciphertext⟩ :: layers)

/-- The body as the first of these layers' hops sees it. -/
def onion (P : Prims) (inner : List UInt8) : List Layer → List UInt8
  | [] => inner
  | l :: rest => xorBody P (l.keys P).bodyKey (onion P inner rest)

/-- A routing block: where to next, and the MAC that the next hop will
check. -/
def routingBlock (next : NodeId) (flag : RoutingFlag) (mac : Mac) :
    List UInt8 := next.toList ++ [flag.toByte] ++ mac.toList

/-- The backward loop: the encrypted slots of these layers, and the MAC
of the first. `bodyAt` is what the MAC at a suffix covers. -/
def buildSlots (P : Prims) (version : UInt8) (sessionId : SessionId)
    (destination : NodeId) (bodyAt : List Layer → List UInt8) :
    List Layer → List (List UInt8) × Mac
  | [] => ([], Bytes.zero 16)
  | l :: rest =>
      let inner := buildSlots P version sessionId destination bodyAt rest
      let block :=
        match rest with
        | [] => routingBlock destination .destination (Bytes.zero 16)
        | next :: _ => routingBlock next.nodeId .forward inner.2
      let slot := xorSlot P (l.keys P).streamKey block
      (slot :: inner.1,
        computeMac P (l.keys P).macKey version l.alpha sessionId slot
          (bodyAt (l :: rest)))

/-- What building a packet draws. -/
structure PacketDraws where
  sessionId : SessionId
  scalar : Scalar
  coins : Nat → Bytes 32
  kemPad : Nat → UInt8
  routingPad : Nat → UInt8

/-- The header over a chain of layers, its routing info filled up with
random bytes. -/
def buildHeader (P : Prims) (version : UInt8) (d : PacketDraws)
    (destination : NodeId) (bodyAt : List Layer → List UInt8)
    (layers : List Layer) : SphinxHeader :=
  let slots := buildSlots P version d.sessionId destination bodyAt layers
  { version := version
    ephemeralKey := (layers.head?.map Layer.alpha).getD (Bytes.zero 32)
    sessionId := d.sessionId
    routingInfo := slots.1.flatten ++ randomBytes d.routingPad
      (ROUTING_INFO_SIZE - layers.length * SLOT_SIZE)
    mac := slots.2 }

/-- The fixed-size block of KEM ciphertexts and random dummies. -/
def kemBlock (d : PacketDraws) (layers : List Layer) : List UInt8 :=
  (layers.map Layer.ciphertext).flatten ++ randomBytes d.kemPad
    (KEM_BLOCK_SIZE - layers.length * KEM_CIPHERTEXT_SIZE)

/-- The secret of the last hop. -/
def lastShared (layers : List Layer) : SymmetricKey :=
  (layers.getLast?.map Layer.shared).getD (Bytes.zero 32)

/-- The innermost body: padded, sealed for the destination under the
last hop's secret. -/
def innerBody (P : Prims) (layers : List Layer) (destination : NodeId)
    (body : List UInt8) : List UInt8 :=
  aeadEncryptBody P (bodyAeadKey P (lastShared layers))
    (padTo BODY_SIZE body) destination

/-- The classical chain: the DH point is the secret. -/
def classicalLayers (P : Prims) (d : PacketDraws) (hops : List RouteHop) :
    Except SphinxError (List Layer) :=
  chainLayers P RouteHop.publicKey RouteHop.nodeId
    (fun _ _ dh => .ok (dh, [])) 0 (P.pointMul BASE_POINT d.scalar)
    d.scalar hops

/-- The hybrid agreement with one hop: DH and a fresh encapsulation. -/
def hybridAgree (P : Prims) (d : PacketDraws) (i : Nat)
    (hop : HybridRouteHop) (dh : SymmetricKey) :
    Except SphinxError (SymmetricKey × List UInt8) :=
  match P.encapsulateTo hop.kemPublicKey (d.coins i) with
  | none => .error .invalidKemPublicKey
  | some (kem, ciphertext) =>
      .ok (P.hybridSharedSecret dh kem "sphinx/hybrid-hop", ciphertext)

def hybridLayers (P : Prims) (d : PacketDraws)
    (hops : List HybridRouteHop) : Except SphinxError (List Layer) :=
  chainLayers P HybridRouteHop.classicalPublicKey HybridRouteHop.nodeId
    (hybridAgree P d) 0 (P.pointMul BASE_POINT d.scalar) d.scalar hops

def createPacket (P : Prims) (d : PacketDraws) (route : Route)
    (body : List UInt8) : Except SphinxError SphinxPacket :=
  if route.hops.length = 0 ∨ MAX_HOPS < route.hops.length then
    .error .routeTooLong
  else if BODY_SIZE < body.length then .error .bodyTooLarge
  else
    match classicalLayers P d route.hops with
    | .error e => .error e
    | .ok layers =>
        let inner := innerBody P layers route.destination body
        .ok
          { header := buildHeader P SPHINX_VERSION_CLASSICAL d
              route.destination (onion P inner) layers
            kemCiphertexts := []
            body := onion P inner layers }

def createPacketHybrid (P : Prims) (d : PacketDraws)
    (route : HybridRoute) (body : List UInt8) :
    Except SphinxError SphinxPacket :=
  if route.hops.length = 0 ∨ MAX_HOPS < route.hops.length then
    .error .routeTooLong
  else if BODY_SIZE < body.length then .error .bodyTooLarge
  else if route.hops.any
      fun h => h.kemPublicKey.length ≠ KEM_PUBLIC_KEY_SIZE then
    .error .invalidKemPublicKey
  else
    match hybridLayers P d route.hops with
    | .error e => .error e
    | .ok layers =>
        let inner := innerBody P layers route.destination body
        .ok
          { header := buildHeader P SPHINX_VERSION_HYBRID d
              route.destination (onion P inner) layers
            kemCiphertexts := kemBlock d layers
            body := onion P inner layers }

end StaticNet
