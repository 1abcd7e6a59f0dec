/-
The wire format of `static-mesh/src/wire.rs`: the handshake messages,
Sphinx packets and session replies, their payload layouts and the frame
around them.

Random padding is a source of bytes that the writer is given. The
readers index into a payload whose length they have checked; where the
source subtracts lengths that a short hybrid payload would take below
zero, the subtraction here stops at zero, and both lead to the same
error.
-/
import StaticNet.Sphinx.Process

namespace StaticNet

-- ========= constants

def MSG_HANDSHAKE : UInt8 := 0x01

def MSG_SPHINX : UInt8 := 0x02

def MSG_HELLO : UInt8 := 0x0D

def MSG_WELCOME : UInt8 := 0x0E

def MSG_AUTH_IDENTITY : UInt8 := 0x0F

def EPHEMERAL_KEY_SIZE : Nat := 32

def SESSION_ID_SIZE : Nat := 32

def HYBRID_MAX_MESSAGE_SIZE : Nat :=
  1 + 4 + 1 + 4 + SESSION_ID_SIZE + KEM_BLOCK_SIZE + EPHEMERAL_KEY_SIZE
    + ROUTING_INFO_SIZE + MAC_SIZE + WIRE_BODY_SIZE

def PADDED_MESSAGE_SIZE : Nat := HYBRID_MAX_MESSAGE_SIZE

def SPHINX_VERSION_SESSION_REPLY : UInt8 := 2

def SESSION_REPLY_WIRE_SIZE : Nat :=
  1 + EPHEMERAL_KEY_SIZE + SESSION_ID_SIZE + 4 + KEM_BLOCK_SIZE
    + ROUTING_INFO_SIZE + MAC_SIZE + WIRE_BODY_SIZE

-- ========== messages

structure Handshake where
  nodeId : NodeId
  publicKey : Bytes 32
  kemPublicKey : Option (List UInt8)
  computeEnabled : Bool
  computeCapacity : UInt8
  identityPublicKey : Bytes 32
  nonce : Bytes 32
  signature : List UInt8
deriving DecidableEq

structure Hello where
  ephPubKey : Bytes 32
  ephKemPubKey : List UInt8
  nonce : Bytes 32
deriving DecidableEq

structure Welcome where
  ephPubKey : Bytes 32
  ephKemPubKey : List UInt8
  nonce : Bytes 32
  kemCiphertext : List UInt8
deriving DecidableEq

structure EncryptedIdentity where
  aeadNonce : NonceBytes
  ciphertext : List UInt8
deriving DecidableEq

inductive WireMessage
  | handshake (handshake : Handshake)
  | hello (hello : Hello)
  | welcome (welcome : Welcome)
  | authIdentity (enc : EncryptedIdentity)
  | sphinx (packet : SphinxPacket)
  | sessionReply (reply : SessionReply)
deriving DecidableEq

inductive WireError
  | messageTooLarge (size max : Nat)
  | invalidMessageType (type : UInt8)
  | bufferTooShort (needed available : Nat)
  | invalidSphinxPacket
deriving DecidableEq

-- ======== handshakes

def serializeHandshake (hs : Handshake) : List UInt8 :=
  let kem := hs.kemPublicKey.getD []
  hs.nodeId.toList
    ++ (hs.publicKey.toList
    ++ (beBytes 2 kem.length
    ++ (kem
    ++ ([if hs.computeEnabled then 1 else 0]
    ++ ([hs.computeCapacity]
    ++ (hs.identityPublicKey.toList
    ++ (hs.nonce.toList
    ++ (Bytes.ofList 64 hs.signature).toList)))))))

def HANDSHAKE_MIN : Nat := 16 + 32 + 2 + 2 + 32 + 32 + 64

def deserializeHandshake (data : List UInt8) :
    Except WireError Handshake :=
  if data.length < HANDSHAKE_MIN then
    .error (.bufferTooShort HANDSHAKE_MIN data.length)
  else
    let kemLen := ofBeBytes (slice data 48 2)
    let needed := 50 + kemLen + 2 + 32 + 32 + 64
    if 4096 < kemLen ∨ data.length < needed then
      .error (.bufferTooShort needed data.length)
    else
      let off := 50 + kemLen
      .ok
        { nodeId := Bytes.ofList 16 (slice data 0 16)
          publicKey := Bytes.ofList 32 (slice data 16 32)
          kemPublicKey :=
            if kemLen = 0 then none else some (slice data 50 kemLen)
          computeEnabled := data.getD off 0 = 1
          computeCapacity := data.getD (off + 1) 0
          identityPublicKey := Bytes.ofList 32 (slice data (off + 2) 32)
          nonce := Bytes.ofList 32 (slice data (off + 34) 32)
          signature := slice data (off + 66) 64 }

def serializeHello (hello : Hello) : List UInt8 :=
  hello.ephPubKey.toList
    ++ (beBytes 2 hello.ephKemPubKey.length
    ++ (hello.ephKemPubKey
    ++ hello.nonce.toList))

def deserializeHello (data : List UInt8) : Except WireError Hello :=
  let min := 32 + 2 + 32
  if data.length < min then .error (.bufferTooShort min data.length)
  else
    let kemLen := ofBeBytes (slice data 32 2)
    if kemLen ≠ KEM_PUBLIC_KEY_SIZE then .error .invalidSphinxPacket
    else if data.length < 32 + 2 + kemLen + 32 then
      .error (.bufferTooShort (32 + 2 + kemLen + 32) data.length)
    else
      .ok
        { ephPubKey := Bytes.ofList 32 (slice data 0 32)
          ephKemPubKey := slice data 34 kemLen
          nonce := Bytes.ofList 32 (slice data (34 + kemLen) 32) }

def serializeWelcome (welcome : Welcome) : List UInt8 :=
  welcome.ephPubKey.toList
    ++ (beBytes 2 welcome.ephKemPubKey.length
    ++ (welcome.ephKemPubKey
    ++ (welcome.nonce.toList
    ++ (beBytes 2 welcome.kemCiphertext.length
    ++ welcome.kemCiphertext))))

def deserializeWelcome (data : List UInt8) : Except WireError Welcome :=
  let min := 32 + 2 + 32 + 2
  if data.length < min then .error (.bufferTooShort min data.length)
  else
    let kemLen := ofBeBytes (slice data 32 2)
    if kemLen ≠ KEM_PUBLIC_KEY_SIZE then .error .invalidSphinxPacket
    else if data.length < 32 + 2 + kemLen + 32 + 2 then
      .error (.bufferTooShort (32 + 2 + kemLen + 32 + 2) data.length)
    else
      let ctOff := 34 + kemLen + 32
      let ctLen := ofBeBytes (slice data ctOff 2)
      if ctLen ≠ KEM_CIPHERTEXT_SIZE then .error .invalidSphinxPacket
      else if data.length < ctOff + 2 + ctLen then
        .error (.bufferTooShort (ctOff + 2 + ctLen) data.length)
      else
        .ok
          { ephPubKey := Bytes.ofList 32 (slice data 0 32)
            ephKemPubKey := slice data 34 kemLen
            nonce := Bytes.ofList 32 (slice data (34 + kemLen) 32)
            kemCiphertext := slice data (ctOff + 2) ctLen }

def serializeAuthIdentity (enc : EncryptedIdentity) : List UInt8 :=
  enc.aeadNonce.toList
    ++ (beBytes 2 enc.ciphertext.length
    ++ enc.ciphertext)

def deserializeAuthIdentity (data : List UInt8) :
    Except WireError EncryptedIdentity :=
  if data.length < 12 + 2 then .error (.bufferTooShort 14 data.length)
  else
    let ctLen := ofBeBytes (slice data 12 2)
    if ctLen = 0 ∨ 4096 < ctLen ∨ data.length < 14 + ctLen then
      .error (.bufferTooShort (14 + ctLen) data.length)
    else
      .ok
        { aeadNonce := Bytes.ofList 12 (slice data 0 12)
          ciphertext := slice data 14 ctLen }

/-- `pad_handshake`: random bytes up to the uniform size. -/
def padHandshake (pad : Nat → UInt8) (payload : List UInt8) : List UInt8 :=
  if PADDED_MESSAGE_SIZE < payload.length then payload
  else payload ++ randomBytes pad (PADDED_MESSAGE_SIZE - payload.length)

-- ==== the identity seal

def HANDSHAKE_AUTH_CONTEXT : String := "handshake/auth"

/-- `handshake_session_aad`. -/
def handshakeSessionAad (helloNonce welcomeNonce : Bytes 32) :
    List UInt8 := helloNonce.toList ++ welcomeNonce.toList

/-- `encrypt_identity`, under the nonce drawn for it. -/
def encryptIdentity (P : Prims) (secret : SymmetricKey) (nonce : NonceBytes)
    (hs : Handshake) (aad : List UInt8) : EncryptedIdentity where
  aeadNonce := nonce
  ciphertext := P.encryptAad (P.derive secret HANDSHAKE_AUTH_CONTEXT) nonce
    (serializeHandshake hs) aad

/-- `decrypt_identity`. -/
def decryptIdentity (P : Prims) (secret : SymmetricKey)
    (enc : EncryptedIdentity) (aad : List UInt8) : Option Handshake :=
  match P.decryptAad (P.derive secret HANDSHAKE_AUTH_CONTEXT) enc.aeadNonce
      enc.ciphertext aad with
  | none => none
  | some plaintext => (deserializeHandshake plaintext).toOption

-- =========== packets

def serializeSphinx (packet : SphinxPacket) : List UInt8 :=
  [packet.header.version]
    ++ (packet.header.ephemeralKey.toList
    ++ (packet.header.sessionId.toList
    ++ (beBytes 4 packet.kemCiphertexts.length
    ++ (packet.kemCiphertexts
    ++ (packet.header.routingInfo
    ++ (packet.header.mac.toList
    ++ packet.body))))))

/-- The layout of peers from before the version byte. -/
def deserializeLegacy (data : List UInt8) : SphinxPacket where
  header :=
    { version := SPHINX_VERSION_CLASSICAL
      ephemeralKey := Bytes.ofList 32 (slice data 0 EPHEMERAL_KEY_SIZE)
      sessionId := Bytes.zero 32
      routingInfo := slice data EPHEMERAL_KEY_SIZE ROUTING_INFO_SIZE
      mac := Bytes.ofList 16
        (slice data (EPHEMERAL_KEY_SIZE + ROUTING_INFO_SIZE) MAC_SIZE) }
  kemCiphertexts := []
  body := slice data (EPHEMERAL_KEY_SIZE + ROUTING_INFO_SIZE + MAC_SIZE)
    BODY_SIZE

/-- The fields at their offsets, for a KEM section and a body of these
lengths. -/
def sphinxAt (data : List UInt8) (kemLen bodyLen : Nat) : SphinxPacket :=
  let off := 69 + kemLen
  { header :=
      { version := data.getD 0 0
        ephemeralKey := Bytes.ofList 32 (slice data 1 32)
        sessionId := Bytes.ofList 32 (slice data 33 32)
        routingInfo := slice data off ROUTING_INFO_SIZE
        mac := Bytes.ofList 16
          (slice data (off + ROUTING_INFO_SIZE) MAC_SIZE) }
    kemCiphertexts := slice data 69 kemLen
    body := slice data (off + ROUTING_INFO_SIZE + MAC_SIZE) bodyLen }

def deserializeSphinx (data : List UInt8) : Except WireError SphinxPacket :=
  let minLen := 1 + EPHEMERAL_KEY_SIZE + SESSION_ID_SIZE + 4
    + ROUTING_INFO_SIZE + MAC_SIZE + BODY_SIZE
  if data.length
      = EPHEMERAL_KEY_SIZE + ROUTING_INFO_SIZE + MAC_SIZE + BODY_SIZE then
    .ok (deserializeLegacy data)
  else if data.length < minLen then
    .error (.bufferTooShort minLen data.length)
  else
    let version := data.getD 0 0
    let kemLen := ofBeBytes (slice data 65 4)
    let kemOk :=
      if version = SPHINX_VERSION_HYBRID then kemLen = KEM_BLOCK_SIZE
      else kemLen = 0 ∨ kemLen % KEM_CIPHERTEXT_SIZE = 0
    if ¬ kemOk then .error .invalidSphinxPacket
    else
      let remaining :=
        data.length - 69 - kemLen - ROUTING_INFO_SIZE - MAC_SIZE
      let fixed := 69 + kemLen + ROUTING_INFO_SIZE + MAC_SIZE
      if remaining = WIRE_BODY_SIZE then
        if data.length < fixed + WIRE_BODY_SIZE then
          .error (.bufferTooShort (fixed + WIRE_BODY_SIZE) data.length)
        else .ok (sphinxAt data kemLen WIRE_BODY_SIZE)
      else if remaining = BODY_SIZE then
        if data.length < fixed + BODY_SIZE then
          .error (.bufferTooShort (fixed + BODY_SIZE) data.length)
        else .ok (sphinxAt data kemLen BODY_SIZE)
      else .error (.bufferTooShort (fixed + WIRE_BODY_SIZE) data.length)

/-- `SessionReply::serialize`: the body cut or filled to its size, then
random bytes up to the size of a packet. -/
def SessionReply.serialize (pad : Nat → UInt8) (reply : SessionReply) :
    List UInt8 :=
  let front := [SPHINX_VERSION_SESSION_REPLY]
    ++ (reply.sessionId.toList
    ++ (reply.nonce.toList
    ++ padTo WIRE_BODY_SIZE (reply.body.take WIRE_BODY_SIZE)))
  front ++ randomBytes pad (SESSION_REPLY_WIRE_SIZE - front.length)

def SessionReply.deserialize (data : List UInt8) :
    Except SphinxError SessionReply :=
  if data.length < 1 + SESSION_ID_SIZE + SESSION_ID_SIZE + WIRE_BODY_SIZE
  then .error .invalidPacketSize
  else if data.getD 0 0 ≠ SPHINX_VERSION_SESSION_REPLY then
    .error (.unsupportedVersion (data.getD 0 0))
  else
    .ok
      { sessionId := Bytes.ofList 32 (slice data 1 SESSION_ID_SIZE)
        nonce := Bytes.ofList 32
          (slice data (1 + SESSION_ID_SIZE) SESSION_ID_SIZE)
        body := slice data (1 + 2 * SESSION_ID_SIZE) WIRE_BODY_SIZE }

-- ============ frames

/-- The type byte and the payload of a message. -/
def WireMessage.payload (pad : Nat → UInt8) :
    WireMessage → UInt8 × List UInt8
  | .handshake hs => (MSG_HANDSHAKE, serializeHandshake hs)
  | .hello h => (MSG_HELLO, padHandshake pad (serializeHello h))
  | .welcome w => (MSG_WELCOME, padHandshake pad (serializeWelcome w))
  | .authIdentity a =>
      (MSG_AUTH_IDENTITY, padHandshake pad (serializeAuthIdentity a))
  | .sphinx packet => (MSG_SPHINX, serializeSphinx packet)
  | .sessionReply reply => (MSG_SPHINX, reply.serialize pad)

/-- The largest frame a message of this kind may have. -/
def WireMessage.maxSize : WireMessage → Nat
  | .sphinx _ => HYBRID_MAX_MESSAGE_SIZE
  | .sessionReply _ => HYBRID_MAX_MESSAGE_SIZE
  | .handshake _ => HYBRID_MAX_MESSAGE_SIZE
  | _ => 1 + 4 + PADDED_MESSAGE_SIZE

def serializeMessage (pad : Nat → UInt8) (msg : WireMessage) :
    Except WireError (List UInt8) :=
  let payload := (msg.payload pad).2
  let totalLen := 1 + 4 + payload.length
  if msg.maxSize < totalLen then
    .error (.messageTooLarge totalLen msg.maxSize)
  else
    .ok ((msg.payload pad).1 :: (beBytes 4 payload.length ++ payload))

/-- What a payload of this type says. -/
def deserializePayload (type : UInt8) (payload : List UInt8) :
    Except WireError WireMessage :=
  if type = MSG_HANDSHAKE then
    (deserializeHandshake payload).map .handshake
  else if type = MSG_HELLO then (deserializeHello payload).map .hello
  else if type = MSG_WELCOME then (deserializeWelcome payload).map .welcome
  else if type = MSG_AUTH_IDENTITY then
    (deserializeAuthIdentity payload).map .authIdentity
  else if type = MSG_SPHINX then
    if payload.length = SESSION_REPLY_WIRE_SIZE
        ∧ payload.getD 0 0 = SPHINX_VERSION_SESSION_REPLY then
      match SessionReply.deserialize payload with
      | .error _ => .error .invalidSphinxPacket
      | .ok reply => .ok (.sessionReply reply)
    else (deserializeSphinx payload).map .sphinx
  else .error (.invalidMessageType type)

def deserializeMessage (data : List UInt8) :
    Except WireError (WireMessage × Nat) :=
  if data.length < 5 then .error (.bufferTooShort 5 data.length)
  else
    let totalLen := 5 + ofBeBytes (slice data 1 4)
    if data.length < totalLen then
      .error (.bufferTooShort totalLen data.length)
    else
      (deserializePayload (data.getD 0 0)
        (slice data 5 (totalLen - 5))).map fun msg => (msg, totalLen)

/-- `try_read_message`, with the buffer it leaves. -/
def tryReadMessage (buf : List UInt8) :
    Except WireError (Option WireMessage) × List UInt8 :=
  if buf.length < 5 then (.ok none, buf)
  else
    let payloadLen := ofBeBytes (slice buf 1 4)
    if PADDED_MESSAGE_SIZE < payloadLen then
      (.error (.messageTooLarge (5 + payloadLen)
        (5 + PADDED_MESSAGE_SIZE)), buf)
    else if buf.length < 5 + payloadLen then (.ok none, buf)
    else
      match deserializeMessage (buf.take (5 + payloadLen)) with
      | .error e => (.error e, buf.drop (5 + payloadLen))
      | .ok (msg, _) => (.ok (some msg), buf.drop (5 + payloadLen))

end StaticNet
