/-
The readers of wire messages with every access they make
(`static-mesh/src/wire.rs`, `static-sphinx/src/lib.rs` and `surb.rs`,
`static-mesh/src/fragment.rs`).

# What a peer can make panic

All of these readers check a length before they index, with one
exception: `deserialize_sphinx` subtracts the length of the KEM section
that a packet declares from what it has, before it compares the two. A
packet that declares more than there is takes the difference below zero
(`Overruns`), and nothing else does (`decoders_safe_iff`).

# What they compute

Where a reader does not panic, it gives what the function on byte strings
gives that the rest of this development is about (`run_eq` theorems).
-/
import StaticNet.Lib.Cursor
import StaticNet.Retrieval.Fragment
import StaticNet.Sphinx.Surb
import StaticNet.Wire.Basic

namespace StaticNet

open Cursor

namespace Checked

-- ======== handshakes

def deserializeHandshake : Cursor WireError Handshake := do
  let len ← size
  ensure (HANDSHAKE_MIN ≤ len) (.bufferTooShort HANDSHAKE_MIN len)
  let nodeId ← raw 16
  let publicKey ← raw 32
  let lenBytes ← raw 2
  let kemLen := ofBeBytes lenBytes
  let needed := 50 + kemLen + 2 + 32 + 32 + 64
  ensure (kemLen ≤ 4096 ∧ needed ≤ len) (.bufferTooShort needed len)
  let kem ← raw kemLen
  let computeEnabled ← next
  let computeCapacity ← next
  let identityPublicKey ← raw 32
  let nonce ← raw 32
  need 64 .bufferTooShort
  let signature ← raw 64
  pure
    { nodeId := Bytes.ofList 16 nodeId
      publicKey := Bytes.ofList 32 publicKey
      kemPublicKey := if kemLen = 0 then none else some kem
      computeEnabled := computeEnabled = 1
      computeCapacity := computeCapacity
      identityPublicKey := Bytes.ofList 32 identityPublicKey
      nonce := Bytes.ofList 32 nonce
      signature := signature }

def deserializeHello : Cursor WireError Hello := do
  let len ← size
  ensure (32 + 2 + 32 ≤ len) (.bufferTooShort (32 + 2 + 32) len)
  let ephPubKey ← range 0 32
  let lenBytes ← range 32 2
  let kemLen := ofBeBytes lenBytes
  ensure (kemLen = KEM_PUBLIC_KEY_SIZE) .invalidSphinxPacket
  ensure (32 + 2 + kemLen + 32 ≤ len)
    (.bufferTooShort (32 + 2 + kemLen + 32) len)
  let ephKemPubKey ← range 34 kemLen
  let nonce ← range (34 + kemLen) 32
  pure ⟨Bytes.ofList 32 ephPubKey, ephKemPubKey, Bytes.ofList 32 nonce⟩

def deserializeWelcome : Cursor WireError Welcome := do
  let len ← size
  ensure (32 + 2 + 32 + 2 ≤ len) (.bufferTooShort (32 + 2 + 32 + 2) len)
  let ephPubKey ← range 0 32
  let lenBytes ← range 32 2
  let kemLen := ofBeBytes lenBytes
  ensure (kemLen = KEM_PUBLIC_KEY_SIZE) .invalidSphinxPacket
  ensure (32 + 2 + kemLen + 32 + 2 ≤ len)
    (.bufferTooShort (32 + 2 + kemLen + 32 + 2) len)
  let ephKemPubKey ← range 34 kemLen
  let nonce ← range (34 + kemLen) 32
  let ctOff := 34 + kemLen + 32
  let ctBytes ← range ctOff 2
  let ctLen := ofBeBytes ctBytes
  ensure (ctLen = KEM_CIPHERTEXT_SIZE) .invalidSphinxPacket
  ensure (ctOff + 2 + ctLen ≤ len) (.bufferTooShort (ctOff + 2 + ctLen) len)
  let kemCiphertext ← range (ctOff + 2) ctLen
  pure ⟨Bytes.ofList 32 ephPubKey, ephKemPubKey, Bytes.ofList 32 nonce,
    kemCiphertext⟩

def deserializeAuthIdentity : Cursor WireError EncryptedIdentity := do
  let len ← size
  ensure (12 + 2 ≤ len) (.bufferTooShort 14 len)
  let aeadNonce ← range 0 12
  let lenBytes ← range 12 2
  let ctLen := ofBeBytes lenBytes
  ensure (ctLen ≠ 0 ∧ ctLen ≤ 4096 ∧ 14 + ctLen ≤ len)
    (.bufferTooShort (14 + ctLen) len)
  let ciphertext ← range 14 ctLen
  pure ⟨Bytes.ofList 12 aeadNonce, ciphertext⟩

-- =========== packets

/-- The layout of peers from before the version byte. -/
def deserializeLegacy : Cursor WireError SphinxPacket := do
  let ephemeralKey ← raw EPHEMERAL_KEY_SIZE
  let routingInfo ← raw ROUTING_INFO_SIZE
  let mac ← raw MAC_SIZE
  let body ← raw BODY_SIZE
  pure
    { header :=
        { version := SPHINX_VERSION_CLASSICAL
          ephemeralKey := Bytes.ofList 32 ephemeralKey
          sessionId := Bytes.zero 32
          routingInfo := routingInfo
          mac := Bytes.ofList 16 mac }
      kemCiphertexts := []
      body := body }

/-- `legacy_len`. -/
def LEGACY_LEN : Nat :=
  EPHEMERAL_KEY_SIZE + ROUTING_INFO_SIZE + MAC_SIZE + BODY_SIZE

/-- `min_len`. -/
def SPHINX_MIN : Nat :=
  1 + EPHEMERAL_KEY_SIZE + SESSION_ID_SIZE + 4 + ROUTING_INFO_SIZE
    + MAC_SIZE + BODY_SIZE

/-- `kem_ok`: the lengths of a KEM section that a version may declare. -/
def KemOk (version : UInt8) (kemLen : Nat) : Prop :=
  if version = SPHINX_VERSION_HYBRID then kemLen = KEM_BLOCK_SIZE
  else kemLen = 0 ∨ kemLen % KEM_CIPHERTEXT_SIZE = 0

instance (version : UInt8) (kemLen : Nat) :
    Decidable (KemOk version kemLen) := by
  unfold KemOk
  infer_instance

/-- `body_len`. -/
def bodyLen (remaining : Nat) : Option Nat :=
  if remaining = WIRE_BODY_SIZE then some WIRE_BODY_SIZE
  else if remaining = BODY_SIZE then some BODY_SIZE
  else none

/-- The tail of `deserialize_sphinx`, from the KEM section on. -/
def sphinxRest (version : UInt8) (ephemeralKey sessionId : List UInt8)
    (kemLen : Nat) : Cursor WireError SphinxPacket := do
  let len ← size
  let offset ← pos
  -- the four subtractions come before any comparison with `kemLen`
  let left ← sub len offset
  let left ← sub left kemLen
  let left ← sub left ROUTING_INFO_SIZE
  let remaining ← sub left MAC_SIZE
  let fixed := offset + kemLen + ROUTING_INFO_SIZE + MAC_SIZE
  let bodyLen ← ofOption (bodyLen remaining)
    (.bufferTooShort (fixed + WIRE_BODY_SIZE) len)
  ensure (fixed + bodyLen ≤ len) (.bufferTooShort (fixed + bodyLen) len)
  let kemCiphertexts ← raw kemLen
  let routingInfo ← raw ROUTING_INFO_SIZE
  let mac ← raw MAC_SIZE
  let body ← raw bodyLen
  pure
    { header :=
        { version := version
          ephemeralKey := Bytes.ofList 32 ephemeralKey
          sessionId := Bytes.ofList 32 sessionId
          routingInfo := routingInfo
          mac := Bytes.ofList 16 mac }
      kemCiphertexts := kemCiphertexts
      body := body }

def deserializeSphinx : Cursor WireError SphinxPacket := do
  let len ← size
  if len = LEGACY_LEN then deserializeLegacy
  else
    ensure (SPHINX_MIN ≤ len) (.bufferTooShort SPHINX_MIN len)
    let version ← next
    let ephemeralKey ← raw EPHEMERAL_KEY_SIZE
    let sessionId ← raw SESSION_ID_SIZE
    let lenBytes ← raw 4
    let kemLen := ofBeBytes lenBytes
    ensure (KemOk version kemLen) .invalidSphinxPacket
    sphinxRest version ephemeralKey sessionId kemLen

def deserializeReply : Cursor SphinxError SessionReply := do
  let len ← size
  ensure (1 + SESSION_ID_SIZE + SESSION_ID_SIZE + WIRE_BODY_SIZE ≤ len)
    .invalidPacketSize
  let version ← index 0
  ensure (version = SPHINX_VERSION_SESSION_REPLY)
    (.unsupportedVersion version)
  let sessionId ← range 1 SESSION_ID_SIZE
  let nonce ← range (1 + SESSION_ID_SIZE) SESSION_ID_SIZE
  let body ← range (1 + 2 * SESSION_ID_SIZE) WIRE_BODY_SIZE
  pure ⟨Bytes.ofList 32 sessionId, Bytes.ofList 32 nonce, body⟩

-- ============ frames

/-- The payload is a session reply: its length, then its first byte. -/
def isReply : Cursor WireError Bool := do
  let len ← size
  if len = SESSION_REPLY_WIRE_SIZE then
    let version ← index 0
    pure (version = SPHINX_VERSION_SESSION_REPLY)
  else pure false

def deserializePayload (type : UInt8) : Cursor WireError WireMessage :=
  if type = MSG_HANDSHAKE then .handshake <$> deserializeHandshake
  else if type = MSG_HELLO then .hello <$> deserializeHello
  else if type = MSG_WELCOME then .welcome <$> deserializeWelcome
  else if type = MSG_AUTH_IDENTITY then
    .authIdentity <$> deserializeAuthIdentity
  else if type = MSG_SPHINX then do
    let reply ← isReply
    if reply then
      .sessionReply <$> mapError (fun _ => .invalidSphinxPacket)
        deserializeReply
    else .sphinx <$> deserializeSphinx
  else fail (.invalidMessageType type)

def deserializeMessage : Cursor WireError (WireMessage × Nat) := do
  let len ← size
  ensure (5 ≤ len) (.bufferTooShort 5 len)
  let type ← index 0
  let lenBytes ← range 1 4
  let totalLen := 5 + ofBeBytes lenBytes
  ensure (totalLen ≤ len) (.bufferTooShort totalLen len)
  let payload ← range 5 (totalLen - 5)
  let message ← within payload (deserializePayload type)
  pure (message, totalLen)

def tryReadMessage : Cursor WireError (Option WireMessage) := do
  let len ← size
  if len < 5 then pure none
  else
    let lenBytes ← range 1 4
    let payloadLen := ofBeBytes lenBytes
    ensure (payloadLen ≤ PADDED_MESSAGE_SIZE)
      (.messageTooLarge (5 + payloadLen) (5 + PADDED_MESSAGE_SIZE))
    let totalLen := 5 + payloadLen
    if len < totalLen then pure none
    else
      let messageBytes ← raw totalLen
      let message ← within messageBytes deserializeMessage
      pure (some message.1)

-- ====== reply blocks

def deserializeSurb : Cursor SphinxError Surb := do
  let len ← size
  ensure (SURB_MIN ≤ len) .invalidPacketSize
  let version ← next
  ensure (version = SPHINX_VERSION_CLASSICAL
    ∨ version = SPHINX_VERSION_HYBRID) (.unsupportedVersion version)
  let ephemeralKey ← raw 32
  let sessionId ← raw 32
  let lenBytes ← raw 4
  let kemLen := ofBeBytes lenBytes
  ensure (kemLen ≤ KEM_BLOCK_SIZE) .invalidPacketSize
  need kemLen fun _ _ => .invalidPacketSize
  let kemCiphertexts ← raw kemLen
  ensure (version = SPHINX_VERSION_HYBRID → kemLen = KEM_BLOCK_SIZE)
    .invalidKemCiphertext
  need (ROUTING_INFO_SIZE + MAC_SIZE) fun _ _ => .invalidPacketSize
  let routingInfo ← raw ROUTING_INFO_SIZE
  let mac ← raw MAC_SIZE
  let offset ← pos
  ensure (offset < len) .invalidPacketSize
  let count ← next
  let nKeys := count.toNat
  ensure (nKeys ≠ 0 ∧ nKeys ≤ MAX_HOPS) .invalidPacketSize
  need (nKeys * 32 + 32 + 16 + 16) fun _ _ => .invalidPacketSize
  let bodyKeys ← many (Bytes.ofList 32 <$> raw 32) nKeys
  let aeadBytes ← raw 32
  let aadDestination ← raw 16
  let firstHop ← raw 16
  pure
    { header :=
        { version := version
          ephemeralKey := Bytes.ofList 32 ephemeralKey
          sessionId := Bytes.ofList 32 sessionId
          routingInfo := routingInfo
          mac := Bytes.ofList 16 mac }
      kemCiphertexts := kemCiphertexts
      bodyKeys := bodyKeys
      bodyAeadKey := Bytes.ofList 32 aeadBytes
      aadDestination := Bytes.ofList 16 aadDestination
      firstHop := Bytes.ofList 16 firstHop }

-- ========= fragments

def deserializeFragment : Cursor FragmentError Fragment := do
  let len ← size
  ensure (FRAGMENT_HEADER_SIZE ≤ len) .tooShort
  let fragmentId ← range 0 4
  let totalFragments ← range 4 4
  let lenBytes ← range 8 4
  let dataLen := ofBeBytes lenBytes
  ensure (FRAGMENT_HEADER_SIZE + dataLen ≤ len) .tooShort
  let bytes ← range FRAGMENT_HEADER_SIZE dataLen
  pure ⟨ofBeBytes fragmentId, ofBeBytes totalFragments, bytes⟩

-- ======== handshakes

/-- A piece of what is left is a piece of the buffer. -/
theorem take_drop_eq_slice (data : List UInt8) (off n : Nat) :
    (data.drop off).take n = slice data off n :=
  rfl

/-- The byte at an offset, read as a piece of length one. -/
@[simp] theorem getElem_slice_one (data : List UInt8) (off : Nat) :
    (slice data off 1)[0]? = data[off]? := by
  simp [slice]

theorem deserializeHello_run (data : List UInt8) :
    Checked.deserializeHello.run data
      = total (StaticNet.deserializeHello data) := by
  apply Meets.run_eq
  simp [Checked.deserializeHello]
  by_cases hmin : data.length < 66
  · simp [StaticNet.deserializeHello, hmin]
  by_cases hkem : ofBeBytes (slice data 32 2) = KEM_PUBLIC_KEY_SIZE
  · by_cases hlen : data.length < 34 + KEM_PUBLIC_KEY_SIZE + 32
    · simp [StaticNet.deserializeHello, hmin, hkem, hlen]
      omega
    · simp [StaticNet.deserializeHello, hmin, hkem, hlen]
      omega
  · simp [StaticNet.deserializeHello, hmin, hkem]
    omega

theorem deserializeWelcome_run (data : List UInt8) :
    Checked.deserializeWelcome.run data
      = total (StaticNet.deserializeWelcome data) := by
  apply Meets.run_eq
  simp [Checked.deserializeWelcome]
  by_cases hmin : data.length < 68
  · simp [StaticNet.deserializeWelcome, hmin]
  by_cases hkem : ofBeBytes (slice data 32 2) = KEM_PUBLIC_KEY_SIZE
  · by_cases hlen : data.length < 34 + KEM_PUBLIC_KEY_SIZE + 32 + 2
    · simp [StaticNet.deserializeWelcome, hmin, hkem, hlen]
      omega
    by_cases hct : ofBeBytes (slice data (34 + KEM_PUBLIC_KEY_SIZE + 32) 2)
        = KEM_CIPHERTEXT_SIZE
    · by_cases hend : data.length
          < 34 + KEM_PUBLIC_KEY_SIZE + 32 + 2 + KEM_CIPHERTEXT_SIZE
      · simp [StaticNet.deserializeWelcome, hmin, hkem, hlen, hct, hend]
        omega
      · simp [StaticNet.deserializeWelcome, hmin, hkem, hlen, hct, hend]
        omega
    · simp [StaticNet.deserializeWelcome, hmin, hkem, hlen, hct]
      omega
  · simp [StaticNet.deserializeWelcome, hmin, hkem]
    omega

theorem deserializeAuthIdentity_run (data : List UInt8) :
    Checked.deserializeAuthIdentity.run data
      = total (StaticNet.deserializeAuthIdentity data) := by
  apply Meets.run_eq
  simp [Checked.deserializeAuthIdentity]
  by_cases hmin : data.length < 14
  · simp [StaticNet.deserializeAuthIdentity, hmin]
  by_cases hlen : ofBeBytes (slice data 12 2) = 0
      ∨ 4096 < ofBeBytes (slice data 12 2)
      ∨ data.length < 14 + ofBeBytes (slice data 12 2)
  · simp [StaticNet.deserializeAuthIdentity, hmin, hlen]
    omega
  · simp [StaticNet.deserializeAuthIdentity, hmin, hlen]
    omega

theorem deserializeHandshake_run (data : List UInt8) :
    Checked.deserializeHandshake.run data
      = total (StaticNet.deserializeHandshake data) := by
  apply Meets.run_eq
  simp [Checked.deserializeHandshake]
  by_cases hmin : data.length < HANDSHAKE_MIN
  · simp [StaticNet.deserializeHandshake, hmin]
  have hlong : 180 ≤ data.length := Nat.le_of_not_lt hmin
  by_cases hlen : 4096 < ofBeBytes (slice data 48 2)
      ∨ data.length < 50 + ofBeBytes (slice data 48 2) + 2 + 32 + 32 + 64
  · simp [StaticNet.deserializeHandshake, hmin, hlen]
    omega
  · simp [StaticNet.deserializeHandshake, hmin, hlen]
    omega

theorem deserializeFragment_run (body : List UInt8) :
    Checked.deserializeFragment.run body
      = total (StaticNet.deserializeFragment body) := by
  apply Meets.run_eq
  simp [Checked.deserializeFragment]
  by_cases hmin : body.length < FRAGMENT_HEADER_SIZE
  · simp [StaticNet.deserializeFragment, hmin]
  have hlong : 12 ≤ body.length := Nat.le_of_not_lt hmin
  by_cases hlen : body.length
      < FRAGMENT_HEADER_SIZE + ofBeBytes (slice body 8 4)
  · simp [StaticNet.deserializeFragment, hmin, hlen]
    omega
  · simp [StaticNet.deserializeFragment, hmin, hlen]
    omega

theorem deserializeReply_run (data : List UInt8) :
    Checked.deserializeReply.run data
      = total (SessionReply.deserialize data) := by
  apply Meets.run_eq
  by_cases hmin : data.length
      < 1 + SESSION_ID_SIZE + SESSION_ID_SIZE + WIRE_BODY_SIZE
  · simp [Checked.deserializeReply, SessionReply.deserialize, hmin]
  · simp [Checked.deserializeReply, SessionReply.deserialize, hmin]
    intro hlen
    unfold SESSION_ID_SIZE at hlen ⊢
    exact ⟨by omega, fun hver => ⟨by omega, by omega, hlen, hver⟩⟩

-- =========== packets

/-- The KEM section that a payload declares. -/
def declaredKem (data : List UInt8) : Nat := ofBeBytes (slice data 65 4)

/-- What stands before the body, with the KEM section declared. -/
def fixedLen (data : List UInt8) : Nat :=
  69 + declaredKem data + ROUTING_INFO_SIZE + MAC_SIZE

/-- A payload that gets as far as the subtractions and declares more than
it has. -/
def Overruns (data : List UInt8) : Prop :=
  data.length ≠ LEGACY_LEN ∧ SPHINX_MIN ≤ data.length
    ∧ KemOk (data.getD 0 0) (declaredKem data) ∧ data.length < fixedLen data

instance (data : List UInt8) : Decidable (Overruns data) := by
  unfold Overruns
  infer_instance

section Sphinx

variable {data : List UInt8}

theorem sphinx_legacy (h : data.length = LEGACY_LEN) :
    StaticNet.deserializeSphinx data
      = .ok (StaticNet.deserializeLegacy data) :=
  if_pos h

theorem sphinx_short (hlegacy : data.length ≠ LEGACY_LEN)
    (h : data.length < SPHINX_MIN) : StaticNet.deserializeSphinx data
      = .error (.bufferTooShort SPHINX_MIN data.length) := by
  unfold StaticNet.deserializeSphinx
  exact (if_neg hlegacy).trans (if_pos h)

/-- Past the first two checks. -/
theorem sphinx_long (hlegacy : data.length ≠ LEGACY_LEN)
    (hmin : ¬ data.length < SPHINX_MIN) : StaticNet.deserializeSphinx data
      = if ¬ KemOk (data.getD 0 0) (declaredKem data) then
          .error .invalidSphinxPacket
        else
          let remaining := data.length - 69 - declaredKem data
            - ROUTING_INFO_SIZE - MAC_SIZE
          if remaining = WIRE_BODY_SIZE then
            if data.length < fixedLen data + WIRE_BODY_SIZE then
              .error (.bufferTooShort (fixedLen data + WIRE_BODY_SIZE)
                data.length)
            else .ok (sphinxAt data (declaredKem data) WIRE_BODY_SIZE)
          else if remaining = BODY_SIZE then
            if data.length < fixedLen data + BODY_SIZE then
              .error (.bufferTooShort (fixedLen data + BODY_SIZE)
                data.length)
            else .ok (sphinxAt data (declaredKem data) BODY_SIZE)
          else .error (.bufferTooShort (fixedLen data + WIRE_BODY_SIZE)
            data.length) := by
  unfold StaticNet.deserializeSphinx
  exact (if_neg hlegacy).trans (if_neg hmin)

theorem sphinx_kem (hlegacy : data.length ≠ LEGACY_LEN)
    (hmin : ¬ data.length < SPHINX_MIN)
    (hkem : ¬ KemOk (data.getD 0 0) (declaredKem data)) :
    StaticNet.deserializeSphinx data = .error .invalidSphinxPacket := by
  rw [sphinx_long hlegacy hmin, if_pos hkem]

/-- With room for the fields, the length decides the body. -/
theorem sphinx_room (hlegacy : data.length ≠ LEGACY_LEN)
    (hmin : ¬ data.length < SPHINX_MIN)
    (hkem : KemOk (data.getD 0 0) (declaredKem data))
    (hroom : fixedLen data ≤ data.length) :
    StaticNet.deserializeSphinx data
      = (bodyLen (data.length - fixedLen data)).elim
          (.error (.bufferTooShort (fixedLen data + WIRE_BODY_SIZE)
            data.length))
          fun n => .ok (sphinxAt data (declaredKem data) n) := by
  have hrem : data.length - 69 - declaredKem data - ROUTING_INFO_SIZE
      - MAC_SIZE = data.length - fixedLen data := by
    unfold fixedLen
    omega
  rw [sphinx_long hlegacy hmin, if_neg (not_not.2 hkem)]
  simp only [hrem]
  unfold bodyLen
  by_cases hwire : data.length - fixedLen data = WIRE_BODY_SIZE
  · rw [if_pos hwire, if_pos hwire, if_neg (by omega)]
    rfl
  rw [if_neg hwire, if_neg hwire]
  by_cases hbody : data.length - fixedLen data = BODY_SIZE
  · rw [if_pos hbody, if_pos hbody, if_neg (by omega)]
    rfl
  · rw [if_neg hbody, if_neg hbody]
    rfl

theorem deserializeLegacy_meets (h : data.length = LEGACY_LEN) :
    deserializeLegacy.Meets data 0
      (fun packet _ => packet = StaticNet.deserializeLegacy data)
      fun _ => False := by
  simp [deserializeLegacy, StaticNet.deserializeLegacy, h, LEGACY_LEN]
  omega

/-- The body that is left is all that is left. -/
theorem eq_of_bodyLen {remaining n : Nat} (h : bodyLen remaining = some n) :
    n = remaining := by
  unfold bodyLen at h
  by_cases hwire : remaining = WIRE_BODY_SIZE
  · rw [if_pos hwire] at h
    cases h
    exact hwire.symm
  rw [if_neg hwire] at h
  by_cases hbody : remaining = BODY_SIZE
  · rw [if_pos hbody] at h
    cases h
    exact hbody.symm
  · rw [if_neg hbody] at h
    cases h

/-- What the first fields come to: past the checks, the tail at its
offset. -/
theorem deserializeSphinx_meets {Q : SphinxPacket → Nat → Prop}
    {E : WireError → Prop} (hlegacy : data.length ≠ LEGACY_LEN)
    (hmin : SPHINX_MIN ≤ data.length) :
    Checked.deserializeSphinx.Meets data 0 Q E
      ↔ (KemOk (data.getD 0 0) (declaredKem data) →
          (sphinxRest (data.getD 0 0) (slice data 1 32) (slice data 33 32)
            (declaredKem data)).Meets data 69 Q E)
        ∧ (¬ KemOk (data.getD 0 0) (declaredKem data) →
          E .invalidSphinxPacket) := by
  have hlong : 69 ≤ data.length := by
    unfold SPHINX_MIN EPHEMERAL_KEY_SIZE SESSION_ID_SIZE at hmin
    omega
  have hfront : 1 ≤ data.length ∧ 33 ≤ data.length ∧ 65 ≤ data.length := by
    omega
  simp [Checked.deserializeSphinx, hlegacy, hmin, declaredKem,
    EPHEMERAL_KEY_SIZE, SESSION_ID_SIZE, hlong, hfront]

/-- The tail is safe as far as the fields it declares fit. -/
theorem sphinxRest_safe (version : UInt8) (eph sid : List UInt8) :
    (sphinxRest version eph sid (declaredKem data)).Meets data 69
        (fun _ _ => True) (fun _ => True)
      ↔ fixedLen data ≤ data.length := by
  simp [sphinxRest, fixedLen]
  constructor
  · intro h
    omega
  · intro h
    refine ⟨by omega, by omega, by omega, by omega, ?_⟩
    intro n _ hn
    omega

theorem deserializeSphinx_run (h : ¬ Overruns data) :
    Checked.deserializeSphinx.run data
      = total (StaticNet.deserializeSphinx data) := by
  apply Meets.run_eq
  by_cases hlegacy : data.length = LEGACY_LEN
  · unfold Checked.deserializeSphinx
    rw [meets_bind, meets_size, if_pos hlegacy]
    refine (deserializeLegacy_meets hlegacy).mono ?_ ?_
    · intro packet _ hpacket
      rw [sphinx_legacy hlegacy, hpacket]
    · intro e he
      exact he.elim
  by_cases hmin : data.length < SPHINX_MIN
  · simp [Checked.deserializeSphinx, hlegacy, sphinx_short hlegacy hmin,
      Nat.not_le.2 hmin]
  rw [deserializeSphinx_meets hlegacy (Nat.le_of_not_lt hmin)]
  refine ⟨fun hkem => ?_, fun hkem => ?_⟩
  · have hroom : fixedLen data ≤ data.length := by
      by_contra hshort
      exact h ⟨hlegacy, by omega, hkem, by omega⟩
    rw [sphinx_room hlegacy hmin hkem hroom]
    have hrem : data.length - 69 - declaredKem data - ROUTING_INFO_SIZE
        - MAC_SIZE = data.length - fixedLen data := by
      unfold fixedLen
      omega
    simp [sphinxRest, hrem]
    unfold fixedLen at hroom
    refine ⟨by omega, by omega, by omega, by omega, ?_, ?_⟩
    · intro n hn
      have hlen := eq_of_bodyLen hn
      rw [hn]
      unfold fixedLen at hlen
      refine ⟨fun _ => ⟨by omega, by omega, by omega, by omega, ?_⟩, ?_⟩
      · rfl
      · intro hshort
        omega
    · intro hnone
      rw [hnone]
      rfl
  · rw [sphinx_kem hlegacy hmin hkem]

/-- The reader of packets is safe, unless the payload overruns. -/
theorem deserializeSphinx_safe :
    Checked.deserializeSphinx.Safe data ↔ ¬ Overruns data := by
  refine ⟨fun hsafe hover => ?_, fun h =>
    safe_of_run_eq (deserializeSphinx_run h)⟩
  obtain ⟨hlegacy, hmin, hkem, hshort⟩ := hover
  have hmeets := ((deserializeSphinx_meets hlegacy hmin).1
    (safe_iff.1 hsafe)).1 hkem
  have hfits := (sphinxRest_safe _ _ _).1 hmeets
  omega

end Sphinx

-- ============ frames

section Frames

variable {data : List UInt8} {Q : WireMessage → Nat → Prop}
  {E : WireError → Prop}

@[simp] theorem meets_isReply {off : Nat} {Q : Bool → Nat → Prop} :
    isReply.Meets data off Q E
      ↔ Q (decide (data.length = SESSION_REPLY_WIRE_SIZE
          ∧ data.getD 0 0 = SPHINX_VERSION_SESSION_REPLY)) off := by
  by_cases hlen : data.length = SESSION_REPLY_WIRE_SIZE
  · have hpos : 0 < SESSION_REPLY_WIRE_SIZE := by decide
    simp [isReply, hlen, hpos]
  · simp [isReply, hlen]

/-- A payload that is taken for a packet and overruns. -/
def PayloadOverruns (type : UInt8) (payload : List UInt8) : Prop :=
  type = MSG_SPHINX
    ∧ ¬ (payload.length = SESSION_REPLY_WIRE_SIZE
      ∧ payload.getD 0 0 = SPHINX_VERSION_SESSION_REPLY)
    ∧ Overruns payload

theorem deserializePayload_safe {type : UInt8} :
    (Checked.deserializePayload type).Safe data
      ↔ ¬ PayloadOverruns type data := by
  have hhandshake := safe_of_run_eq (deserializeHandshake_run data)
  have hhello := safe_of_run_eq (deserializeHello_run data)
  have hwelcome := safe_of_run_eq (deserializeWelcome_run data)
  have hauth := safe_of_run_eq (deserializeAuthIdentity_run data)
  have hreply := safe_of_run_eq (deserializeReply_run data)
  have hsphinx := @deserializeSphinx_safe data
  rw [safe_iff] at hhandshake hhello hwelcome hauth hreply hsphinx ⊢
  simp [Checked.deserializePayload, PayloadOverruns, hhandshake, hhello,
    hwelcome, hauth, hreply, hsphinx]
  constructor
  · intro h htype
    subst htype
    exact h (by decide) (by decide) (by decide) (by decide) rfl
  · intro h _ _ _ _
    exact h

theorem deserializePayload_run {type : UInt8}
    (h : ¬ PayloadOverruns type data) :
    (Checked.deserializePayload type).run data
      = total (StaticNet.deserializePayload type data) := by
  unfold Checked.deserializePayload StaticNet.deserializePayload
  by_cases hhandshake : type = MSG_HANDSHAKE
  · rw [if_pos hhandshake, if_pos hhandshake]
    exact map_run_eq _ (deserializeHandshake_run data)
  rw [if_neg hhandshake, if_neg hhandshake]
  by_cases hhello : type = MSG_HELLO
  · rw [if_pos hhello, if_pos hhello]
    exact map_run_eq _ (deserializeHello_run data)
  rw [if_neg hhello, if_neg hhello]
  by_cases hwelcome : type = MSG_WELCOME
  · rw [if_pos hwelcome, if_pos hwelcome]
    exact map_run_eq _ (deserializeWelcome_run data)
  rw [if_neg hwelcome, if_neg hwelcome]
  by_cases hauth : type = MSG_AUTH_IDENTITY
  · rw [if_pos hauth, if_pos hauth]
    exact map_run_eq _ (deserializeAuthIdentity_run data)
  rw [if_neg hauth, if_neg hauth]
  by_cases hsphinx : type = MSG_SPHINX
  · rw [if_pos hsphinx, if_pos hsphinx]
    apply Meets.run_eq
    rw [meets_bind, meets_isReply]
    by_cases hreply : data.length = SESSION_REPLY_WIRE_SIZE
        ∧ data.getD 0 0 = SPHINX_VERSION_SESSION_REPLY
    · rw [if_pos hreply, decide_eq_true hreply, if_pos rfl, meets_map,
        meets_mapError]
      refine (meets_of_run_eq (deserializeReply_run data)).mono ?_ ?_
      · intro reply _ hok
        rw [hok]
      · intro e herror
        rw [herror]
    · have hrun := deserializeSphinx_run fun hover =>
        h ⟨hsphinx, hreply, hover⟩
      rw [if_neg hreply, decide_eq_false hreply, if_neg (by decide)]
      exact meets_of_run_eq (map_run_eq _ hrun)
  · rw [if_neg hsphinx, if_neg hsphinx]
    exact Meets.run_eq ((meets_fail _).2 rfl)

/-- A frame that is complete and carries such a payload. -/
def FrameOverruns (data : List UInt8) : Prop :=
  5 ≤ data.length ∧ 5 + ofBeBytes (slice data 1 4) ≤ data.length
    ∧ PayloadOverruns (data.getD 0 0)
      (slice data 5 (ofBeBytes (slice data 1 4)))

theorem deserializeMessage_safe :
    Checked.deserializeMessage.Safe data ↔ ¬ FrameOverruns data := by
  have hpayload := @deserializePayload_safe
    (slice data 5 (ofBeBytes (slice data 1 4))) (data.getD 0 0)
  rw [safe_iff] at hpayload ⊢
  rw [List.getD_eq_getElem?_getD] at hpayload
  simp [Checked.deserializeMessage, FrameOverruns, hpayload]
  constructor
  · intro h hmin hlen
    exact ((h hmin).2.2 hlen).2
  · intro h hmin
    exact ⟨by omega, hmin, fun hlen => ⟨hlen, h hmin hlen⟩⟩

theorem deserializeMessage_run (h : ¬ FrameOverruns data) :
    Checked.deserializeMessage.run data
      = total (StaticNet.deserializeMessage data) := by
  apply Meets.run_eq
  unfold StaticNet.deserializeMessage
  by_cases hmin : data.length < 5
  · simp [Checked.deserializeMessage, hmin, Nat.not_le.2 hmin]
  rw [if_neg hmin]
  by_cases hlen : data.length < 5 + ofBeBytes (slice data 1 4)
  · simp [Checked.deserializeMessage, hlen, Nat.not_le.2 hlen]
    omega
  have hpayload := @deserializePayload_run
    (slice data 5 (ofBeBytes (slice data 1 4))) (data.getD 0 0)
    fun hover => h ⟨by omega, by omega, hover⟩
  have hmeets := meets_of_run_eq hpayload
  rw [if_neg hlen]
  simp [Checked.deserializeMessage]
  refine ⟨fun hfive => ⟨by omega, hfive, fun hall => ⟨hall, ?_⟩,
    fun hshort => absurd hshort hlen⟩, fun hshort => absurd hshort hmin⟩
  rw [List.getD_eq_getElem?_getD] at hmeets
  refine hmeets.mono ?_ ?_
  · intro message _ hok
    rw [hok]
    rfl
  · intro e herror
    rw [herror]
    rfl

/-- The frame at the front of a buffer is all that counts. -/
theorem frameOverruns_front {front : List UInt8} (h : front <+: data)
    (hmin : 5 ≤ data.length)
    (hlen : front.length = 5 + ofBeBytes (slice data 1 4)) :
    FrameOverruns front ↔ FrameOverruns data := by
  have hle := h.length_le
  have hsize : slice data 1 4 = slice front 1 4 :=
    slice_front h (by omega)
  have hpayload : slice data 5 (ofBeBytes (slice data 1 4))
      = slice front 5 (ofBeBytes (slice data 1 4)) :=
    slice_front h (by omega)
  have htype : data.getD 0 0 = front.getD 0 0 := by
    obtain ⟨rest, rfl⟩ := h
    rw [List.getD_eq_getElem?_getD, List.getD_eq_getElem?_getD,
      List.getElem?_append_left (by omega)]
  unfold FrameOverruns
  rw [hpayload, htype, ← hsize]
  constructor
  · rintro ⟨_, _, hover⟩
    exact ⟨hmin, by omega, hover⟩
  · rintro ⟨_, _, hover⟩
    exact ⟨by omega, by omega, hover⟩

theorem tryReadMessage_safe :
    Checked.tryReadMessage.Safe data
      ↔ ¬ (ofBeBytes (slice data 1 4) ≤ PADDED_MESSAGE_SIZE
        ∧ FrameOverruns data) := by
  have hmessage := @deserializeMessage_safe
    (slice data 0 (5 + ofBeBytes (slice data 1 4)))
  by_cases hmin : data.length < 5
  · have hsafe : ¬ FrameOverruns data := fun hover => by
      have := hover.1
      omega
    simp [safe_iff, Checked.tryReadMessage, hmin, hsafe]
  by_cases hlen : data.length < 5 + ofBeBytes (slice data 1 4)
  · have hsafe : ¬ FrameOverruns data := fun hover => by
      have := hover.2.1
      omega
    simp [safe_iff, Checked.tryReadMessage, hlen, hsafe]
  · have hfront : FrameOverruns (slice data 0
        (5 + ofBeBytes (slice data 1 4))) ↔ FrameOverruns data :=
      frameOverruns_front (List.take_prefix _ _) (by omega)
        (length_slice (by omega))
    rw [hfront, safe_iff] at hmessage
    simp [safe_iff, Checked.tryReadMessage, hmessage]
    constructor
    · intro hall hcap
      exact ((hall (by omega)).2 hcap (by omega)).2
    · intro hall hfive
      exact ⟨hfive, fun hcap hroom => ⟨hroom, hall hcap⟩⟩

theorem tryReadMessage_run (h : ¬ FrameOverruns data) :
    Checked.tryReadMessage.run data
      = total (StaticNet.tryReadMessage data).1 := by
  apply Meets.run_eq
  unfold StaticNet.tryReadMessage
  by_cases hmin : data.length < 5
  · simp [Checked.tryReadMessage, hmin]
  rw [if_neg hmin]
  by_cases hcap : PADDED_MESSAGE_SIZE < ofBeBytes (slice data 1 4)
  · simp [Checked.tryReadMessage, hcap, Nat.not_le.2 hcap]
    omega
  rw [if_neg hcap]
  by_cases hlen : data.length < 5 + ofBeBytes (slice data 1 4)
  · simp [Checked.tryReadMessage, hlen]
    omega
  have hfront : FrameOverruns (slice data 0
      (5 + ofBeBytes (slice data 1 4))) ↔ FrameOverruns data :=
    frameOverruns_front (List.take_prefix _ _) (by omega)
      (length_slice (by omega))
  have hmeets := meets_of_run_eq
    (deserializeMessage_run fun hover => h (hfront.1 hover))
  rw [if_neg hlen]
  simp [Checked.tryReadMessage]
  refine ⟨fun hshort => absurd hshort hmin, fun hfive => ⟨hfive, fun _ =>
    ⟨fun hshort => absurd hshort hlen, fun hroom => ⟨hroom, ?_⟩⟩,
    fun hbig => absurd hbig hcap⟩⟩
  refine hmeets.mono ?_ ?_
  · intro message _ hok
    have hfront : StaticNet.deserializeMessage
        (data.take (5 + ofBeBytes (slice data 1 4))) = .ok message := hok
    rw [hfront]
  · intro e herror
    have hfront : StaticNet.deserializeMessage
        (data.take (5 + ofBeBytes (slice data 1 4))) = .error e := herror
    rw [hfront]

end Frames

-- ====== reply blocks

theorem readKeys_rest (n : Nat) (data : List UInt8) :
    (readKeys n data).2 = data.drop (n * 32) := by
  induction n generalizing data with
  | zero => rfl
  | succ n ih =>
      unfold readKeys
      rw [ih, List.drop_drop]
      congr 1
      omega

/-- A counted loop over keys reads them where they stand. -/
theorem meets_keys {ε : Type} {data : List UInt8} {E : ε → Prop}
    (n off : Nat) {Q : List SymmetricKey → Nat → Prop} :
    (many (Bytes.ofList 32 <$> raw 32 : Cursor ε SymmetricKey) n).Meets
        data off Q E
      ↔ (0 < n → off + n * 32 ≤ data.length)
        ∧ Q (readKeys n (data.drop off)).1 (off + n * 32) := by
  induction n generalizing off Q with
  | zero => simp [Cursor.many, readKeys]
  | succ n ih =>
      simp [Cursor.many, readKeys, ih]
      have hslice : (data.drop off).take 32 = slice data off 32 := rfl
      have hend : off + 32 + n * 32 = off + (n + 1) * 32 := by omega
      rw [hslice, hend]
      constructor
      · intro h
        exact ⟨by omega, h.2.2⟩
      · intro h
        exact ⟨by omega, fun _ => h.1, h.2⟩

/-- The fields at their offsets, for a KEM section of this length and as
many keys. -/
def surbAt (data : List UInt8) (kemLen nKeys : Nat) : Surb :=
  let off := 69 + kemLen
  let keys := off + ROUTING_INFO_SIZE + MAC_SIZE + 1
  let tail := keys + nKeys * 32
  { header :=
      { version := data.getD 0 0
        ephemeralKey := Bytes.ofList 32 (slice data 1 32)
        sessionId := Bytes.ofList 32 (slice data 33 32)
        routingInfo := slice data off ROUTING_INFO_SIZE
        mac := Bytes.ofList 16
          (slice data (off + ROUTING_INFO_SIZE) MAC_SIZE) }
    kemCiphertexts := slice data 69 kemLen
    bodyKeys := (readKeys nKeys (data.drop keys)).1
    bodyAeadKey := Bytes.ofList 32 (slice data tail 32)
    aadDestination := Bytes.ofList 16 (slice data (tail + 32) 16)
    firstHop := Bytes.ofList 16 (slice data (tail + 48) 16) }

/-- `Surb::deserialize` with the offset that it keeps. -/
theorem surb_deserialize_eq (data : List UInt8) (kemLen nKeys : Nat)
    (hmin : ¬ data.length < SURB_MIN) (hkem : declaredKem data = kemLen)
    (hkeys : (data.getD (69 + kemLen + ROUTING_INFO_SIZE + MAC_SIZE)
      0).toNat = nKeys) : Surb.deserialize data
      = if data.getD 0 0 ≠ SPHINX_VERSION_CLASSICAL
            ∧ data.getD 0 0 ≠ SPHINX_VERSION_HYBRID then
          .error (.unsupportedVersion (data.getD 0 0))
        else if KEM_BLOCK_SIZE < kemLen then .error .invalidPacketSize
        else if data.length < 69 + kemLen then .error .invalidPacketSize
        else if data.getD 0 0 = SPHINX_VERSION_HYBRID
            ∧ kemLen ≠ KEM_BLOCK_SIZE then .error .invalidKemCiphertext
        else if data.length < 69 + kemLen + (ROUTING_INFO_SIZE + MAC_SIZE)
          then .error .invalidPacketSize
        else if data.length ≤ 69 + kemLen + ROUTING_INFO_SIZE + MAC_SIZE
          then .error .invalidPacketSize
        else if nKeys = 0 ∨ MAX_HOPS < nKeys then .error .invalidPacketSize
        else if data.length < 69 + kemLen + ROUTING_INFO_SIZE + MAC_SIZE + 1
            + (nKeys * 32 + 32 + 16 + 16) then .error .invalidPacketSize
        else .ok (surbAt data kemLen nKeys) := by
  have hlong : 69 ≤ data.length := by
    unfold SURB_MIN at hmin
    omega
  have hkem_le : data.length - 69 < kemLen ↔ data.length < 69 + kemLen := by
    omega
  have hrouting : data.length - (69 + kemLen) < ROUTING_INFO_SIZE + MAC_SIZE
      ↔ data.length < 69 + kemLen + (ROUTING_INFO_SIZE + MAC_SIZE) := by
    unfold MAC_SIZE
    omega
  have hcount : data.length - (69 + kemLen + ROUTING_INFO_SIZE + MAC_SIZE) = 0
      ↔ data.length ≤ 69 + kemLen + ROUTING_INFO_SIZE + MAC_SIZE := by
    omega
  have htail : data.length
        - (69 + kemLen + ROUTING_INFO_SIZE + MAC_SIZE + 1)
        < nKeys * 32 + 32 + 16 + 16
      ↔ data.length < 69 + kemLen + ROUTING_INFO_SIZE + MAC_SIZE + 1
        + (nKeys * 32 + 32 + 16 + 16) := by
    omega
  rw [List.getD_eq_getElem?_getD] at hkeys
  unfold declaredKem at hkem
  unfold Surb.deserialize surbAt
  simp [List.drop_drop, readKeys_rest, take_drop_eq_slice, hmin, -List.drop_one, hkem,
    hkeys, hkem_le, hrouting, hcount, htail, ← or_assoc]
  simp only [ite_or]

/-- The block reader is safe and reads what the function on byte strings
reads. -/
theorem deserializeSurb_run (data : List UInt8) :
    Checked.deserializeSurb.run data
      = total (Surb.deserialize data) := by
  obtain ⟨kemLen, hkem⟩ : ∃ kemLen, declaredKem data = kemLen := ⟨_, rfl⟩
  obtain ⟨nKeys, hkeys⟩ : ∃ nKeys, (data.getD
    (69 + kemLen + ROUTING_INFO_SIZE + MAC_SIZE) 0).toNat = nKeys := ⟨_, rfl⟩
  have hcount := hkeys
  rw [List.getD_eq_getElem?_getD] at hcount
  apply Meets.run_eq
  rw [declaredKem] at hkem
  simp [Checked.deserializeSurb, meets_keys, hkem, hcount]
  by_cases hmin : data.length < SURB_MIN
  · refine ⟨fun hlong => absurd hmin (Nat.not_lt.2 hlong), fun _ => ?_⟩
    unfold Surb.deserialize
    rw [if_pos hmin]
  have hlong : SURB_MIN ≤ data.length ∧ 69 ≤ data.length ∧ 65 ≤ data.length
      ∧ 33 ≤ data.length ∧ 0 < data.length := by
    unfold SURB_MIN at hmin ⊢
    omega
  have heq := surb_deserialize_eq data kemLen nKeys hmin hkem hkeys
  rw [List.getD_eq_getElem?_getD] at heq
  refine ⟨fun _ => ⟨by omega, fun hver => ⟨by omega, by omega, by omega, ?_⟩,
    fun hclassical hhybrid => by rw [heq, if_pos ⟨hclassical, hhybrid⟩]⟩,
    fun hshort => absurd hshort hmin⟩
  rw [if_neg (by tauto)] at heq
  refine ⟨fun hblock => ?_, fun hblock => by rw [heq, if_pos hblock]⟩
  rw [if_neg (by omega)] at heq
  refine ⟨fun hroom => ⟨hroom, ?_⟩, fun hroom => by rw [heq, if_pos hroom]⟩
  rw [if_neg (by omega)] at heq
  refine ⟨fun hkemOk => ?_, fun hhybrid hne => by
    rw [heq, if_pos ⟨hhybrid, hne⟩]⟩
  rw [if_neg (by tauto)] at heq
  refine ⟨fun hmac => ⟨by omega, by omega, ?_⟩, fun hmac => by
    rw [heq, if_pos hmac]⟩
  rw [if_neg (by omega)] at heq
  refine ⟨fun hmore => ⟨hmore, ?_⟩, fun hmore => by rw [heq, if_pos hmore]⟩
  rw [if_neg (by omega)] at heq
  refine ⟨fun hpos hmax => ?_, fun hcount => by
    rw [heq, if_pos (by omega)]⟩
  rw [if_neg (by omega)] at heq
  refine ⟨fun htail => ⟨by omega, by omega, by omega, by omega, ?_⟩,
    fun htail => by rw [heq, if_pos htail]⟩
  rw [heq, if_neg (by omega)]
  simp [surbAt]

end Checked

end StaticNet
