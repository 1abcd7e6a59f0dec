/-
What somebody who only watches the wire can tell: how long frames are,
and which bytes of a packet come out of a hop as they went in.

# Sizes

Handshake payloads are padded to the size of a whole frame and framed
after that; packets and session replies are that size with their frame.
The two kinds differ by the five bytes of the frame, and within a kind
all lengths agree (`frame_sizes`).

# Copied bytes

A hop blinds the ephemeral key, replaces the MAC and peels the body. The
session id, the KEM ciphertexts of the later hops and their routing
slots it passes on as they are, the blocks shifted by one slot, and of a
session reply the id and the nonce (`relayed_copies`).
-/
import StaticNet.Retrieval.Basic
import StaticNet.Sphinx.Replay
import StaticNet.Wire.Framing

namespace StaticNet

-- ============= sizes

/-- A message that opens a connection. -/
def WireMessage.isOpening : WireMessage → Bool
  | .handshake _ => true
  | .hello _ => true
  | .welcome _ => true
  | .authIdentity _ => true
  | .sphinx _ => false
  | .sessionReply _ => false

theorem payloadSize_eq (msg : WireMessage) :
    msg.payloadSize = if msg.isOpening then PADDED_MESSAGE_SIZE
      else SESSION_REPLY_WIRE_SIZE := by
  cases msg <;> rfl

/-- The replies a holder builds are ones that are sent. -/
theorem buildSessionReplies_sent {P : Prims} (haead : P.AeadCorrect)
    {surb : Surb} {nonces : Nat → Bytes 32} {fragments : List Fragment}
    {reply : SessionReply}
    (h : reply ∈ buildSessionReplies P surb nonces fragments) :
    Sent P (.sessionReply reply) := by
  obtain ⟨i, hi, rfl⟩ := List.mem_mapIdx.1 h
  refine .sessionReply _ ?_
  rw [sessionReply, length_wrapBody, Prims.encryptAad, haead.length_seal,
    length_serializeFragment]
  decide

/-- All frames of what is sent serialize, and two of them have the same
length exactly when both open a connection or neither does. -/
theorem frame_sizes (P : Prims) (haead : P.AeadCorrect)
    (pad pad' : Nat → UInt8) (msg msg' : WireMessage) (h : Sent P msg)
    (h' : Sent P msg') :
    ∃ frame frame', serializeMessage pad msg = .ok frame
      ∧ serializeMessage pad' msg' = .ok frame'
      ∧ (frame.length = frame'.length
        ↔ msg.isOpening = msg'.isOpening) := by
  obtain ⟨frame, hframe, -, hlen⟩ :=
    serializeMessage_frames pad (h.fits haead)
  obtain ⟨frame', hframe', -, hlen'⟩ :=
    serializeMessage_frames pad' (h'.fits haead)
  refine ⟨frame, frame', hframe, hframe', ?_⟩
  have hne : PADDED_MESSAGE_SIZE ≠ SESSION_REPLY_WIRE_SIZE := by decide
  rw [hlen, hlen', payloadSize_eq, payloadSize_eq, Nat.add_left_cancel_iff]
  cases msg.isOpening <;> cases msg'.isOpening <;> simp [hne, hne.symm]

/-- A greeting. -/
def quietHello : WireMessage :=
  .hello ⟨Bytes.zero 32, List.replicate 1184 0, Bytes.zero 32⟩

/-- Cover without a peer's keys. -/
def quietCover : WireMessage :=
  dummySphinxMessage (fun _ => 0) (Bytes.zero 32)

theorem frame_sizes_quiet :
    ∃ frame frame', serializeMessage (fun _ => 0) quietHello = .ok frame
      ∧ serializeMessage (fun _ => 0) quietCover = .ok frame'
      ∧ (frame.length = frame'.length
        ↔ quietHello.isOpening = quietCover.isOpening) :=
  frame_sizes .plain Prims.plain_aeadCorrect _ _ _ _
    (.hello _ List.length_replicate) (.dummy _ _)

/-- A greeting's frame is five bytes longer than a packet's. -/
theorem hello_longer_than_cover :
    Sent .plain quietHello ∧ Sent .plain quietCover
      ∧ ∃ frame frame', serializeMessage (fun _ => 0) quietHello = .ok frame
        ∧ serializeMessage (fun _ => 0) quietCover = .ok frame'
        ∧ frame.length = frame'.length + 5 := by
  have hhello : Sent .plain quietHello := .hello _ List.length_replicate
  have hcover : Sent .plain quietCover := .dummy _ _
  obtain ⟨frame, hframe, -, hlen⟩ := serializeMessage_frames (fun _ => 0)
    (hhello.fits Prims.plain_aeadCorrect)
  obtain ⟨frame', hframe', -, hlen'⟩ := serializeMessage_frames
    (fun _ => 0) (hcover.fits Prims.plain_aeadCorrect)
  refine ⟨hhello, hcover, frame, frame', hframe, hframe', ?_⟩
  rw [hlen, hlen']
  decide

-- ====== copied bytes

variable {P : Prims}

/-- The bytes of a packet at the session id. -/
theorem slice_session (packet : SphinxPacket) :
    slice (serializeSphinx packet) 33 32
      = packet.header.sessionId.toList := by
  refine slice_field ([packet.header.version]
      ++ packet.header.ephemeralKey.toList)
    (beBytes 4 packet.kemCiphertexts.length
      ++ (packet.kemCiphertexts ++ (packet.header.routingInfo
      ++ (packet.header.mac.toList ++ packet.body)))) ?_ (by simp) (by simp)
  simp [serializeSphinx]

/-- The bytes of a packet inside its KEM block. -/
theorem slice_kem (packet : SphinxPacket) {off len : Nat}
    (h : off + len ≤ packet.kemCiphertexts.length) :
    slice (serializeSphinx packet) (69 + off) len
      = slice packet.kemCiphertexts off len := by
  refine slice_within ([packet.header.version]
      ++ (packet.header.ephemeralKey.toList
      ++ (packet.header.sessionId.toList
      ++ beBytes 4 packet.kemCiphertexts.length)))
    (packet.header.routingInfo ++ (packet.header.mac.toList ++ packet.body))
    ?_ (by simp) h
  simp [serializeSphinx]

/-- The bytes of a packet inside its routing info. -/
theorem slice_routing (packet : SphinxPacket) {off len : Nat}
    (h : off + len ≤ packet.header.routingInfo.length) :
    slice (serializeSphinx packet)
        (69 + packet.kemCiphertexts.length + off) len
      = slice packet.header.routingInfo off len := by
  refine slice_within ([packet.header.version]
      ++ (packet.header.ephemeralKey.toList
      ++ (packet.header.sessionId.toList
      ++ (beBytes 4 packet.kemCiphertexts.length
      ++ packet.kemCiphertexts))))
    (packet.header.mac.toList ++ packet.body) ?_ ?_ h
  · simp [serializeSphinx]
  · simp
    omega

/-- The front of a shifted block is the rest of the block. -/
theorem slice_shift {block fresh : List UInt8} {k len : Nat}
    (h : k + len = block.length) :
    slice (block.drop k ++ fresh) 0 len = slice block k len := by
  have hlen : 0 + len ≤ (block.drop k).length := by
    rw [List.length_drop]
    omega
  rw [slice_front (List.prefix_append _ _) hlen, slice, List.drop_zero,
    slice]

/-- The functions by which a hop passes something on. -/
inductive HopFn
  | hybrid
  | classical
  | reply
deriving DecidableEq

/-- A hop gets these bytes and sends those on. -/
inductive Relayed (P : Prims) : HopFn → List UInt8 → List UInt8 → Prop
  | hybrid {node node' : MixNode} {kemSecret : List UInt8}
      {packet fwd : SphinxPacket} {d : MixDraws} {res : ProcessedPacket} :
      processPacketHybridWithKeys P node kemSecret packet d
        = (.ok res, node') →
      res.forwardPacket = some fwd →
      Relayed P .hybrid (serializeSphinx packet) (serializeSphinx fwd)
  | classical {node node' : MixNode} {packet fwd : SphinxPacket}
      {d : MixDraws} {res : ProcessedPacket} :
      processPacket P node packet d = (.ok res, node') →
      res.forwardPacket = some fwd →
      Relayed P .classical (serializeSphinx packet) (serializeSphinx fwd)
  | reply {node node' : MixNode} {r : SessionReply} {now : Nat}
      {res : SessionReplyResult} {pad pad' : Nat → UInt8} :
      processSessionReply P node r now = (.ok res, node') →
      res.isFinal = false →
      Relayed P .reply (r.serialize pad) (res.reply.serialize pad')

/-- `n` bytes of what comes out, from `j` on, are those of what went in
from `i` on. -/
structure Copied (i j n : Nat) (inp out : List UInt8) : Prop where
  inside_inp : i + n ≤ inp.length
  inside_out : j + n ≤ out.length
  same : slice out j n = slice inp i n

/-- No sixteen bytes at fixed places always come out as they went in. -/
def Unlinkable (P : Prims) (fn : HopFn) : Prop :=
  ∀ i j n, 16 ≤ n →
    ∃ inp out, Relayed P fn inp out ∧ ¬ Copied i j n inp out

/-- The places whose bytes a hop passes on: the session id (of a reply
the nonce), and of a packet the KEM ciphertexts and the routing slots of
the later hops. -/
def copiedPlaces : HopFn → List (Nat × Nat × Nat)
  | .hybrid =>
      [(33, 33, 32),
        (69 + KEM_CIPHERTEXT_SIZE, 69, KEM_BLOCK_SIZE - KEM_CIPHERTEXT_SIZE),
        (69 + KEM_BLOCK_SIZE + SLOT_SIZE, 69 + KEM_BLOCK_SIZE,
          ROUTING_INFO_SIZE - SLOT_SIZE)]
  | .classical => [(33, 33, 32)]
  | .reply => [(33, 33, 32), (1, 1, 32)]

/-- A classical packet that is forwarded keeps what it carried. -/
theorem processPacket_forward {node node' : MixNode}
    {packet fwd : SphinxPacket} {d : MixDraws} {res : ProcessedPacket}
    (h : processPacket P node packet d = (.ok res, node'))
    (hfwd : res.forwardPacket = some fwd) :
    ∃ shared, Passed P shared d [] packet fwd := by
  unfold processPacket at h
  split at h
  · cases h
  split at h
  · cases h
  split at h
  · cases h
  split at h
  · cases h
  · exact ⟨_, peel_forwardPacket h hfwd⟩

theorem length_fields_serializeSphinx (packet : SphinxPacket) :
    (serializeSphinx packet).length
      = 69 + packet.kemCiphertexts.length
        + packet.header.routingInfo.length + 16 + packet.body.length := by
  simp [serializeSphinx]
  omega

/-- The session id goes through every hop. -/
theorem Passed.copied_session {shared : SymmetricKey} {d : MixDraws}
    {kemRest : List UInt8} {packet fwd : SphinxPacket}
    (hp : Passed P shared d kemRest packet fwd) :
    Copied 33 33 32 (serializeSphinx packet) (serializeSphinx fwd) := by
  refine ⟨?_, ?_, ?_⟩
  · rw [length_fields_serializeSphinx]
    omega
  · rw [length_fields_serializeSphinx]
    omega
  · rw [slice_session, slice_session, hp.session_eq]

section hybrid

variable {shared : SymmetricKey} {d : MixDraws} {packet fwd : SphinxPacket}
  (hs : packet.Sized) (hp : Passed P shared d
    (packet.kemCiphertexts.drop KEM_CIPHERTEXT_SIZE
      ++ randomBytes d.kemPad KEM_CIPHERTEXT_SIZE) packet fwd)

include hs hp

/-- The later hops' KEM ciphertexts move up by one. -/
theorem Passed.copied_kem :
    Copied (69 + KEM_CIPHERTEXT_SIZE) 69
      (KEM_BLOCK_SIZE - KEM_CIPHERTEXT_SIZE)
      (serializeSphinx packet) (serializeSphinx fwd) := by
  have hle : KEM_CIPHERTEXT_SIZE ≤ KEM_BLOCK_SIZE := by decide
  have hkem := hs.kem_length
  have hkem' := (hp.sized hs).kem_length
  refine ⟨?_, ?_, ?_⟩
  · rw [length_fields_serializeSphinx]
    omega
  · rw [length_fields_serializeSphinx]
    omega
  · have hout : slice (serializeSphinx fwd) (69 + 0)
        (KEM_BLOCK_SIZE - KEM_CIPHERTEXT_SIZE)
        = slice fwd.kemCiphertexts 0
          (KEM_BLOCK_SIZE - KEM_CIPHERTEXT_SIZE) :=
      slice_kem fwd (by omega)
    rw [slice_kem packet (by omega), ← Nat.add_zero 69, hout, hp.kem_eq,
      slice_shift (by omega)]

/-- The later hops' routing slots move up by one. -/
theorem Passed.copied_routing :
    Copied (69 + KEM_BLOCK_SIZE + SLOT_SIZE) (69 + KEM_BLOCK_SIZE)
      (ROUTING_INFO_SIZE - SLOT_SIZE)
      (serializeSphinx packet) (serializeSphinx fwd) := by
  have hle : SLOT_SIZE ≤ ROUTING_INFO_SIZE := by decide
  have hkem := hs.kem_length
  have hkem' := (hp.sized hs).kem_length
  have hrouting := hs.routing_length
  have hrouting' := (hp.sized hs).routing_length
  refine ⟨?_, ?_, ?_⟩
  · rw [length_fields_serializeSphinx]
    omega
  · rw [length_fields_serializeSphinx]
    omega
  · rw [← hkem, slice_routing packet (by omega), hkem, ← hkem',
      ← Nat.add_zero (69 + _), slice_routing fwd (by omega), hp.routing_eq,
      slice_shift (by omega)]

end hybrid

/-- The id and the nonce of a session reply go through every hop. -/
theorem copied_sessionReply {reply reply' : SessionReply}
    {pad pad' : Nat → UInt8} (hbody : reply.body.length = WIRE_BODY_SIZE)
    (hbody' : reply'.body.length = WIRE_BODY_SIZE)
    (hid : reply'.sessionId = reply.sessionId)
    (hnonce : reply'.nonce = reply.nonce) :
    Copied 33 33 32 (reply.serialize pad) (reply'.serialize pad')
      ∧ Copied 1 1 32 (reply.serialize pad) (reply'.serialize pad') := by
  obtain ⟨tail, hfields, hlen⟩ := serialize_sessionReply pad hbody
  obtain ⟨tail', hfields', hlen'⟩ := serialize_sessionReply pad' hbody'
  have hroom : 65 ≤ SESSION_REPLY_WIRE_SIZE := by decide
  rw [hid, hnonce] at hfields'
  refine ⟨⟨by omega, by omega, ?_⟩, ⟨by omega, by omega, ?_⟩⟩
  · have hread : ∀ rest, slice ([SPHINX_VERSION_SESSION_REPLY]
        ++ (reply.sessionId.toList ++ (reply.nonce.toList ++ rest))) 33 32
        = reply.nonce.toList := fun rest =>
      slice_field ([SPHINX_VERSION_SESSION_REPLY]
        ++ reply.sessionId.toList) rest (by simp) (by simp) (by simp)
    rw [hfields, hfields', hread, hread]
  · have hread : ∀ rest, slice ([SPHINX_VERSION_SESSION_REPLY]
        ++ (reply.sessionId.toList ++ rest)) 1 32
        = reply.sessionId.toList := fun rest =>
      slice_field [SPHINX_VERSION_SESSION_REPLY] rest rfl rfl (by simp)
    rw [hfields, hfields', hread, hread]

/-- What a hop passes on has its copied places where they are said to
be. -/
theorem relayed_copies {fn : HopFn} {inp out : List UInt8}
    (h : Relayed P fn inp out) {i j n : Nat}
    (hplace : (i, j, n) ∈ copiedPlaces fn) : Copied i j n inp out := by
  cases h with
  | hybrid hproc hfwd =>
      obtain ⟨hs, shared, hp⟩ := processPacketHybrid_forward hproc hfwd
      simp only [copiedPlaces, List.mem_cons, List.not_mem_nil, or_false,
        Prod.mk.injEq] at hplace
      rcases hplace with ⟨rfl, rfl, rfl⟩ | ⟨rfl, rfl, rfl⟩ | ⟨rfl, rfl, rfl⟩
      · exact hp.copied_session
      · exact hp.copied_kem hs
      · exact hp.copied_routing hs
  | classical hproc hfwd =>
      obtain ⟨shared, hp⟩ := processPacket_forward hproc hfwd
      simp only [copiedPlaces, List.mem_singleton, Prod.mk.injEq] at hplace
      obtain ⟨rfl, rfl, rfl⟩ := hplace
      exact hp.copied_session
  | reply hproc hfinal =>
      obtain ⟨hbody, hbody', hid, hnonce⟩ := processSessionReply_kept hproc
      simp only [copiedPlaces, List.mem_cons, List.not_mem_nil, or_false,
        Prod.mk.injEq] at hplace
      rcases hplace with ⟨rfl, rfl, rfl⟩ | ⟨rfl, rfl, rfl⟩
      · exact (copied_sessionReply hbody hbody' hid hnonce).1
      · exact (copied_sessionReply hbody hbody' hid hnonce).2

theorem not_unlinkable (P : Prims) (fn : HopFn) : ¬ Unlinkable P fn := by
  intro hunlink
  have hplace : (33, 33, 32) ∈ copiedPlaces fn := by
    cases fn <;> simp [copiedPlaces]
  obtain ⟨inp, out, h, hnot⟩ := hunlink 33 33 32 (by decide)
  exact hnot (relayed_copies h hplace)

/-- Every function by which a hop passes something on links what comes
out to what went in, at each of its copied places. -/
theorem hops_linkable (P : Prims) (fn : HopFn) :
    (∀ inp out, Relayed P fn inp out →
        ∀ place ∈ copiedPlaces fn,
          Copied place.1 place.2.1 place.2.2 inp out)
      ∧ ¬ Unlinkable P fn :=
  ⟨fun _ _ h _ hplace => relayed_copies h hplace, not_unlinkable P fn⟩

/-- A new packet whose MAC verifies and whose flag says so is passed
on. -/
theorem peel_forwards {node : MixNode} {shared : SymmetricKey}
    {packet : SphinxPacket} {surb : Bool} (kemRest : List UInt8)
    (d : MixDraws)
    (hmac : matchMac P (deriveHopKeys P shared) packet = .ok surb)
    (hnew : (deriveHopKeys P shared).tag ∉ node.seenTags)
    (hflag : slotFlag P (deriveHopKeys P shared) packet = .ok .forward) :
    ∃ res node' fwd, peel P node shared packet kemRest d = (.ok res, node')
      ∧ res.forwardPacket = some fwd := by
  rw [slotFlag] at hflag
  simp only [peel, hmac, if_neg hnew, hflag]
  exact ⟨_, _, _, rfl, rfl⟩

/-- A hybrid packet of zeros with a session id. -/
def idPacket (id : SessionId) : SphinxPacket where
  header :=
    { version := SPHINX_VERSION_HYBRID
      ephemeralKey := Bytes.zero 32
      sessionId := id
      routingInfo := List.replicate ROUTING_INFO_SIZE 0
      mac := Bytes.zero 16 }
  kemCiphertexts := List.replicate KEM_BLOCK_SIZE 0
  body := placeholder

/-- The secret two nodes share over a zero ephemeral key. -/
theorem hybridSharedSecret_zero (x : Scalar) (kem : SymmetricKey)
    (context : String) :
    Prims.plain.hybridSharedSecret
      (Prims.plain.pointMul (Bytes.zero 32) x) kem context
      = Bytes.zero 32 := by
  have hscalar : Prims.pointScalar (Bytes.zero 32) = 0 := rfl
  have hdh : Prims.plain.pointMul (Bytes.zero 32) x = Bytes.zero 32 := by
    change Prims.scalarPoint (Prims.pointScalar (Bytes.zero 32) * x) = _
    rw [hscalar, zero_mul]
    rfl
  rw [hdh]
  rfl

theorem decapsulateWith_idPacket (id : SessionId) :
    ∃ kem, Prims.plain.decapsulateWith
      (List.replicate KEM_SECRET_KEY_SIZE 0)
      ((idPacket id).kemCiphertexts.take KEM_CIPHERTEXT_SIZE)
      = some kem := by
  have hsecret : (List.replicate KEM_SECRET_KEY_SIZE (0 : UInt8)).length
      = KEM_SECRET_KEY_SIZE := List.length_replicate
  have hct : ((idPacket id).kemCiphertexts.take KEM_CIPHERTEXT_SIZE).length
      = KEM_CIPHERTEXT_SIZE := by
    rw [idPacket, List.length_take, List.length_replicate]
    decide
  rw [Prims.decapsulateWith, if_neg (not_ne_iff.2 hsecret),
    if_neg (not_ne_iff.2 hct)]
  exact ⟨_, rfl⟩

/-- A node that has seen nothing passes such a packet on. -/
theorem relayed_idPacket (id : SessionId) :
    ∃ out, Relayed .plain .hybrid (serializeSphinx (idPacket id)) out := by
  have hver : (idPacket id).header.version = SPHINX_VERSION_HYBRID := rfl
  have hrouting : (idPacket id).header.routingInfo.length
      = ROUTING_INFO_SIZE := List.length_replicate
  have hkem : (idPacket id).kemCiphertexts.length = KEM_BLOCK_SIZE :=
    List.length_replicate
  have hbody : (idPacket id).body.length = WIRE_BODY_SIZE :=
    List.length_replicate
  have heph : (idPacket id).header.ephemeralKey = Bytes.zero 32 := rfl
  obtain ⟨kem, hdec⟩ := decapsulateWith_idPacket id
  have hmac : matchMac .plain (deriveHopKeys .plain (Bytes.zero 32))
      (idPacket id) = .ok false := if_pos rfl
  have hflag : slotFlag .plain (deriveHopKeys .plain (Bytes.zero 32))
      (idPacket id) = .ok .forward := rfl
  have hnew : (deriveHopKeys .plain (Bytes.zero 32)).tag
      ∉ MixCall.zeroNode.seenTags := Finset.notMem_empty _
  obtain ⟨res, node', fwd, hpeel, hfwd⟩ := peel_forwards
    ((idPacket id).kemCiphertexts.drop KEM_CIPHERTEXT_SIZE
      ++ randomBytes MixCall.zeroDraws.kemPad KEM_CIPHERTEXT_SIZE)
    MixCall.zeroDraws hmac hnew hflag
  have hproc : processPacketHybridWithKeys .plain MixCall.zeroNode
      (List.replicate KEM_SECRET_KEY_SIZE 0) (idPacket id)
      MixCall.zeroDraws = (.ok res, node') := by
    simp only [processPacketHybridWithKeys, hver, hrouting, hbody, hkem,
      ne_eq, not_true_eq_false, if_false, hdec, heph,
      hybridSharedSecret_zero]
    exact hpeel
  exact ⟨serializeSphinx fwd, .hybrid hproc hfwd⟩

/-- An observer who sees a packet with an id of fives go into a hop sees
the fives come out at the same place. -/
theorem fives_come_out :
    (∃ out, Relayed .plain .hybrid
        (serializeSphinx (idPacket (Bytes.fill 32 5))) out
      ∧ slice out 33 32 = List.replicate 32 5)
      ∧ ¬ Unlinkable .plain .hybrid := by
  obtain ⟨out, hrelay⟩ := relayed_idPacket (Bytes.fill 32 5)
  have hplace : (33, 33, 32) ∈ copiedPlaces .hybrid := List.mem_cons_self
  refine ⟨⟨out, hrelay, ?_⟩, not_unlinkable _ _⟩
  rw [(relayed_copies hrelay hplace).same, slice_session]
  rfl

end StaticNet
