/-
What becomes of a peer's bytes between the handshake and the connection
loop.

Each read of a handshake message starts a buffer of its own and stops at
its message; the connection loop starts another. What a `recv_bytes`
brought behind a handshake message is in a buffer that is dropped. So
the loop handles the frames the peer sent after its handshake exactly
when some `recv_bytes` ended where the peer's last handshake message did
(`handshake_hands_over`).
-/
import StaticNet.Handshake.Basic
import StaticNet.Swap.Run
import StaticNet.Wire.Observer

namespace StaticNet

open Proc Framing

/-- The room for one `recv_bytes`. -/
def READ_BUFFER_SIZE : Nat := HYBRID_MAX_MESSAGE_SIZE + 1024

/-- A frame: bytes that are read as one message whatever follows. -/
structure Frame where
  msg : WireMessage
  bytes : List UInt8
  reads : Frames tryReadMessage msg bytes

namespace Frame

/-- What the loop sees of a frame. -/
def seen (f : Frame) : WireMessage × List UInt8 := (f.msg, f.bytes)

/-- The bytes of a sequence of frames. -/
def stream (frames : List Frame) : List UInt8 :=
  (frames.map bytes).flatten

/-- A message that fits, as it is sent. -/
def ofMessage (pad : Nat → UInt8) (msg : WireMessage) (h : msg.Fits) :
    Frame where
  msg := msg
  bytes := ((serializeMessage pad msg).toOption).getD []
  reads := by
    obtain ⟨bytes, hbytes, hreads, -⟩ := serializeMessage_frames pad h
    rw [hbytes]
    exact hreads

theorem length_ofMessage (pad : Nat → UInt8) {msg : WireMessage}
    (h : msg.Fits) :
    (ofMessage pad msg h).bytes.length = 5 + msg.payloadSize := by
  obtain ⟨bytes, hbytes, -, hlen⟩ := serializeMessage_frames pad h
  change (((serializeMessage pad msg).toOption).getD []).length = _
  rw [hbytes]
  exact hlen

theorem bytes_pos (f : Frame) : 0 < f.bytes.length :=
  List.length_pos_iff.2 f.reads.nonempty

end Frame

/-- A handshake completed, on one side or the other and whatever else
went on: the connection loop starts with `e`. -/
inductive Completes (P : Prims) (d : LinkDraws) (address : String)
    (recvs : List (List UInt8)) (e : Established) : Prop
  | inbound {tr : List (Step LinkAct LinkState)} :
      Ends (handleIncomingConnection P d address recvs) tr (some e) →
      Completes P d address recvs e
  | outbound {tr : List (Step LinkAct LinkState)} :
      Ends (connectToPeer P d address recvs) tr (.ok e) →
      Completes P d address recvs e

variable {P : Prims} {d : LinkDraws} {address : String}
  {recvs : List (List UInt8)}

/-- The loop starts where the second handshake read ended. -/
theorem Completes.reads {e : Established}
    (h : Completes P d address recvs e) : ReadsTwo recvs e.recvs := by
  cases h with
  | inbound h =>
      obtain ⟨r, tr₁, tr₂, rfl, hr, h⟩ := ends_bind h
      cases r with
      | none => cases ends_pure h
      | some r =>
          obtain ⟨-, tr₃, tr₄, rfl, -, h⟩ := ends_bind h
          obtain rfl := Option.some.inj (ends_pure h)
          exact (authenticateClient_ends hr).1
  | outbound h =>
      obtain ⟨r, tr₁, tr₂, rfl, hr, h⟩ := ends_bind h
      cases r with
      | error e => cases ends_pure h
      | ok r =>
          obtain ⟨-, tr₃, tr₄, rfl, -, h⟩ := ends_bind h
          obtain rfl := Except.ok.inj (ends_pure h)
          exact (authenticateServer_ends hr).1

-- ==== what is handled

/-- A read takes one frame, and loses what a `recv_bytes` brought behind
it. -/
theorem readWireMessage_frame (f : Frame) {tail : List UInt8}
    (hstream : recvs.flatten = f.bytes ++ tail) :
    ∃ taken rest left, recvs = taken ++ rest
      ∧ taken.flatten = f.bytes ++ left
      ∧ left ++ rest.flatten = tail
      ∧ readWireMessage recvs = (some f.msg, rest)
      ∧ (left = [] ↔ Boundary recvs f.bytes.length) := by
  obtain ⟨taken, rest, left, hrecvs, htaken, hrest, hread, hiff⟩ :=
    nextFrom_frames f.reads recvs
      ⟨List.nil_prefix, f.reads.nonempty.symm⟩ hstream
  exact ⟨taken, rest, left, hrecvs, htaken, hrest, hread, hiff⟩

/-- A `recv_bytes` that brings a frame and more. -/
theorem readWireMessage_piece (f : Frame) (left : List UInt8)
    (later : List (List UInt8)) :
    readWireMessage ((f.bytes ++ left) :: later) = (some f.msg, later) := by
  rw [readWireMessage, nextFrom, List.nil_append, f.reads.whole left]

theorem tryReadMessage_takesFront : TakesFront tryReadMessage := by
  intro buf r rest h
  unfold tryReadMessage at h
  split at h
  · obtain rfl := congrArg Prod.snd h
    exact List.suffix_refl _
  dsimp only at h
  split at h
  · cases h
  split at h
  · obtain rfl := congrArg Prod.snd h
    exact List.suffix_refl _
  split at h
  · cases h
  · obtain rfl := congrArg Prod.snd h
    exact List.drop_suffix _ _

/-- The loop handles the frames it was sent exactly when it gets all
their bytes. -/
theorem connectionLoop_frames (frames : List Frame) {left : List UInt8}
    (hstream : left ++ recvs.flatten = Frame.stream frames) :
    connectionLoop recvs = frames.map Frame.seen ↔ left = [] := by
  constructor
  · intro hall
    have hlen := length_serve tryReadMessage_takesFront recvs []
    rw [← connectionLoop, hall, List.map_map] at hlen
    have hbytes := congrArg List.length hstream
    rw [List.length_append] at hbytes
    have hsame : (frames.map (Prod.snd ∘ Frame.seen)).flatten
        = Frame.stream frames := rfl
    rw [hsame, List.length_nil] at hlen
    exact List.length_eq_zero_iff.1 (by omega)
  · rintro rfl
    have hforall : Stream (withFrame tryReadMessage)
        (frames.map Frame.seen) (frames.map Frame.bytes) := by
      clear hstream
      induction frames with
      | nil => exact .nil
      | cons f frames ih => exact .cons f.reads.withFrame ih
    have hidle : withFrame tryReadMessage [] = (.ok none, []) := rfl
    exact serve_of_feed
      (feed_frames hidle hforall recvs (pending_nil hforall) hstream)

/-- Where a `recv_bytes` ends with the peer's first handshake message,
the connection loop of a completed handshake handles exactly the frames
after the handshake, in order, if and only if another ends with the
second. -/
theorem handshake_hands_over (P : Prims) (d : LinkDraws)
    (address : String) (first second : Frame) (frames : List Frame)
    (recvs : List (List UInt8))
    (hstream : recvs.flatten
      = first.bytes ++ (second.bytes ++ Frame.stream frames))
    (hfirst : Boundary recvs first.bytes.length)
    (e : Established) (hdone : Completes P d address recvs e) :
    connectionLoop e.recvs = frames.map Frame.seen
      ↔ Boundary recvs (first.bytes.length + second.bytes.length) := by
  obtain ⟨m₁, m₂, between, hread₁, hread₂⟩ := hdone.reads
  obtain ⟨taken, rest, left, rfl, htaken, hrest, hread, hiff⟩ :=
    readWireMessage_frame first hstream
  obtain rfl := hiff.2 hfirst
  obtain rfl : rest = between :=
    (Prod.mk.inj (hread.symm.trans hread₁)).2
  rw [List.nil_append] at hrest
  rw [List.append_nil] at htaken
  obtain ⟨taken', rest', left', rfl, htaken', hrest', hread', hiff'⟩ :=
    readWireMessage_frame second hrest
  obtain rfl : rest' = e.recvs :=
    (Prod.mk.inj (hread'.symm.trans hread₂)).2
  rw [connectionLoop_frames frames hrest', hiff', ← htaken,
    boundary_append second.bytes_pos]

-- ============ a dial

/-- A node that knows nobody. -/
def quietLink : LinkState where
  nodeId := Bytes.fill 16 9
  identityKey := Bytes.zero 32
  mixPublicKey := Bytes.zero 32
  kemPublicKey := List.replicate 1184 0
  computeEnabled := false
  computeCapacity := 0
  identityPublicKey := Bytes.zero 32
  routingTable := .new (Bytes.fill 16 9)
  handshakeNonces := ∅
  connections := ∅
  peerActivity := ∅
  previouslyConnected := ∅
  inbound := []

def quietDial : LinkDraws where
  secret := Prims.someKey
  kemPublic := List.replicate 1184 0
  kemSecret := List.replicate KEM_SECRET_KEY_SIZE 0
  coins := Bytes.zero 32
  nonce := Bytes.zero 32
  identityNonce := Bytes.zero 32
  aeadNonce := Bytes.zero 12
  openingEnv := quietEnv 0 0
  identityEnv := quietEnv 0 0
  connectedAt := 0
  sendError := fun _ => none

/-- A server's greeting with this nonce, over a zero key. -/
def quietWelcome (nonce : UInt8) : Welcome where
  ephPubKey := Bytes.zero 32
  ephKemPubKey := List.replicate 1184 0
  nonce := Bytes.fill 32 nonce
  kemCiphertext := List.replicate KEM_CIPHERTEXT_SIZE 0

/-- A server that presents itself as the node of sevens under the keys
`key`, with a nonce of its own. -/
def quietServer (key nonce : UInt8) : Handshake :=
  let hs : Handshake :=
    { nodeId := Bytes.fill 16 7
      publicKey := Bytes.fill 32 key
      kemPublicKey := some (List.replicate 1184 0)
      computeEnabled := false
      computeCapacity := 0
      identityPublicKey := Bytes.fill 32 key
      nonce := Bytes.fill 32 (nonce + 1)
      signature := [] }
  { hs with
    signature := (Prims.plain.edSign (Bytes.fill 32 key)
      hs.signingBytes).toList }

theorem quietServer_verify (key nonce : UInt8) :
    (quietServer key nonce).verify .plain = true := by
  have hlen : (List.replicate 1184 (0 : UInt8)).length
      = KEM_PUBLIC_KEY_SIZE := List.length_replicate
  have hsig : (quietServer key nonce).signature.length = 64 :=
    Bytes.length_toList _
  have hsigned : Bytes.ofList 64 (quietServer key nonce).signature
      = Prims.plain.edSign (Bytes.fill 32 key)
        (quietServer key nonce).signingBytes := Bytes.ofList_toList _
  have hkem : (quietServer key nonce).kemPublicKey
      = some (List.replicate 1184 0) := rfl
  simp only [Handshake.verify, Bool.and_eq_true, hsigned]
  refine ⟨⟨⟨beq_iff_eq.2 hsig, rfl⟩, ?_⟩,
    Prims.plain_edVerify (Bytes.fill 32 key) _⟩
  rw [hkem, Option.all_some, hlen]
  exact decide_eq_true rfl

/-- The node of sevens, as somebody says, under keys `key`. -/
def rumour (key : UInt8) : KnownNode :=
  { knownPeer key with nodeId := Bytes.fill 16 7 }

/-- A gossip about the node of sevens. -/
def rumourGossip (key : UInt8) : PeerGossip :=
  let g : PeerGossip := ⟨Bytes.fill 16 8, [rumour key], Bytes.fill 32 8, []⟩
  { g with
    signature := (Prims.plain.edSign (Bytes.fill 32 8)
      (g.signingBytes .plain fun _ => [])).toList }

theorem rumourGossip_verify (key : UInt8) :
    (rumourGossip key).verify .plain (fun _ => []) = true := by
  have hsig : (rumourGossip key).signature.length = 64 :=
    Bytes.length_toList _
  have hsigned : Bytes.ofList 64 (rumourGossip key).signature
      = Prims.plain.edSign (Bytes.fill 32 8)
        ((rumourGossip key).signingBytes .plain fun _ => []) :=
    Bytes.ofList_toList _
  simp only [PeerGossip.verify, Prims.edCheck, Bool.and_eq_true, hsigned]
  exact ⟨rfl, ⟨beq_iff_eq.2 hsig, rfl⟩,
    Prims.plain_edVerify (Bytes.fill 32 8) _⟩

/-- The server's encrypted identity, under the secret a zero key
gives. -/
def quietAnswer (key nonce : UInt8) : EncryptedIdentity :=
  encryptIdentity .plain (Bytes.zero 32) (Bytes.zero 12)
    (quietServer key nonce)
    (handshakeSessionAad (Bytes.zero 32) (Bytes.fill 32 nonce))

theorem quietAnswer_opens (key nonce : UInt8) :
    decryptIdentity .plain (Bytes.zero 32) (quietAnswer key nonce)
        (handshakeSessionAad (Bytes.zero 32) (Bytes.fill 32 nonce))
      = some (quietServer key nonce) :=
  decryptIdentity_encryptIdentity Prims.plain_aeadCorrect rfl
    List.length_replicate (Bytes.length_toList _) _ _ _

/-- Against a table that agrees with the server's keys, the dial ends
with the server authenticated. -/
theorem quietDial_authenticates {s : LinkState} {key nonce : UInt8}
    {recvs between rest : List (List UInt8)}
    {cache : FMap (Bytes 32) Nat}
    (hwelcome : readWireMessage recvs
      = (some (.welcome (quietWelcome nonce)), between))
    (hanswer : readWireMessage between
      = (some (.authIdentity (quietAnswer key nonce)), rest))
    (hopening : TransportState.checkNonceCache (quietEnv 0 0)
      (Bytes.fill 32 nonce) s.handshakeNonces = (true, cache))
    (hfresh : (TransportState.checkNonceCache (quietEnv 0 0)
      (Bytes.fill 32 (nonce + 1)) cache).1 = true)
    (hknown : s.routingTable.continues (quietServer key nonce) = true) :
    (authenticateServer .plain quietDial recvs).out s
        = .ok (quietServer key nonce, rest)
      ∧ (authenticateServer .plain quietDial recvs).post s
        = { s with handshakeNonces := (TransportState.checkNonceCache
            (quietEnv 0 0) (Bytes.fill 32 (nonce + 1)) cache).2 } := by
  have hsecret : (List.replicate KEM_SECRET_KEY_SIZE (0 : UInt8)).length
      = KEM_SECRET_KEY_SIZE := List.length_replicate
  have hct : (List.replicate KEM_CIPHERTEXT_SIZE (0 : UInt8)).length
      = KEM_CIPHERTEXT_SIZE := List.length_replicate
  have hkey : (List.replicate 1184 (0 : UInt8)).length
      = KEM_PUBLIC_KEY_SIZE := List.length_replicate
  obtain ⟨kem, hkem⟩ : ∃ kem, Prims.plain.decapsulateWith
      quietDial.kemSecret (quietWelcome nonce).kemCiphertext
      = some kem := by
    rw [Prims.decapsulateWith, quietDial, quietWelcome,
      if_neg (not_ne_iff.2 hsecret), if_neg (not_ne_iff.2 hct)]
    exact ⟨_, rfl⟩
  refine authenticateServer_alone (fun _ => rfl) hwelcome hopening hkem
    hanswer ?_ (quietServer_verify key nonce) hkey hfresh hknown
  have hzero : deriveHandshakeSecret .plain
      (Prims.plain.pointMul (Bytes.zero 32) Prims.someKey) kem
        = Bytes.zero 32 :=
    hybridSharedSecret_zero Prims.someKey kem _
  change decryptIdentity .plain (deriveHandshakeSecret .plain
    (Prims.plain.pointMul (Bytes.zero 32) Prims.someKey) kem)
    (quietAnswer key nonce)
    (handshakeSessionAad (Bytes.zero 32) (Bytes.fill 32 nonce)) = _
  rw [hzero]
  exact quietAnswer_opens key nonce

/-- The server's greeting as a frame. -/
def welcomeFrame (nonce : UInt8) : Frame :=
  .ofMessage (fun _ => 0) (.welcome (quietWelcome nonce))
    ⟨List.length_replicate, List.length_replicate⟩

/-- The server's identity as a frame. -/
def answerFrame (key nonce : UInt8) : Frame :=
  .ofMessage (fun _ => 0) (.authIdentity (quietAnswer key nonce))
    (encryptIdentity_fits Prims.plain_aeadCorrect rfl List.length_replicate)

/-- The first frame after the handshake. -/
def coverFrame : Frame :=
  .ofMessage (fun _ => 0) quietCover
    ((Sent.dummy (P := .plain) _ _).fits Prims.plain_aeadCorrect)

/-- What a dial receives: the greeting, then the identity with `left`
behind it, then `later`. -/
def dialRecvs (key nonce : UInt8) (left : List UInt8)
    (later : List (List UInt8)) : List (List UInt8) :=
  (welcomeFrame nonce).bytes
    :: ((answerFrame key nonce).bytes ++ left) :: later

theorem quietDial_alone {s : LinkState} {key nonce : UInt8}
    {cache : FMap (Bytes 32) Nat} (left : List UInt8)
    (later : List (List UInt8))
    (hopening : TransportState.checkNonceCache (quietEnv 0 0)
      (Bytes.fill 32 nonce) s.handshakeNonces = (true, cache))
    (hfresh : (TransportState.checkNonceCache (quietEnv 0 0)
      (Bytes.fill 32 (nonce + 1)) cache).1 = true)
    (hknown : s.routingTable.continues (quietServer key nonce) = true) :
    (authenticateServer .plain quietDial
        (dialRecvs key nonce left later)).out s
        = .ok (quietServer key nonce, later)
      ∧ (authenticateServer .plain quietDial
          (dialRecvs key nonce left later)).post s
        = { s with handshakeNonces := (TransportState.checkNonceCache
            (quietEnv 0 0) (Bytes.fill 32 (nonce + 1)) cache).2 } := by
  have hwelcome := readWireMessage_piece (welcomeFrame nonce) []
    (((answerFrame key nonce).bytes ++ left) :: later)
  rw [List.append_nil] at hwelcome
  exact quietDial_authenticates hwelcome
    (readWireMessage_piece (answerFrame key nonce) left later) hopening
    hfresh hknown

/-- The dial completes, whatever comes behind the identity. -/
theorem quietDial_completes (left : List UInt8)
    (later : List (List UInt8)) :
    Completes .plain quietDial "" (dialRecvs 5 1 left later)
      ⟨Bytes.fill 16 7, later⟩ := by
  have hopening : TransportState.checkNonceCache (quietEnv 0 0)
      (Bytes.fill 32 1) quietLink.handshakeNonces
      = (true, (TransportState.checkNonceCache (quietEnv 0 0)
        (Bytes.fill 32 1) ∅).2) := rfl
  have hknown : quietLink.routingTable.continues (quietServer 5 1)
      = true := rfl
  obtain ⟨hout, -⟩ := quietDial_alone left later hopening (by decide)
    hknown
  have hvalue : (connectToPeer .plain quietDial ""
      (dialRecvs 5 1 left later)).out quietLink
      = .ok ⟨(quietServer 5 1).nodeId, later⟩ := by
    rw [connectToPeer, out_bind, hout]
    simp
  obtain ⟨tr, hends⟩ := ends_out (connectToPeer .plain quietDial ""
    (dialRecvs 5 1 left later)) quietLink
  rw [hvalue] at hends
  exact .outbound hends

theorem handshake_hands_over_quiet :
    connectionLoop (Established.mk (Bytes.fill 16 7)
        [coverFrame.bytes]).recvs = [coverFrame].map Frame.seen
      ↔ Boundary (dialRecvs 5 1 [] [coverFrame.bytes])
        ((welcomeFrame 1).bytes.length
          + (answerFrame 5 1).bytes.length) := by
  have hstream : (dialRecvs 5 1 [] [coverFrame.bytes]).flatten
      = (welcomeFrame 1).bytes ++ ((answerFrame 5 1).bytes
        ++ Frame.stream [coverFrame]) := by
    simp [dialRecvs, Frame.stream]
  have hfirst : Boundary (dialRecvs 5 1 [] [coverFrame.bytes])
      (welcomeFrame 1).bytes.length :=
    ⟨[(welcomeFrame 1).bytes], by simp [dialRecvs], by simp⟩
  exact handshake_hands_over .plain quietDial "" (welcomeFrame 1)
    (answerFrame 5 1) [coverFrame] _ hstream hfirst _
    (quietDial_completes [] [coverFrame.bytes])

/-- The first kilobyte of the server's first frame arrives together with
its identity. -/
def coalesced : List (List UInt8) :=
  dialRecvs 5 1 (coverFrame.bytes.take 1000) [coverFrame.bytes.drop 1000]

theorem coalesced_flatten :
    coalesced.flatten = (welcomeFrame 1).bytes
      ++ ((answerFrame 5 1).bytes ++ Frame.stream [coverFrame]) := by
  simp [coalesced, dialRecvs, Frame.stream]

/-- Each piece fits into the buffer it is received in. -/
theorem coalesced_received :
    ∀ recv ∈ coalesced, 0 < recv.length ∧ recv.length ≤ READ_BUFFER_SIZE := by
  have hwelcome : (welcomeFrame 1).bytes.length = 5 + PADDED_MESSAGE_SIZE :=
    Frame.length_ofMessage _ _
  have hanswer : (answerFrame 5 1).bytes.length = 5 + PADDED_MESSAGE_SIZE :=
    Frame.length_ofMessage _ _
  have hcover : coverFrame.bytes.length = 5 + SESSION_REPLY_WIRE_SIZE :=
    Frame.length_ofMessage _ _
  have hsizes : PADDED_MESSAGE_SIZE + 1024 = READ_BUFFER_SIZE
      ∧ 1000 < SESSION_REPLY_WIRE_SIZE
      ∧ SESSION_REPLY_WIRE_SIZE ≤ PADDED_MESSAGE_SIZE := by decide
  obtain ⟨hbuffer, hlong, hpadded⟩ := hsizes
  intro recv hrecv
  simp only [coalesced, dialRecvs, List.mem_cons, List.not_mem_nil,
    or_false] at hrecv
  rcases hrecv with hrecv | hrecv | hrecv
  · rw [hrecv]
    omega
  · rw [hrecv, List.length_append, List.length_take]
    omega
  · rw [hrecv, List.length_drop]
    omega

/-- The dial completes, and the connection loop never sees the server's
first frame: its first kilobyte went with the identity's buffer. -/
theorem coalesced_frame_lost :
    coalesced.flatten = (welcomeFrame 1).bytes
        ++ ((answerFrame 5 1).bytes ++ Frame.stream [coverFrame])
      ∧ (∀ recv ∈ coalesced,
        0 < recv.length ∧ recv.length ≤ READ_BUFFER_SIZE)
      ∧ Completes .plain quietDial "" coalesced
        ⟨Bytes.fill 16 7, [coverFrame.bytes.drop 1000]⟩
      ∧ connectionLoop [coverFrame.bytes.drop 1000]
        ≠ [coverFrame].map Frame.seen := by
  refine ⟨coalesced_flatten, coalesced_received,
    quietDial_completes _ _, fun hall => ?_⟩
  have hstream : coverFrame.bytes.take 1000
      ++ [coverFrame.bytes.drop 1000].flatten
      = Frame.stream [coverFrame] := by
    simp [Frame.stream]
  have hlost := (connectionLoop_frames [coverFrame] hstream).1 hall
  have hlen := congrArg List.length hlost
  rw [List.length_take, List.length_nil] at hlen
  have hpos := coverFrame.bytes_pos
  omega

end StaticNet
