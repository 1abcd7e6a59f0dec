/-
Framing: every message a node sends is read back, however the stream of
frames is cut.

# What makes the format unambiguous

A frame says its length in its second to fifth byte, so a part of a
frame is never taken for a whole one, and the reader's cap is the size
handshake payloads are padded to. Under one type byte stand two layouts
of one length, told apart by their first byte: packets start with
version one, session replies with version two. The layout without a
version byte is matched by its own length, which no message here has.

Each layout is read back field by field (`deserializeHello_serialize`
and its siblings), a payload that is read back makes a frame
(`frames_payload`), and the rest is the general argument of
`Lib/Framing`.
-/
import StaticNet.Lib.Framing
import StaticNet.Wire.Sent

namespace StaticNet

open Framing

-- ========== payloads

section Fields

variable (tail : List UInt8)

theorem deserializeHello_serialize {h : Hello}
    (hkem : h.ephKemPubKey.length = KEM_PUBLIC_KEY_SIZE) :
    deserializeHello (serializeHello h ++ tail) = .ok h := by
  obtain ⟨pub, kem, nonce⟩ := h
  dsimp only at hkem
  generalize hdata : serializeHello ⟨pub, kem, nonce⟩ ++ tail = data
  simp only [serializeHello, List.append_assoc] at hdata
  have hsize : data.length = 66 + KEM_PUBLIC_KEY_SIZE + tail.length := by
    simp [← hdata, hkem]
    omega
  have hlen : slice data 32 2 = beBytes 2 kem.length :=
    slice_field pub.toList _ hdata.symm (by simp) (by simp)
  have hread : ofBeBytes (beBytes 2 kem.length) = KEM_PUBLIC_KEY_SIZE := by
    rw [hkem]
    rfl
  have hpub : slice data 0 32 = pub.toList :=
    slice_field [] _ hdata.symm rfl (by simp)
  have hkey : slice data 34 KEM_PUBLIC_KEY_SIZE = kem :=
    slice_field (pub.toList ++ beBytes 2 kem.length) (nonce.toList ++ tail)
      (by simp [← hdata]) (by simp) hkem
  have hnonce : slice data (34 + KEM_PUBLIC_KEY_SIZE) 32 = nonce.toList :=
    slice_field (pub.toList ++ (beBytes 2 kem.length ++ kem)) tail
      (by simp [← hdata]) (by simp [hkem]; omega) (by simp)
  simp only [deserializeHello, hlen, hread, hsize, hpub, hkey, hnonce,
    Bytes.ofList_toList]
  rw [if_neg (by omega), if_neg (by simp), if_neg (by omega)]

theorem deserializeWelcome_serialize {w : Welcome}
    (hkem : w.ephKemPubKey.length = KEM_PUBLIC_KEY_SIZE)
    (hct : w.kemCiphertext.length = KEM_CIPHERTEXT_SIZE) :
    deserializeWelcome (serializeWelcome w ++ tail) = .ok w := by
  obtain ⟨pub, kem, nonce, ct⟩ := w
  dsimp only at hkem hct
  generalize hdata : serializeWelcome ⟨pub, kem, nonce, ct⟩ ++ tail = data
  simp only [serializeWelcome, List.append_assoc] at hdata
  have hsize : data.length = 68 + KEM_PUBLIC_KEY_SIZE
      + KEM_CIPHERTEXT_SIZE + tail.length := by
    simp [← hdata, hkem, hct]
    omega
  have hlen : slice data 32 2 = beBytes 2 kem.length :=
    slice_field pub.toList _ hdata.symm (by simp) (by simp)
  have hread : ofBeBytes (beBytes 2 kem.length) = KEM_PUBLIC_KEY_SIZE := by
    rw [hkem]
    rfl
  have hkeyEnd : (pub.toList ++ (beBytes 2 kem.length ++ kem)).length
      = 34 + KEM_PUBLIC_KEY_SIZE := by
    simp only [List.length_append, Bytes.length_toList, length_beBytes, hkem]
    rw [← Nat.add_assoc]
  have hnonceEnd : (pub.toList ++ (beBytes 2 kem.length
      ++ (kem ++ nonce.toList))).length = 34 + KEM_PUBLIC_KEY_SIZE + 32 := by
    simp only [List.length_append, Bytes.length_toList, length_beBytes, hkem]
    rw [← Nat.add_assoc, ← Nat.add_assoc]
  have hctLen : slice data (34 + KEM_PUBLIC_KEY_SIZE + 32) 2
      = beBytes 2 ct.length :=
    slice_field
      (pub.toList ++ (beBytes 2 kem.length ++ (kem ++ nonce.toList)))
      (ct ++ tail) (by simp [← hdata]) hnonceEnd (by simp)
  have hctRead : ofBeBytes (beBytes 2 ct.length) = KEM_CIPHERTEXT_SIZE := by
    rw [hct]
    rfl
  have hpub : slice data 0 32 = pub.toList :=
    slice_field [] _ hdata.symm rfl (by simp)
  have hkey : slice data 34 KEM_PUBLIC_KEY_SIZE = kem :=
    slice_field (pub.toList ++ beBytes 2 kem.length)
      (nonce.toList ++ (beBytes 2 ct.length ++ (ct ++ tail)))
      (by simp [← hdata]) (by simp) hkem
  have hnonce : slice data (34 + KEM_PUBLIC_KEY_SIZE) 32 = nonce.toList :=
    slice_field (pub.toList ++ (beBytes 2 kem.length ++ kem))
      (beBytes 2 ct.length ++ (ct ++ tail)) (by simp [← hdata]) hkeyEnd
      (by simp)
  have hciphertext : slice data (34 + KEM_PUBLIC_KEY_SIZE + 32 + 2)
      KEM_CIPHERTEXT_SIZE = ct :=
    slice_field ((pub.toList ++ (beBytes 2 kem.length
        ++ (kem ++ nonce.toList))) ++ beBytes 2 ct.length) tail
      (by simp [← hdata])
      (by rw [List.length_append, hnonceEnd, length_beBytes]) hct
  simp only [deserializeWelcome, hlen, hread, hctLen, hctRead, hsize, hpub,
    hkey, hnonce, hciphertext, Bytes.ofList_toList]
  rw [if_neg (by omega), if_neg (by simp), if_neg (by omega),
    if_neg (by simp), if_neg (by omega)]

theorem deserializeAuthIdentity_serialize {enc : EncryptedIdentity}
    (hpos : enc.ciphertext.length ≠ 0)
    (hmax : enc.ciphertext.length ≤ 4096) :
    deserializeAuthIdentity (serializeAuthIdentity enc ++ tail)
      = .ok enc := by
  obtain ⟨nonce, ct⟩ := enc
  dsimp only at hpos hmax
  generalize hdata : serializeAuthIdentity ⟨nonce, ct⟩ ++ tail = data
  simp only [serializeAuthIdentity, List.append_assoc] at hdata
  have hsize : data.length = 14 + ct.length + tail.length := by
    simp [← hdata]
    omega
  have hlen : slice data 12 2 = beBytes 2 ct.length :=
    slice_field nonce.toList _ hdata.symm (by simp) (by simp)
  have hread : ofBeBytes (beBytes 2 ct.length) = ct.length :=
    ofBeBytes_beBytes_of_lt (by omega)
  have hnonce : slice data 0 12 = nonce.toList :=
    slice_field [] _ hdata.symm rfl (by simp)
  have hct : slice data 14 ct.length = ct :=
    slice_field (nonce.toList ++ beBytes 2 ct.length) tail
      (by simp [← hdata]) (by simp) rfl
  simp only [deserializeAuthIdentity, hlen, hread, hsize, hnonce, hct,
    Bytes.ofList_toList]
  rw [if_neg (by omega), if_neg (by omega)]

end Fields

/-- A signed handshake with a KEM key is read as it was written. -/
theorem deserializeHandshake_serialize {hs : Handshake} {kem : List UInt8}
    (hkem : hs.kemPublicKey = some kem)
    (hlen : kem.length = KEM_PUBLIC_KEY_SIZE)
    (hsig : hs.signature.length = 64) :
    deserializeHandshake (serializeHandshake hs) = .ok hs := by
  obtain ⟨id, key, kem', enabled, capacity, identity, nonce, sig⟩ := hs
  dsimp only at hkem hsig
  subst hkem
  have hpos : ¬ kem.length = 0 := by
    rw [hlen]
    decide
  have hmax : ¬ 4096 < kem.length := by
    rw [hlen]
    decide
  generalize hdata : serializeHandshake
    ⟨id, key, some kem, enabled, capacity, identity, nonce, sig⟩ = data
  simp only [serializeHandshake, Option.getD_some,
    Bytes.toList_ofList hsig] at hdata
  have hsize : data.length = 180 + kem.length := by
    simp [← hdata, hsig]
    omega
  have hkemLen : slice data 48 2 = beBytes 2 kem.length :=
    slice_field (id.toList ++ key.toList) _ (by simp [← hdata]; rfl)
      (by simp) (by simp)
  have hread : ofBeBytes (beBytes 2 kem.length) = kem.length :=
    ofBeBytes_beBytes_of_lt (by omega)
  have hid : slice data 0 16 = id.toList :=
    slice_field [] _ hdata.symm rfl (by simp)
  have hkey : slice data 16 32 = key.toList :=
    slice_field id.toList _ hdata.symm (by simp) (by simp)
  have hkemKey : slice data 50 kem.length = kem :=
    slice_field (id.toList ++ (key.toList ++ beBytes 2 kem.length)) _
      (by simp [← hdata]; rfl) (by simp) rfl
  -- the fields behind the KEM key
  generalize hfront : id.toList ++ (key.toList ++ (beBytes 2 kem.length
    ++ kem)) = front
  have hoff : front.length = 50 + kem.length := by
    simp [← hfront]
    omega
  have hrest : data = front ++ ([if enabled then 1 else 0]
      ++ ([capacity] ++ (identity.toList ++ (nonce.toList ++ sig)))) := by
    simp [← hdata, ← hfront]
  have henabled : data.getD (50 + kem.length) 0
      = if enabled then 1 else 0 := getD_field front _ hrest hoff
  have hcapacity : data.getD (50 + kem.length + 1) 0 = capacity :=
    getD_field (front ++ [if enabled then 1 else 0]) _
      (by rw [hrest]; simp; rfl) (by simp [hoff])
  have hidentity : slice data (50 + kem.length + 2) 32
      = identity.toList :=
    slice_field (front ++ ([if enabled then 1 else 0] ++ [capacity])) _
      (by rw [hrest]; simp; rfl) (by simp [hoff]) (by simp)
  have hnonce : slice data (50 + kem.length + 34) 32 = nonce.toList :=
    slice_field (front ++ ([if enabled then 1 else 0] ++ ([capacity]
      ++ identity.toList))) _ (by rw [hrest]; simp; rfl)
      (by simp [hoff]) (by simp)
  have hsignature : slice data (50 + kem.length + 66) 64 = sig :=
    slice_field (front ++ ([if enabled then 1 else 0] ++ ([capacity]
      ++ (identity.toList ++ nonce.toList)))) [] (by rw [hrest]; simp)
      (by simp [hoff]) hsig
  have hflag : decide ((if enabled then (1 : UInt8) else 0) = 1)
      = enabled := by
    cases enabled <;> rfl
  have hmin : ¬ data.length < HANDSHAKE_MIN := by
    rw [hsize, HANDSHAKE_MIN]
    omega
  have hneeded : ¬ (4096 < kem.length
      ∨ data.length < 50 + kem.length + 2 + 32 + 32 + 64) := by
    rw [hsize]
    omega
  simp only [deserializeHandshake, if_neg hmin, hkemLen, hread,
    if_neg hneeded, hid, hkey, hkemKey, if_neg hpos, henabled, hcapacity,
    hidentity, hnonce, hsignature, hflag, Bytes.ofList_toList]

theorem length_serializeSphinx {packet : SphinxPacket}
    (h : packet.Sized) :
    (serializeSphinx packet).length = SESSION_REPLY_WIRE_SIZE := by
  simp [serializeSphinx, h.routing_length, h.kem_length, h.body_length,
    SESSION_REPLY_WIRE_SIZE, EPHEMERAL_KEY_SIZE, SESSION_ID_SIZE, MAC_SIZE]
  omega

/-- Where the body stands. -/
theorem length_sphinxFront (version : UInt8) (key : Bytes 32)
    (session : SessionId) (kem routing : List UInt8) (mac : Mac) :
    ([version] ++ (key.toList ++ (session.toList
      ++ (beBytes 4 kem.length
      ++ (kem ++ (routing ++ mac.toList)))))).length
      = 69 + kem.length + routing.length + MAC_SIZE := by
  simp only [List.length_append, List.length_singleton,
    Bytes.length_toList, length_beBytes, MAC_SIZE]
  omega

theorem deserializeSphinx_serialize {packet : SphinxPacket}
    (h : packet.Sized) :
    deserializeSphinx (serializeSphinx packet) = .ok packet := by
  have hlength := length_serializeSphinx h
  obtain ⟨⟨version, key, session, routing, mac⟩, kem, body⟩ := packet
  obtain ⟨hver, hrouting, hkem, hbody⟩ := h
  dsimp only at hver hrouting hkem hbody
  subst hver
  generalize hdata : serializeSphinx ⟨⟨SPHINX_VERSION_HYBRID, key, session,
    routing, mac⟩, kem, body⟩ = data at hlength ⊢
  simp only [serializeSphinx] at hdata
  have hversion : data.getD 0 0 = SPHINX_VERSION_HYBRID := by
    rw [← hdata]
    rfl
  have hkey : slice data 1 32 = key.toList :=
    slice_field [SPHINX_VERSION_HYBRID] _ hdata.symm rfl (by simp)
  have hsession : slice data 33 32 = session.toList :=
    slice_field ([SPHINX_VERSION_HYBRID] ++ key.toList)
      (beBytes 4 kem.length ++ (kem ++ (routing ++ (mac.toList ++ body))))
      (by simp [← hdata]) (by simp) (by simp)
  have hlen : slice data 65 4 = beBytes 4 kem.length :=
    slice_field
      ([SPHINX_VERSION_HYBRID] ++ (key.toList ++ session.toList))
      (kem ++ (routing ++ (mac.toList ++ body)))
      (by simp [← hdata]) (by simp) (by simp)
  have hread : ofBeBytes (beBytes 4 kem.length) = KEM_BLOCK_SIZE := by
    rw [hkem]
    rfl
  have hkemAt : slice data 69 KEM_BLOCK_SIZE = kem :=
    slice_field ([SPHINX_VERSION_HYBRID] ++ (key.toList
        ++ (session.toList ++ beBytes 4 kem.length)))
      (routing ++ (mac.toList ++ body))
      (by simp [← hdata]) (by simp) hkem
  have hroutingAt : slice data (69 + KEM_BLOCK_SIZE) ROUTING_INFO_SIZE
      = routing :=
    slice_field ([SPHINX_VERSION_HYBRID] ++ (key.toList
        ++ (session.toList ++ (beBytes 4 kem.length ++ kem))))
      (mac.toList ++ body)
      (by simp [← hdata]) (by simp [hkem]; omega) hrouting
  have hmacAt : slice data (69 + KEM_BLOCK_SIZE + ROUTING_INFO_SIZE)
      MAC_SIZE = mac.toList :=
    slice_field ([SPHINX_VERSION_HYBRID] ++ (key.toList
        ++ (session.toList ++ (beBytes 4 kem.length ++ (kem ++ routing)))))
      body (by simp [← hdata]) (by simp [hkem, hrouting]; omega)
      mac.length_toList
  have hbodyAt : slice data (69 + KEM_BLOCK_SIZE + ROUTING_INFO_SIZE
      + MAC_SIZE) WIRE_BODY_SIZE = body :=
    slice_field ([SPHINX_VERSION_HYBRID] ++ (key.toList
        ++ (session.toList ++ (beBytes 4 kem.length
        ++ (kem ++ (routing ++ mac.toList))))))
      [] (by simp [← hdata])
      (by rw [length_sphinxFront, hkem, hrouting]) hbody
  have hat : sphinxAt data KEM_BLOCK_SIZE WIRE_BODY_SIZE
      = ⟨⟨SPHINX_VERSION_HYBRID, key, session, routing, mac⟩, kem,
        body⟩ := by
    simp only [sphinxAt, hversion, hkey, hsession, hkemAt, hroutingAt,
      hmacAt, hbodyAt, Bytes.ofList_toList]
  have hsizes : SESSION_REPLY_WIRE_SIZE
      = 69 + KEM_BLOCK_SIZE + ROUTING_INFO_SIZE + MAC_SIZE
        + WIRE_BODY_SIZE := by
    rfl
  have hwire : WIRE_BODY_SIZE = BODY_SIZE + 16 := rfl
  simp only [deserializeSphinx, hlen, hread, hlength, hversion, if_true,
    not_true_eq_false, if_false, EPHEMERAL_KEY_SIZE, SESSION_ID_SIZE]
  rw [if_neg (by omega), if_neg (by omega), if_pos (by omega),
    if_neg (by omega), hat]

/-- A session reply's payload before its padding. -/
theorem serialize_sessionReply (pad : Nat → UInt8) {reply : SessionReply}
    (h : reply.body.length = WIRE_BODY_SIZE) :
    ∃ tail, reply.serialize pad
        = [SPHINX_VERSION_SESSION_REPLY] ++ (reply.sessionId.toList
          ++ (reply.nonce.toList ++ (reply.body ++ tail)))
      ∧ (reply.serialize pad).length = SESSION_REPLY_WIRE_SIZE := by
  have hcut : padTo WIRE_BODY_SIZE (reply.body.take WIRE_BODY_SIZE)
      = reply.body := by
    rw [← h, List.take_length, padTo, Nat.sub_self, List.replicate_zero,
      List.append_nil]
  have hsize : ([SPHINX_VERSION_SESSION_REPLY] ++ (reply.sessionId.toList
      ++ (reply.nonce.toList ++ reply.body))).length
      ≤ SESSION_REPLY_WIRE_SIZE := by
    simp [h, SESSION_REPLY_WIRE_SIZE, EPHEMERAL_KEY_SIZE, SESSION_ID_SIZE]
    omega
  simp only [SessionReply.serialize, hcut]
  generalize SESSION_REPLY_WIRE_SIZE = size at hsize ⊢
  refine ⟨randomBytes pad (size - ([SPHINX_VERSION_SESSION_REPLY]
    ++ (reply.sessionId.toList
      ++ (reply.nonce.toList ++ reply.body))).length), ?_, ?_⟩
  · simp only [List.append_assoc]
  · rw [List.length_append, length_randomBytes]
    omega

theorem deserialize_sessionReply (pad : Nat → UInt8) {reply : SessionReply}
    (h : reply.body.length = WIRE_BODY_SIZE) :
    SessionReply.deserialize (reply.serialize pad) = .ok reply := by
  obtain ⟨tail, hserialize, hlength⟩ := serialize_sessionReply pad h
  obtain ⟨session, nonce, body⟩ := reply
  dsimp only at h hserialize
  generalize hdata : SessionReply.serialize pad ⟨session, nonce, body⟩ = data
    at hserialize hlength ⊢
  have hversion : data.getD 0 0 = SPHINX_VERSION_SESSION_REPLY := by
    rw [hserialize]
    rfl
  have hsession : slice data 1 SESSION_ID_SIZE = session.toList :=
    slice_field [SPHINX_VERSION_SESSION_REPLY] _ hserialize rfl
      session.length_toList
  have hnonce : slice data (1 + SESSION_ID_SIZE) SESSION_ID_SIZE
      = nonce.toList :=
    slice_field ([SPHINX_VERSION_SESSION_REPLY] ++ session.toList)
      (body ++ tail) (by simp [hserialize]) (by simp [SESSION_ID_SIZE])
      nonce.length_toList
  have hbody : slice data (1 + 2 * SESSION_ID_SIZE) WIRE_BODY_SIZE
      = body :=
    slice_field ([SPHINX_VERSION_SESSION_REPLY]
        ++ (session.toList ++ nonce.toList)) tail
      (by simp [hserialize]) (by simp [SESSION_ID_SIZE]) h
  have hsizes : SESSION_REPLY_WIRE_SIZE
      = 69 + KEM_BLOCK_SIZE + ROUTING_INFO_SIZE + MAC_SIZE
        + WIRE_BODY_SIZE := by
    rfl
  have hids : SESSION_ID_SIZE = 32 := rfl
  simp only [SessionReply.deserialize, hlength, hversion, hsession, hnonce,
    hbody, Bytes.ofList_toList]
  rw [if_neg (by omega), if_neg (by simp)]

-- ============ frames

/-- The size of a message's payload. -/
def WireMessage.payloadSize : WireMessage → Nat
  | .sphinx _ => SESSION_REPLY_WIRE_SIZE
  | .sessionReply _ => SESSION_REPLY_WIRE_SIZE
  | _ => PADDED_MESSAGE_SIZE

theorem payloadSize_le (msg : WireMessage) :
    msg.payloadSize ≤ PADDED_MESSAGE_SIZE := by
  have hless : SESSION_REPLY_WIRE_SIZE ≤ PADDED_MESSAGE_SIZE := by decide
  cases msg with
  | sphinx packet => exact hless
  | sessionReply reply => exact hless
  | _ => exact Nat.le_refl _

/-- Two layouts share a type byte. -/
theorem deserializePayload_sphinx (payload : List UInt8) :
    deserializePayload MSG_SPHINX payload
      = if payload.length = SESSION_REPLY_WIRE_SIZE
          ∧ payload.getD 0 0 = SPHINX_VERSION_SESSION_REPLY then
        match SessionReply.deserialize payload with
        | .error _ => .error .invalidSphinxPacket
        | .ok reply => .ok (.sessionReply reply)
      else (deserializeSphinx payload).map .sphinx := rfl

theorem padHandshake_eq (pad : Nat → UInt8) {payload : List UInt8}
    (h : payload.length ≤ PADDED_MESSAGE_SIZE) :
    ∃ tail, padHandshake pad payload = payload ++ tail
      ∧ (padHandshake pad payload).length = PADDED_MESSAGE_SIZE := by
  rw [padHandshake, if_neg (Nat.not_lt.2 h)]
  refine ⟨_, rfl, ?_⟩
  rw [List.length_append, length_randomBytes]
  omega

/-- A message's payload is read back as the message. -/
theorem payload_spec (pad : Nat → UInt8) {msg : WireMessage}
    (h : msg.Fits) :
    (msg.payload pad).2.length = msg.payloadSize
      ∧ deserializePayload (msg.payload pad).1 (msg.payload pad).2
        = .ok msg := by
  cases msg with
  | handshake hs => exact h.elim
  | hello hello =>
      have hsize : (serializeHello hello).length ≤ PADDED_MESSAGE_SIZE := by
        have hkem : hello.ephKemPubKey.length = KEM_PUBLIC_KEY_SIZE := h
        simp only [serializeHello, List.length_append, hkem,
          Bytes.length_toList, length_beBytes]
        decide
      obtain ⟨tail, hpad, hlen⟩ := padHandshake_eq pad hsize
      refine ⟨hlen, ?_⟩
      change (deserializeHello (padHandshake pad _)).map _ = _
      rw [hpad, deserializeHello_serialize tail h]
      rfl
  | welcome welcome =>
      have hsize : (serializeWelcome welcome).length
          ≤ PADDED_MESSAGE_SIZE := by
        simp only [serializeWelcome, List.length_append, h.1, h.2,
          Bytes.length_toList, length_beBytes]
        decide
      obtain ⟨tail, hpad, hlen⟩ := padHandshake_eq pad hsize
      refine ⟨hlen, ?_⟩
      change (deserializeWelcome (padHandshake pad _)).map _ = _
      rw [hpad, deserializeWelcome_serialize tail h.1 h.2]
      rfl
  | authIdentity enc =>
      have hsize : (serializeAuthIdentity enc).length
          ≤ PADDED_MESSAGE_SIZE := by
        have hmax : 4110 ≤ PADDED_MESSAGE_SIZE := by decide
        have hct := h.2
        simp only [serializeAuthIdentity, List.length_append,
          Bytes.length_toList, length_beBytes]
        omega
      obtain ⟨tail, hpad, hlen⟩ := padHandshake_eq pad hsize
      refine ⟨hlen, ?_⟩
      change (deserializeAuthIdentity (padHandshake pad _)).map _ = _
      rw [hpad, deserializeAuthIdentity_serialize tail h.1 h.2]
      rfl
  | sphinx packet =>
      refine ⟨length_serializeSphinx h, ?_⟩
      have hversion : (serializeSphinx packet).getD 0 0
          ≠ SPHINX_VERSION_SESSION_REPLY := by
        rw [show (serializeSphinx packet).getD 0 0 = SPHINX_VERSION_HYBRID
          from h.version_eq]
        decide
      change deserializePayload MSG_SPHINX (serializeSphinx packet) = _
      rw [deserializePayload_sphinx, if_neg fun hboth => hversion hboth.2,
        deserializeSphinx_serialize h]
      rfl
  | sessionReply reply =>
      obtain ⟨tail, hserialize, hlen⟩ := serialize_sessionReply pad h
      refine ⟨hlen, ?_⟩
      have hversion : (reply.serialize pad).getD 0 0
          = SPHINX_VERSION_SESSION_REPLY := by
        rw [hserialize]
        rfl
      change deserializePayload MSG_SPHINX (reply.serialize pad) = _
      rw [deserializePayload_sphinx, if_pos ⟨hlen, hversion⟩,
        deserialize_sessionReply pad h]

/-- A payload that is read back makes a frame. -/
theorem frames_payload {type : UInt8} {payload : List UInt8}
    {msg : WireMessage} (hmax : payload.length ≤ PADDED_MESSAGE_SIZE)
    (hread : deserializePayload type payload = .ok msg) :
    Frames tryReadMessage msg
      (type :: (beBytes 4 payload.length ++ payload)) := by
  have hfit : payload.length < 256 ^ 4 :=
    Nat.lt_of_le_of_lt hmax (by decide)
  have hlen : (type :: (beBytes 4 payload.length ++ payload)).length
      = 5 + payload.length := by
    simp
    omega
  have hbytes : slice (type :: (beBytes 4 payload.length ++ payload)) 1 4
      = beBytes 4 payload.length :=
    slice_field [type] payload rfl rfl (length_beBytes _ _)
  have htype : (type :: (beBytes 4 payload.length ++ payload)).getD 0 0
      = type := rfl
  have hpayload : slice (type :: (beBytes 4 payload.length ++ payload)) 5
      payload.length = payload :=
    slice_field (type :: beBytes 4 payload.length) [] (by simp)
      (by simp) rfl
  have hsize : ofBeBytes (beBytes 4 payload.length) = payload.length :=
    ofBeBytes_beBytes_of_lt hfit
  generalize hframe : type :: (beBytes 4 payload.length ++ payload) = frame
    at hlen hbytes htype hpayload
  have hmessage : deserializeMessage frame
      = .ok (msg, 5 + payload.length) := by
    simp only [deserializeMessage, hlen, hbytes, hsize, htype,
      Nat.add_sub_cancel_left, hpayload, hread, Nat.lt_irrefl, if_false]
    rw [if_neg (by omega)]
    rfl
  refine ⟨?_, ?_, ?_⟩
  · rw [← hframe]
    exact List.cons_ne_nil _ _
  · intro rest
    have hhead : slice (frame ++ rest) 1 4 = beBytes 4 payload.length := by
      rw [slice_front (List.prefix_append _ _) (by omega), hbytes]
    simp only [tryReadMessage, hhead, hsize, List.length_append, hlen]
    rw [if_neg (by omega), if_neg (by omega), if_neg (by omega), ← hlen,
      List.take_left, List.drop_left, hmessage]
  · intro part hpart hne
    have hshort : part.length < 5 + payload.length := by
      have hle := hpart.length_le
      have hneq : part.length ≠ frame.length :=
        fun heq => hne (hpart.eq_of_length heq)
      omega
    unfold tryReadMessage
    by_cases hfive : part.length < 5
    · rw [if_pos hfive]
    · have hhead : slice part 1 4 = beBytes 4 payload.length := by
        rw [← slice_front hpart (by omega), hbytes]
      simp only [hhead, hsize]
      rw [if_neg hfive, if_neg (by omega), if_pos hshort]

theorem serializeMessage_frames (pad : Nat → UInt8) {msg : WireMessage}
    (h : msg.Fits) :
    ∃ frame, serializeMessage pad msg = .ok frame
      ∧ Frames tryReadMessage msg frame
      ∧ frame.length = 5 + msg.payloadSize := by
  obtain ⟨hlen, hread⟩ := payload_spec pad h
  have hmax : ¬ msg.maxSize < 1 + 4 + msg.payloadSize := by
    have hdata : ¬ HYBRID_MAX_MESSAGE_SIZE
        < 1 + 4 + SESSION_REPLY_WIRE_SIZE := by decide
    cases msg with
    | handshake hs => exact h.elim
    | sphinx packet => exact hdata
    | sessionReply reply => exact hdata
    | _ => exact Nat.lt_irrefl _
  refine ⟨_, ?_, frames_payload (hlen ▸ payloadSize_le msg) hread, ?_⟩
  · unfold serializeMessage
    dsimp only
    rw [hlen, if_neg hmax]
  · rw [List.length_cons, List.length_append, length_beBytes, hlen]
    omega

-- =========== streams

/-- Messages with the random bytes each is padded with. -/
abbrev Outgoing := List (WireMessage × (Nat → UInt8))

/-- The frames of a list of messages. -/
def frameAll (out : Outgoing) : Except WireError (List (List UInt8)) :=
  out.mapM fun m => serializeMessage m.2 m.1

theorem frameAll_ok {out : Outgoing} (h : ∀ m ∈ out, m.1.Fits) :
    ∃ frames, frameAll out = .ok frames
      ∧ Stream tryReadMessage (out.map Prod.fst) frames := by
  induction out with
  | nil => exact ⟨[], rfl, .nil⟩
  | cons m out ih =>
      obtain ⟨frame, hframe, hread, -⟩ :=
        serializeMessage_frames m.2 (h m List.mem_cons_self)
      obtain ⟨frames, hframes, hstream⟩ :=
        ih fun m' hm' => h m' (List.mem_cons_of_mem _ hm')
      unfold frameAll at hframes ⊢
      refine ⟨frame :: frames, ?_, .cons hread hstream⟩
      rw [List.mapM_cons, hframe, hframes]
      rfl

/-- Whatever a node sends, however the stream is cut into reads: the
reader gets the messages in order, no error, and an empty buffer. -/
theorem stream_framing (P : Prims) (haead : P.AeadCorrect)
    (out : Outgoing) (hout : ∀ m ∈ out, Sent P m.1) :
    ∃ frames, frameAll out = .ok frames
      ∧ ∀ reads : List (List UInt8), reads.flatten = frames.flatten →
        feed tryReadMessage [] reads = (.ok (out.map Prod.fst), []) := by
  obtain ⟨frames, hframes, hstream⟩ :=
    frameAll_ok fun m hm => (hout m hm).fits haead
  refine ⟨frames, hframes, fun reads hreads => ?_⟩
  have hidle : tryReadMessage [] = (.ok none, []) := rfl
  exact feed_frames hidle hstream reads (pending_nil hstream) hreads

/-- A greeting, cover, and a reply. -/
def quietOutgoing : Outgoing :=
  [(.hello ⟨Bytes.zero 32, List.replicate 1184 0, Bytes.zero 32⟩, fun _ => 0),
    (dummySphinxMessage (fun _ => 0) (Bytes.zero 32), fun _ => 0),
    (.sessionReply ⟨Bytes.zero 32, Bytes.zero 32, placeholder⟩, fun _ => 7)]

theorem stream_framing_quietOutgoing :
    ∃ frames, frameAll quietOutgoing = .ok frames
      ∧ ∀ reads : List (List UInt8), reads.flatten = frames.flatten →
        feed tryReadMessage [] reads
          = (.ok (quietOutgoing.map Prod.fst), []) := by
  refine stream_framing .plain Prims.plain_aeadCorrect quietOutgoing ?_
  simp only [quietOutgoing, List.mem_cons, List.not_mem_nil, or_false,
    forall_eq_or_imp, forall_eq]
  exact ⟨.hello _ List.length_replicate, .dummy _ _,
    .sessionReply _ List.length_replicate⟩

end StaticNet
