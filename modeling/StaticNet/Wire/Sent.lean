/-
What a node puts on the wire, and how long it is.

A hybrid packet has one size from its building to its last hop: the
slots and the KEM ciphertexts are filled up to fixed blocks, a hop that
shifts a block fills it up again, and the body's layers are streams. So
packets built, wrapped for a reply block, forwarded or made up as cover
are all `Sized`, and `Sent` collects them with the handshake messages
and the session replies.
-/
import StaticNet.Routing.Basic
import StaticNet.Sphinx.Surb
import StaticNet.Wire.Basic

namespace StaticNet

/-- The sizes of a hybrid packet. -/
structure SphinxPacket.Sized (packet : SphinxPacket) : Prop where
  version_eq : packet.header.version = SPHINX_VERSION_HYBRID
  routing_length : packet.header.routingInfo.length = ROUTING_INFO_SIZE
  kem_length : packet.kemCiphertexts.length = KEM_BLOCK_SIZE
  body_length : packet.body.length = WIRE_BODY_SIZE

variable {P : Prims}

-- ============= built

/-- The layers of a hybrid chain: one per hop and in its name, each with a
whole ciphertext. -/
theorem chainLayers_sized {H : Type} {pub : H → Bytes 32}
    {nodeId : H → NodeId}
    {agree : Nat → H → SymmetricKey →
      Except SphinxError (SymmetricKey × List UInt8)}
    (hagree : ∀ i hop dh shared ciphertext,
      agree i hop dh = .ok (shared, ciphertext) →
      ciphertext.length = KEM_CIPHERTEXT_SIZE)
    {hops : List H} {i : Nat} {alpha : Bytes 32} {x : Scalar}
    {layers : List Layer}
    (h : chainLayers P pub nodeId agree i alpha x hops = .ok layers) :
    layers.map Layer.nodeId = hops.map nodeId
      ∧ ∀ l ∈ layers, l.ciphertext.length = KEM_CIPHERTEXT_SIZE := by
  induction hops generalizing i alpha x layers with
  | nil =>
      simp only [chainLayers, Except.ok.injEq] at h
      subst h
      exact ⟨rfl, by simp⟩
  | cons hop rest ih =>
      rw [chainLayers] at h
      cases hr : agree i hop (P.pointMul (pub hop) x) with
      | error e => simp [hr] at h
      | ok r =>
          obtain ⟨shared, ct⟩ := r
          simp only [hr] at h
          cases hrest : chainLayers P pub nodeId agree (i + 1)
              (P.pointMul alpha (blindingFactor P shared))
              (x * blindingFactor P shared) rest with
          | error e => simp [hrest] at h
          | ok tail =>
              simp only [hrest, Except.ok.injEq] at h
              subst h
              obtain ⟨hids, hall⟩ := ih hrest
              refine ⟨by rw [List.map_cons, hids, List.map_cons], ?_⟩
              intro l hl
              rcases List.mem_cons.1 hl with rfl | hl
              · exact hagree i hop _ shared ct hr
              · exact hall l hl

theorem hybridLayers_sized {d : PacketDraws} {hops : List HybridRouteHop}
    {layers : List Layer} (h : hybridLayers P d hops = .ok layers) :
    layers.map Layer.nodeId = hops.map HybridRouteHop.nodeId
      ∧ ∀ l ∈ layers, l.ciphertext.length = KEM_CIPHERTEXT_SIZE := by
  refine chainLayers_sized ?_ h
  intro i hop dh shared ciphertext hagree
  unfold hybridAgree Prims.encapsulateTo at hagree
  split at hagree
  · cases hagree
  · rename_i kem ct henc
    rw [Except.ok.injEq, Prod.mk.injEq] at hagree
    split at henc
    · cases henc
    · cases hk : P.kyberEncapsulate (Bytes.ofList 1184 hop.kemPublicKey)
          (d.coins i) with
      | none =>
          rw [hk] at henc
          cases henc
      | some r =>
          rw [hk, Option.map_some, Option.some.injEq,
            Prod.mk.injEq] at henc
          rw [← hagree.2, ← henc.2]
          exact r.1.length_toList

theorem buildHeader_routing_length {version : UInt8} {d : PacketDraws}
    {destination : NodeId} {bodyAt : List Layer → List UInt8}
    {layers : List Layer} (hmax : layers.length ≤ MAX_HOPS) :
    (buildHeader P version d destination bodyAt
      layers).routingInfo.length = ROUTING_INFO_SIZE :=
  (InFlight.built (P := P) version d destination bodyAt [] hmax
    (rfl : kemBlock d layers = _)).routing_length

theorem createPacketHybrid_sized (haead : P.AeadCorrect) {d : PacketDraws}
    {route : HybridRoute} {body : List UInt8} {packet : SphinxPacket}
    (h : createPacketHybrid P d route body = .ok packet) :
    packet.Sized := by
  unfold createPacketHybrid at h
  by_cases hhops : route.hops.length = 0 ∨ MAX_HOPS < route.hops.length
  · rw [if_pos hhops] at h
    cases h
  rw [if_neg hhops] at h
  by_cases hbody : BODY_SIZE < body.length
  · rw [if_pos hbody] at h
    cases h
  rw [if_neg hbody] at h
  split at h
  · cases h
  cases hlayers : hybridLayers P d route.hops with
  | error e =>
      rw [hlayers] at h
      cases h
  | ok layers =>
      rw [hlayers] at h
      obtain ⟨hids, hcts⟩ := hybridLayers_sized hlayers
      have hlen := congrArg List.length hids
      rw [List.length_map, List.length_map] at hlen
      have hmax : layers.length ≤ MAX_HOPS := by omega
      obtain rfl := Except.ok.inj h
      refine ⟨rfl, buildHeader_routing_length hmax,
        length_kemBlock_of hcts hmax, ?_⟩
      rw [length_onion]
      exact innerBody_length haead (Nat.not_lt.1 hbody)

-- =========== wrapped

theorem length_wrapBody (keys : List SymmetricKey) (sealed : List UInt8) :
    (wrapBody P keys sealed).length = sealed.length := by
  induction keys with
  | nil => rfl
  | cons key keys ih =>
      rw [wrapBody, List.foldr_cons, length_xorBody]
      exact ih

/-- A hybrid block that was read has whole blocks. -/
theorem Surb.deserialize_sized {data : List UInt8} {surb : Surb}
    (h : Surb.deserialize data = .ok surb)
    (hver : surb.header.version = SPHINX_VERSION_HYBRID) :
    surb.kemCiphertexts.length = KEM_BLOCK_SIZE
      ∧ surb.header.routingInfo.length = ROUTING_INFO_SIZE := by
  unfold Surb.deserialize at h
  split at h
  · cases h
  dsimp only at h
  split at h
  · cases h
  split at h
  · cases h
  rename_i hkem
  split at h
  · cases h
  rename_i hblock
  split at h
  · cases h
  rename_i hrouting
  split at h
  · cases h
  split at h
  · cases h
  obtain rfl := Except.ok.inj h
  rw [not_or, Nat.not_lt, Nat.not_lt] at hkem
  dsimp only at hver
  have hlen : ofBeBytes ((((data.drop 1).drop 32).drop 32).take 4)
      = KEM_BLOCK_SIZE := by
    by_contra hne
    exact hblock ⟨hver, hne⟩
  dsimp only
  rw [List.length_take, List.length_take]
  omega

theorem wrapWithSurbHybrid_sized (haead : P.AeadCorrect)
    {data payload : List UInt8} {surb : Surb} {packet : SphinxPacket}
    (hread : Surb.deserialize data = .ok surb)
    (h : wrapWithSurbHybrid P surb payload = .ok packet) :
    packet.Sized := by
  unfold wrapWithSurbHybrid at h
  by_cases hver : surb.header.version = SPHINX_VERSION_HYBRID
  · rw [if_neg (not_ne_iff.2 hver)] at h
    by_cases hbig : BODY_SIZE < payload.length
    · rw [if_pos hbig] at h
      cases h
    · rw [if_neg hbig] at h
      obtain ⟨hkem, hrouting⟩ := Surb.deserialize_sized hread hver
      obtain rfl := Except.ok.inj h
      refine ⟨hver, hrouting, hkem, ?_⟩
      rw [length_wrapBody, aeadEncryptBody, Prims.encryptAad,
        haead.length_seal, length_padTo (Nat.not_lt.1 hbig),
        WIRE_BODY_SIZE, Nat.add_comm]
  · rw [if_pos hver] at h
    cases h

-- ========= forwarded

/-- What a hop passes on, field by field: the ephemeral key and the MAC
apart, each is the field it got, shifted or one layer lighter. -/
structure Passed (P : Prims) (shared : SymmetricKey) (d : MixDraws)
    (kemRest : List UInt8) (packet fwd : SphinxPacket) : Prop where
  version_eq : fwd.header.version = packet.header.version
  session_eq : fwd.header.sessionId = packet.header.sessionId
  routing_eq : fwd.header.routingInfo
    = packet.header.routingInfo.drop SLOT_SIZE
      ++ randomBytes d.routingPad SLOT_SIZE
  kem_eq : fwd.kemCiphertexts = kemRest
  body_eq : fwd.body
    = xorBody P (deriveHopKeys P shared).bodyKey packet.body

theorem deliver_forward {shared : SymmetricKey} {packet fwd : SphinxPacket}
    {kemRest : List UInt8} {d : MixDraws} {nextHop : NodeId}
    {flag : RoutingFlag} {nextMac : Mac} {res : ProcessedPacket}
    (h : deliver P shared packet kemRest d nextHop flag nextMac = .ok res)
    (hfwd : res.forwardPacket = some fwd) :
    Passed P shared d kemRest packet fwd := by
  cases flag with
  | destination =>
      unfold deliver at h
      dsimp only at h
      split at h
      · cases h
      · obtain rfl := Except.ok.inj h
        cases hfwd
  | forward =>
      obtain rfl := Except.ok.inj h
      obtain rfl := Option.some.inj hfwd
      exact ⟨rfl, rfl, rfl, rfl, rfl⟩

theorem peel_forwardPacket {node node' : MixNode} {shared : SymmetricKey}
    {packet fwd : SphinxPacket} {kemRest : List UInt8} {d : MixDraws}
    {res : ProcessedPacket}
    (h : peel P node shared packet kemRest d = (.ok res, node'))
    (hfwd : res.forwardPacket = some fwd) :
    Passed P shared d kemRest packet fwd := by
  unfold peel at h
  dsimp only at h
  cases hmac : matchMac P (deriveHopKeys P shared) packet with
  | error e =>
      rw [hmac] at h
      cases h
  | ok surb =>
      rw [hmac] at h
      dsimp only at h
      split at h
      · cases h
      · generalize RoutingFlag.ofByte _ = parsed at h
        cases parsed with
        | error e => cases h
        | ok flag => exact deliver_forward (congrArg Prod.fst h) hfwd

/-- A hybrid packet that is forwarded had its sizes. -/
theorem processPacketHybrid_forward {node node' : MixNode}
    {kemSecret : List UInt8} {packet fwd : SphinxPacket} {d : MixDraws}
    {res : ProcessedPacket}
    (h : processPacketHybridWithKeys P node kemSecret packet d
      = (.ok res, node'))
    (hfwd : res.forwardPacket = some fwd) :
    packet.Sized ∧ ∃ shared, Passed P shared d
      (packet.kemCiphertexts.drop KEM_CIPHERTEXT_SIZE
        ++ randomBytes d.kemPad KEM_CIPHERTEXT_SIZE) packet fwd := by
  unfold processPacketHybridWithKeys at h
  by_cases hver : packet.header.version = SPHINX_VERSION_HYBRID
  · by_cases hrouting : packet.header.routingInfo.length = ROUTING_INFO_SIZE
    · by_cases hbody : packet.body.length = WIRE_BODY_SIZE
      · by_cases hkem : packet.kemCiphertexts.length = KEM_BLOCK_SIZE
        · simp only [hver, hrouting, hbody, hkem, ne_eq, not_true_eq_false,
            if_false] at h
          cases hdec : P.decapsulateWith kemSecret
              (packet.kemCiphertexts.take KEM_CIPHERTEXT_SIZE) with
          | none =>
              rw [hdec] at h
              cases h
          | some kem =>
              rw [hdec] at h
              exact ⟨⟨hver, hrouting, hkem, hbody⟩, _,
                peel_forwardPacket h hfwd⟩
        · simp [hver, hrouting, hbody, hkem] at h
      · simp [hver, hrouting, hbody] at h
    · simp [hver, hrouting] at h
  · simp [hver] at h

/-- It still has them when it leaves. -/
theorem Passed.sized {shared : SymmetricKey} {d : MixDraws}
    {packet fwd : SphinxPacket} (h : packet.Sized)
    (hp : Passed P shared d
      (packet.kemCiphertexts.drop KEM_CIPHERTEXT_SIZE
        ++ randomBytes d.kemPad KEM_CIPHERTEXT_SIZE) packet fwd) :
    fwd.Sized := by
  refine ⟨hp.version_eq.trans h.version_eq, ?_, ?_, ?_⟩
  · rw [hp.routing_eq, List.length_append, List.length_drop,
      h.routing_length, length_randomBytes]
    decide
  · rw [hp.kem_eq, List.length_append, List.length_drop, h.kem_length,
      length_randomBytes]
    decide
  · rw [hp.body_eq, length_xorBody, h.body_length]

-- ============= cover

/-- Bytes cut up in the shape of a hybrid packet. -/
def dummyPacket (dummy : List UInt8) (sessionId : SessionId) :
    SphinxPacket :=
  let routingEnd := 32 + ROUTING_INFO_SIZE
  let macEnd := routingEnd + 16
  { header :=
      { version := SPHINX_VERSION_HYBRID
        ephemeralKey := Bytes.ofList 32 (slice dummy 0 32)
        sessionId := sessionId
        routingInfo := slice dummy 32 ROUTING_INFO_SIZE
        mac := Bytes.ofList 16 (slice dummy routingEnd 16) }
    kemCiphertexts := slice dummy macEnd KEM_BLOCK_SIZE
    body := dummy.drop (macEnd + KEM_BLOCK_SIZE) }

/-- `dummy_sphinx_message`: random bytes in the shape of a packet. -/
def dummySphinxMessage (src : Nat → UInt8) (sessionId : SessionId) :
    WireMessage :=
  let fixed := 32 + ROUTING_INFO_SIZE + 16 + WIRE_BODY_SIZE
  .sphinx (dummyPacket
    (randomBytes src (max (fixed + KEM_BLOCK_SIZE) 32)) sessionId)

/-- `valid_cover_message`: a packet through the peer and two made-up
nodes to nowhere, when the peer's KEM key is known. -/
def validCoverMessage (P : Prims) (d : PacketDraws) (table : RoutingTable)
    (peerId : NodeId) (r1 r2 : HybridRouteHop) (destination : NodeId)
    (src : Nat → UInt8) : Option WireMessage :=
  match table.getNode peerId with
  | none => none
  | some peer =>
      match peer.kemPublicKey with
      | none => none
      | some kem =>
          if kem.length ≠ KEM_PUBLIC_KEY_SIZE then none
          else
            match createPacketHybrid P d
                ⟨[⟨peer.nodeId, peer.publicKey, kem⟩, r1, r2], destination⟩
                (randomBytes src BODY_SIZE) with
            | .error _ => none
            | .ok packet => some (.sphinx packet)

theorem dummyPacket_sized {dummy : List UInt8} (sessionId : SessionId)
    (hlen : dummy.length = 32 + ROUTING_INFO_SIZE + 16 + WIRE_BODY_SIZE
      + KEM_BLOCK_SIZE) :
    (dummyPacket dummy sessionId).Sized := by
  refine ⟨rfl, ?_, ?_, ?_⟩
  · rw [dummyPacket]
    exact length_slice (by omega)
  · rw [dummyPacket]
    exact length_slice (by omega)
  · rw [dummyPacket, List.length_drop, hlen]
    omega

theorem validCoverMessage_sized (haead : P.AeadCorrect) {d : PacketDraws}
    {table : RoutingTable} {peerId : NodeId} {r1 r2 : HybridRouteHop}
    {destination : NodeId} {src : Nat → UInt8} {msg : WireMessage}
    (h : validCoverMessage P d table peerId r1 r2 destination src
      = some msg) :
    ∃ packet, msg = .sphinx packet ∧ packet.Sized := by
  unfold validCoverMessage at h
  cases hget : table.getNode peerId with
  | none =>
      rw [hget] at h
      cases h
  | some peer =>
      rw [hget] at h
      cases hkem : peer.kemPublicKey with
      | none =>
          simp only [hkem] at h
          cases h
      | some kem =>
          simp only [hkem] at h
          split at h
          · cases h
          · cases hpacket : createPacketHybrid P d
                ⟨[⟨peer.nodeId, peer.publicKey, kem⟩, r1, r2], destination⟩
                (randomBytes src BODY_SIZE) with
            | error e =>
                rw [hpacket] at h
                cases h
            | ok packet =>
                rw [hpacket] at h
                exact ⟨packet, (Option.some.inj h).symm,
                  createPacketHybrid_sized haead hpacket⟩

-- ========== messages

/-- A message a node sends on an opening or an established connection. -/
inductive Sent (P : Prims) : WireMessage → Prop
  | hello (h : Hello) :
      h.ephKemPubKey.length = KEM_PUBLIC_KEY_SIZE → Sent P (.hello h)
  | welcome (w : Welcome) :
      w.ephKemPubKey.length = KEM_PUBLIC_KEY_SIZE →
      w.kemCiphertext.length = KEM_CIPHERTEXT_SIZE → Sent P (.welcome w)
  | authIdentity (secret : SymmetricKey) (nonce : NonceBytes)
      (hs : Handshake) (kem aad : List UInt8) :
      hs.kemPublicKey = some kem → kem.length = KEM_PUBLIC_KEY_SIZE →
      Sent P (.authIdentity (encryptIdentity P secret nonce hs aad))
  | built {d : PacketDraws} {route : HybridRoute} {body : List UInt8}
      {packet : SphinxPacket} :
      createPacketHybrid P d route body = .ok packet →
      Sent P (.sphinx packet)
  | wrapped {data payload : List UInt8} {surb : Surb}
      {packet : SphinxPacket} :
      Surb.deserialize data = .ok surb →
      wrapWithSurbHybrid P surb payload = .ok packet →
      Sent P (.sphinx packet)
  | forwarded {node node' : MixNode} {kemSecret : List UInt8}
      {packet fwd : SphinxPacket} {d : MixDraws} {res : ProcessedPacket} :
      processPacketHybridWithKeys P node kemSecret packet d
        = (.ok res, node') →
      res.forwardPacket = some fwd → Sent P (.sphinx fwd)
  | cover {d : PacketDraws} {table : RoutingTable} {peerId : NodeId}
      {r1 r2 : HybridRouteHop} {destination : NodeId} {src : Nat → UInt8}
      {msg : WireMessage} :
      validCoverMessage P d table peerId r1 r2 destination src
        = some msg → Sent P msg
  | dummy (src : Nat → UInt8) (sessionId : SessionId) :
      Sent P (dummySphinxMessage src sessionId)
  | sessionReply (reply : SessionReply) :
      reply.body.length = WIRE_BODY_SIZE → Sent P (.sessionReply reply)

/-- The sizes of a message's parts. -/
def WireMessage.Fits : WireMessage → Prop
  | .handshake _ => False
  | .hello h => h.ephKemPubKey.length = KEM_PUBLIC_KEY_SIZE
  | .welcome w => w.ephKemPubKey.length = KEM_PUBLIC_KEY_SIZE
      ∧ w.kemCiphertext.length = KEM_CIPHERTEXT_SIZE
  | .authIdentity enc =>
      enc.ciphertext.length ≠ 0 ∧ enc.ciphertext.length ≤ 4096
  | .sphinx packet => packet.Sized
  | .sessionReply reply => reply.body.length = WIRE_BODY_SIZE

theorem encryptIdentity_fits (haead : P.AeadCorrect)
    {secret : SymmetricKey} {nonce : NonceBytes} {hs : Handshake}
    {kem aad : List UInt8} (hkem : hs.kemPublicKey = some kem)
    (hlen : kem.length = KEM_PUBLIC_KEY_SIZE) :
    (WireMessage.authIdentity
      (encryptIdentity P secret nonce hs aad)).Fits := by
  have hct : (encryptIdentity P secret nonce hs aad).ciphertext.length
      = 1380 := by
    rw [encryptIdentity, Prims.encryptAad, haead.length_seal]
    simp [serializeHandshake, hkem, hlen, KEM_PUBLIC_KEY_SIZE]
  constructor <;> omega

theorem Sent.fits (haead : P.AeadCorrect) {msg : WireMessage}
    (h : Sent P msg) : msg.Fits := by
  cases h with
  | hello h hkem => exact hkem
  | welcome w hkem hct => exact ⟨hkem, hct⟩
  | authIdentity secret nonce hs kem aad hkem hlen =>
      exact encryptIdentity_fits haead hkem hlen
  | built h => exact createPacketHybrid_sized haead h
  | wrapped hread h => exact wrapWithSurbHybrid_sized haead hread h
  | forwarded h hfwd =>
      obtain ⟨hsized, shared, hp⟩ := processPacketHybrid_forward h hfwd
      exact hp.sized hsized
  | cover h =>
      obtain ⟨packet, rfl, hsized⟩ := validCoverMessage_sized haead h
      exact hsized
  | dummy src sessionId =>
      refine dummyPacket_sized sessionId ?_
      rw [length_randomBytes]
      omega
  | sessionReply reply hbody => exact hbody

/-- A session reply that is passed on keeps its id and its nonce. -/
theorem processSessionReply_kept {node node' : MixNode}
    {reply : SessionReply} {now : Nat} {res : SessionReplyResult}
    (h : processSessionReply P node reply now = (.ok res, node')) :
    reply.body.length = WIRE_BODY_SIZE
      ∧ res.reply.body.length = WIRE_BODY_SIZE
      ∧ res.reply.sessionId = reply.sessionId
      ∧ res.reply.nonce = reply.nonce := by
  unfold processSessionReply at h
  by_cases hbody : reply.body.length = WIRE_BODY_SIZE
  · rw [if_neg (not_ne_iff.2 hbody)] at h
    cases hget : node.sessionCache.get reply.sessionId with
    | none =>
        rw [hget] at h
        cases h
    | some session =>
        rw [hget] at h
        dsimp only at h
        split at h
        · cases h
        · split at h
          · cases h
          · obtain rfl := Except.ok.inj (congrArg Prod.fst h)
            exact ⟨hbody, (length_xorBody _ _).trans hbody, rfl, rfl⟩
  · rw [if_pos hbody] at h
    cases h

/-- A session reply that is forwarded is one that is sent. -/
theorem processSessionReply_sent {node node' : MixNode}
    {reply : SessionReply} {now : Nat} {res : SessionReplyResult}
    (h : processSessionReply P node reply now = (.ok res, node')) :
    Sent P (.sessionReply res.reply) :=
  .sessionReply _ (processSessionReply_kept h).2.1

end StaticNet
