/-
Onion correctness: a packet built over a route of honest nodes goes
along the route and arrives.

The packet meets each node in whatever state that node is in at that
moment, so the theorem quantifies over one arbitrary state per hop
(`Stop`) and asks only that the state does not already hold the replay
tag of this packet. A route may come through the same node twice: its
two visits are two stops.

The argument is one induction over the layers still to cross. It is
stated once (`relay_delivered`), over any processing function that
reduces to `peel` with the layer's secret; the two versions of the
packet format supply that reduction (`processHybrid_eq_peel`,
`processClassical_eq_peel`).
-/
import StaticNet.Sphinx.Layers

namespace StaticNet

variable {P : Prims}

-- ============ relays

/-- A hop as the packet meets it: the node's state, its KEM secret key,
and what it draws. -/
structure Stop where
  node : MixNode
  kemSecret : List UInt8
  draws : MixDraws

/-- One visit of a packet: how it came in, what the node made of it, and
the node afterwards. -/
structure Visit where
  packet : SphinxPacket
  outcome : Except SphinxError ProcessedPacket
  node : MixNode

/-- Processing in turn: each hop's forwarded packet is the next hop's
incoming one. -/
def relay (process : Stop → SphinxPacket →
      Except SphinxError ProcessedPacket × MixNode) :
    List Stop → SphinxPacket → List Visit
  | [], _ => []
  | stop :: rest, packet =>
      let out := process stop packet
      ⟨packet, out.1, out.2⟩ ::
        match out.1 with
        | .error _ => []
        | .ok processed =>
            match processed.forwardPacket with
            | none => []
            | some fwd => relay process rest fwd

def Stop.processHybrid (P : Prims) (stop : Stop) (packet : SphinxPacket) :
    Except SphinxError ProcessedPacket × MixNode :=
  processPacketHybridWithKeys P stop.node stop.kemSecret packet stop.draws

def Stop.processClassical (P : Prims) (stop : Stop)
    (packet : SphinxPacket) :
    Except SphinxError ProcessedPacket × MixNode :=
  processPacket P stop.node packet stop.draws

/-- The lengths an observer of the wire sees. -/
def SphinxPacket.SameLengths (p q : SphinxPacket) : Prop :=
  p.header.routingInfo.length = q.header.routingInfo.length
    ∧ p.kemCiphertexts.length = q.kemCiphertexts.length
    ∧ p.body.length = q.body.length

/-- A journey as the sender meant it: every hop but the last forwards to
the next one a packet of the lengths that came in, and the last hands
over the body. -/
structure Traversed (ids : List NodeId) (destination : NodeId)
    (body : List UInt8) (visits : List Visit) : Prop where
  every_hop : visits.length = ids.length
  forwards : ∀ i next, ids[i + 1]? = some next →
    ∃ packet fwd node,
      visits[i]? = some ⟨packet, .ok ⟨next, .forward, some fwd, none⟩, node⟩
      ∧ fwd.SameLengths packet
  arrives : ∃ packet node, visits.getLast?
    = some ⟨packet, .ok ⟨destination, .destination, none, some body⟩, node⟩

theorem Traversed.cons {id next : NodeId} {ids : List NodeId}
    {destination : NodeId} {body : List UInt8} {visits : List Visit}
    {packet fwd : SphinxPacket} {node : MixNode}
    (h : Traversed (next :: ids) destination body visits)
    (hlen : fwd.SameLengths packet) :
    Traversed (id :: next :: ids) destination body
      (⟨packet, .ok ⟨next, .forward, some fwd, none⟩, node⟩ :: visits) := by
  refine ⟨by simp [h.every_hop], ?_, ?_⟩
  · intro i id' hi
    cases i with
    | zero =>
        simp only [List.getElem?_cons_succ, List.getElem?_cons_zero,
          Option.some.injEq, Nat.zero_add] at hi
        subst hi
        exact ⟨packet, fwd, node, rfl, hlen⟩
    | succ i => exact h.forwards i id' hi
  · obtain ⟨p, n, hlast⟩ := h.arrives
    exact ⟨p, n, by rw [List.getLast?_cons, hlast]; rfl⟩

-- ===== one induction

/-- The nodes after the packet has been through. -/
def settled (P : Prims) (sessionId : SessionId) (destination : NodeId)
    (matchedSurb : Bool) : List Stop → List Layer → List MixNode
  | [], _ => []
  | _, [] => []
  | stop :: stops, l :: rest =>
      (match rest with
        | [] => stop.node.afterLayer P l sessionId matchedSurb destination
            .destination stop.draws.now
        | next :: _ => stop.node.afterLayer P l sessionId matchedSurb
            next.nodeId .forward stop.draws.now)
        :: settled P sessionId destination matchedSurb stops rest

section Relay

variable {version : UInt8} {sessionId : SessionId} {destination : NodeId}
  {bodyAt : List Layer → List UInt8} {inner : List UInt8} {kemLen : Nat}
  {process : Stop → SphinxPacket →
    Except SphinxError ProcessedPacket × MixNode}
  {Opens : Stop → Layer → Prop}

/-- What a processing function does with a packet whose secret the stop
can open: it peels, and passes the later ciphertexts on. -/
def Reduces (P : Prims) (version : UInt8) (sessionId : SessionId)
    (destination : NodeId) (bodyAt : List Layer → List UInt8)
    (inner : List UInt8) (kemLen : Nat)
    (process : Stop → SphinxPacket →
      Except SphinxError ProcessedPacket × MixNode)
    (Opens : Stop → Layer → Prop) : Prop :=
  ∀ stop l rest packet, Opens stop l →
    InFlight P version sessionId destination bodyAt inner kemLen
      (l :: rest) packet →
    ∃ kemRest,
      process stop packet
        = peel P stop.node l.shared packet kemRest stop.draws
      ∧ (∃ pad, kemRest = (rest.map Layer.ciphertext).flatten ++ pad)
      ∧ kemRest.length = kemLen

/-- A packet in flight over these layers, met at each by a stop that
opens it and has not seen its tag, is delivered. -/
theorem relay_delivered {matchedSurb : Bool} {plaintext : List UInt8}
    (hred : Reduces P version sessionId destination bodyAt inner kemLen
      process Opens)
    {layers : List Layer} {stops : List Stop} {packet : SphinxPacket}
    (hne : layers ≠ [])
    (hopens : List.Forall₂ Opens stops layers)
    (hfresh : List.Forall₂
      (fun stop l => (l.keys P).tag ∉ stop.node.seenTags) stops layers)
    (hmatch : ∀ l rest packet, l :: rest <:+ layers →
      InFlight P version sessionId destination bodyAt inner kemLen
        (l :: rest) packet →
      matchMac P (l.keys P) packet = .ok matchedSurb)
    (hopen : ∀ l, layers.getLast? = some l →
      aeadDecryptBody P (bodyAeadKey P l.shared) inner destination
        = .ok plaintext)
    (hchain : Chained P layers)
    (h : InFlight P version sessionId destination bodyAt inner kemLen
      layers packet) :
    Traversed (layers.map Layer.nodeId) destination plaintext
        (relay process stops packet)
      ∧ (relay process stops packet).map Visit.node
        = settled P sessionId destination matchedSurb stops layers := by
  induction layers generalizing stops packet with
  | nil => exact absurd rfl hne
  | cons l rest ih =>
      cases hopens with
      | cons hs hopens =>
          rename_i stop stops
          cases hfresh with
          | cons hf hfresh =>
              have hm := hmatch l rest packet (List.suffix_refl _) h
              obtain ⟨kemRest, heq, hkem, hkemLen⟩ :=
                hred stop l rest packet hs h
              cases rest with
              | nil =>
                  rw [peel_destination h hm hf (hopen l rfl)] at heq
                  cases hopens
                  simp only [relay, heq]
                  refine ⟨⟨rfl, by simp, _, _, rfl⟩, rfl⟩
              | cons next rest =>
                  obtain ⟨fwd, hpeel, hfwd⟩ := peel_forward
                    (d := stop.draws) h hchain hm hf hkem hkemLen
                  have hrec := ih (List.cons_ne_nil _ _) hopens hfresh
                    (fun l' rest' p hsuf =>
                      hmatch l' rest' p (hsuf.trans (List.suffix_cons _ _)))
                    (fun l' hl' => hopen l' (by
                      rw [List.getLast?_cons, hl']; rfl))
                    hchain.2 hfwd
                  have hlens : fwd.SameLengths packet := by
                    refine ⟨?_, ?_, ?_⟩
                    · rw [hfwd.routing_length, h.routing_length]
                    · rw [hfwd.kem_length, h.kem_length]
                    · rw [hfwd.body_eq, h.body_eq, length_onion,
                        length_onion]
                  simp only [relay, heq, hpeel]
                  refine ⟨hrec.1.cons hlens, ?_⟩
                  rw [List.map_cons, hrec.2]
                  rfl

end Relay

-- ====== two versions

/-- The stop reaches the layer's secret through its two private keys. -/
def OpensHybrid (P : Prims) (stop : Stop) (l : Layer) : Prop :=
  l.ciphertext.length = KEM_CIPHERTEXT_SIZE
    ∧ ∃ kem, P.decapsulateWith stop.kemSecret l.ciphertext = some kem
      ∧ P.hybridSharedSecret (P.pointMul l.alpha stop.node.privateKey) kem
          "sphinx/hybrid-hop" = l.shared

/-- The stop reaches the layer's secret by Diffie-Hellman alone. -/
def OpensClassical (P : Prims) (stop : Stop) (l : Layer) : Prop :=
  P.pointMul l.alpha stop.node.privateKey = l.shared

section Versions

variable {sessionId : SessionId} {destination : NodeId}
  {bodyAt : List Layer → List UInt8} {inner : List UInt8}

theorem processHybrid_eq_peel (hinner : inner.length = WIRE_BODY_SIZE) :
    Reduces P SPHINX_VERSION_HYBRID sessionId destination bodyAt inner
      KEM_BLOCK_SIZE (Stop.processHybrid P) (OpensHybrid P) := by
  intro stop l rest packet hopens h
  obtain ⟨hct, kem, hdec, hshared⟩ := hopens
  obtain ⟨pad, hpad⟩ := h.kem
  rw [List.map_cons, List.flatten_cons, List.append_assoc] at hpad
  have hbody : packet.body.length = WIRE_BODY_SIZE := by
    rw [h.body_eq, length_onion, hinner]
  have htake : packet.kemCiphertexts.take KEM_CIPHERTEXT_SIZE
      = l.ciphertext := by
    rw [hpad, ← hct, List.take_left]
  have hdrop : packet.kemCiphertexts.drop KEM_CIPHERTEXT_SIZE
      = (rest.map Layer.ciphertext).flatten ++ pad := by
    rw [hpad, ← hct, List.drop_left]
  refine ⟨packet.kemCiphertexts.drop KEM_CIPHERTEXT_SIZE
    ++ randomBytes stop.draws.kemPad KEM_CIPHERTEXT_SIZE, ?_, ?_, ?_⟩
  · simp only [Stop.processHybrid, processPacketHybridWithKeys,
      h.version_eq, h.routing_length, hbody, h.kem_length, ne_eq,
      not_true_eq_false, if_false, htake, hdec, h.alpha_eq l rfl, hshared]
  · exact ⟨pad ++ randomBytes stop.draws.kemPad KEM_CIPHERTEXT_SIZE, by
      rw [hdrop, List.append_assoc]⟩
  · rw [List.length_append, List.length_drop, h.kem_length,
      length_randomBytes, KEM_BLOCK_SIZE, MAX_HOPS]
    omega

theorem processClassical_eq_peel (hinner : inner.length = WIRE_BODY_SIZE) :
    Reduces P SPHINX_VERSION_CLASSICAL sessionId destination bodyAt inner
      0 (Stop.processClassical P) (OpensClassical P) := by
  intro stop l rest packet hopens h
  obtain ⟨pad, hpad⟩ := h.kem
  have hnil : packet.kemCiphertexts = [] :=
    List.length_eq_zero_iff.1 h.kem_length
  rw [hnil, List.map_cons, List.flatten_cons, List.append_assoc] at hpad
  have hrest : (rest.map Layer.ciphertext).flatten ++ pad = [] :=
    (List.append_eq_nil_iff.1 hpad.symm).2
  have hbody : packet.body.length = WIRE_BODY_SIZE := by
    rw [h.body_eq, length_onion, hinner]
  have hver : ¬ SPHINX_VERSION_CLASSICAL = SPHINX_VERSION_HYBRID := by
    decide
  refine ⟨[], ?_, ⟨pad, hrest.symm⟩, rfl⟩
  simp only [Stop.processClassical, processPacket, h.version_eq, hver,
    h.routing_length, hbody, ne_eq, not_true_eq_false, if_false,
    h.alpha_eq l rfl]
  rw [hopens]

end Versions

-- ====== honest nodes

/-- A hop of a hybrid route whose keys belong to the node at the stop. -/
structure HonestHybrid (P : Prims) (stop : Stop) (hop : HybridRouteHop) :
    Prop where
  node_id : hop.nodeId = stop.node.nodeId
  public_key : hop.classicalPublicKey = stop.node.publicKey P
  kem_pair : P.KemPair hop.kemPublicKey stop.kemSecret

/-- A hop of a classical route whose key belongs to the node at the
stop. -/
structure HonestClassical (P : Prims) (stop : Stop) (hop : RouteHop) :
    Prop where
  node_id : hop.nodeId = stop.node.nodeId
  public_key : hop.publicKey = stop.node.publicKey P

/-- No stop has seen the tag its layer derives. -/
def FreshTags (P : Prims) (stops : List Stop) (layers : List Layer) :
    Prop :=
  List.Forall₂ (fun stop l => (l.keys P).tag ∉ stop.node.seenTags) stops
    layers

theorem innerBody_length (haead : P.AeadCorrect) {layers : List Layer}
    {destination : NodeId} {body : List UInt8}
    (hbody : body.length ≤ BODY_SIZE) :
    (innerBody P layers destination body).length = WIRE_BODY_SIZE := by
  rw [innerBody, aeadEncryptBody, Prims.encryptAad, haead.length_seal,
    length_padTo hbody, WIRE_BODY_SIZE, Nat.add_comm]

/-- The last hop opens what the sender sealed under its secret. -/
theorem innerBody_opens (haead : P.AeadCorrect) {layers : List Layer}
    {destination : NodeId} {body : List UInt8}
    (hbody : body.length ≤ BODY_SIZE) {l : Layer}
    (hl : layers.getLast? = some l) :
    aeadDecryptBody P (bodyAeadKey P l.shared)
        (innerBody P layers destination body) destination
      = .ok (padTo BODY_SIZE body) := by
  have hlen : (innerBody P layers destination body).length
      = WIRE_BODY_SIZE := innerBody_length haead hbody
  have hshared : lastShared layers = l.shared := by
    rw [lastShared, hl]
    rfl
  simp only [aeadDecryptBody, hlen, ne_eq, not_true_eq_false, if_false]
  simp only [innerBody, hshared, aeadEncryptBody, Prims.encryptAad,
    Prims.decryptAad, haead.open_seal]

/-- A packet just built is in flight over all its layers. -/
theorem InFlight.built (version : UInt8) (d : PacketDraws)
    (destination : NodeId) (bodyAt : List Layer → List UInt8)
    (inner : List UInt8) {layers : List Layer} {kem pad : List UInt8}
    (hmax : layers.length ≤ MAX_HOPS)
    (hkem : kem = (layers.map Layer.ciphertext).flatten ++ pad) :
    InFlight P version d.sessionId destination bodyAt inner kem.length
      layers
      { header := buildHeader P version d destination bodyAt layers
        kemCiphertexts := kem
        body := onion P inner layers } := by
  refine ⟨rfl, rfl, ?_, rfl, ⟨_, rfl⟩, ?_, ⟨pad, hkem⟩, rfl, rfl⟩
  · intro l hl
    simp [buildHeader, hl]
  · have hroom : layers.length * SLOT_SIZE ≤ ROUTING_INFO_SIZE :=
      Nat.mul_le_mul_right _ hmax
    simp only [buildHeader, List.length_append, length_slots_flatten,
      length_randomBytes]
    rw [Nat.mul_comm]
    omega

/-- A packet's MACs cover the bodies its hops see. -/
theorem matchMac_body {version : UInt8} {sessionId : SessionId}
    {destination : NodeId} {inner : List UInt8} {kemLen : Nat} {l : Layer}
    {rest : List Layer} {packet : SphinxPacket}
    (h : InFlight P version sessionId destination (onion P inner) inner
      kemLen (l :: rest) packet) :
    matchMac P (l.keys P) packet = .ok false := by
  rw [matchMac, if_pos]
  rw [h.mac_expected, h.body_eq]

/-- Two lists matched with a third are matched with each other. -/
theorem forall₂_join {α β γ : Type} {R : α → β → Prop} {S : β → γ → Prop}
    {T : α → γ → Prop} {as : List α} {bs : List β} {cs : List γ}
    (hjoin : ∀ a b c, R a b → S b c → T a c)
    (hR : List.Forall₂ R as bs) (hS : List.Forall₂ S bs cs) :
    List.Forall₂ T as cs := by
  induction hR generalizing cs with
  | nil => cases hS; exact .nil
  | cons hr _ ih =>
      cases hS with
      | cons hs htail => exact .cons (hjoin _ _ _ hr hs) (ih htail)

theorem map_nodeId_of_layers {H : Type} {pub : H → Bytes 32}
    {nodeId : H → NodeId}
    {agree : Nat → H → SymmetricKey →
      Except SphinxError (SymmetricKey × List UInt8)}
    {hops : List H} {layers : List Layer}
    (h : List.Forall₂ (LayerOf P pub nodeId agree) hops layers) :
    layers.map Layer.nodeId = hops.map nodeId := by
  induction h with
  | nil => rfl
  | cons hl _ ih => rw [List.map_cons, List.map_cons, hl.1, ih]

/-- Every hop of an honest route belongs to some stop. -/
theorem honest_of_mem {hops : List HybridRouteHop} {stops : List Stop}
    {hop : HybridRouteHop}
    (hhonest : List.Forall₂ (HonestHybrid P) stops hops)
    (hmem : hop ∈ hops) : ∃ stop, HonestHybrid P stop hop := by
  induction hhonest with
  | nil => cases hmem
  | cons hs _ ih =>
      cases hmem with
      | head => exact ⟨_, hs⟩
      | tail _ hmem => exact ih hmem

/-- Encapsulating to honest nodes succeeds, and each of them opens its
layer. -/
theorem hybridLayers_honest (hdh : P.DhCommutes) {d : PacketDraws}
    {hops : List HybridRouteHop} {stops : List Stop}
    (hhonest : List.Forall₂ (HonestHybrid P) stops hops) :
    ∃ layers, hybridLayers P d hops = .ok layers ∧ Chained P layers
      ∧ List.Forall₂ (OpensHybrid P) stops layers
      ∧ layers.map Layer.nodeId = hops.map HybridRouteHop.nodeId := by
  have hagree : ∀ hop ∈ hops, ∀ i dh, ∃ r,
      hybridAgree P d i hop dh = .ok r := by
    intro hop hmem i dh
    obtain ⟨stop, hstop⟩ := honest_of_mem hhonest hmem
    obtain ⟨kem, ct, henc, -⟩ := hstop.kem_pair.inverts (d.coins i)
    exact ⟨(P.hybridSharedSecret dh kem "sphinx/hybrid-hop", ct), by
      simp only [hybridAgree, henc]⟩
  obtain ⟨layers, hlayers⟩ := chainLayers_ok 0
    (P.pointMul BASE_POINT d.scalar) d.scalar hagree
  obtain ⟨-, hchain, hall⟩ := chainLayers_spec hdh rfl hlayers
  refine ⟨layers, hlayers, hchain, ?_, map_nodeId_of_layers hall⟩
  refine forall₂_join ?_ hhonest hall
  rintro stop hop l hstop ⟨-, i, x, halpha, hagreed⟩
  obtain ⟨kem, ct, henc, hdec⟩ := hstop.kem_pair.inverts (d.coins i)
  simp only [hybridAgree, henc, Except.ok.injEq, Prod.mk.injEq] at hagreed
  obtain ⟨hshared, rfl⟩ := hagreed
  have hlen : l.ciphertext.length = KEM_CIPHERTEXT_SIZE := by
    simp only [Prims.encapsulateTo] at henc
    split at henc
    · cases henc
    · obtain ⟨r, -, hr⟩ := Option.map_eq_some_iff.1 henc
      rw [← (Prod.mk.inj hr).2, Bytes.length_toList]
      rfl
  refine ⟨hlen, kem, hdec, ?_⟩
  rw [← hshared, hstop.public_key, halpha, MixNode.publicKey,
    dh_agrees hdh]

/-- Whole ciphertexts and dummies fill the block. -/
theorem length_kemBlock_of {d : PacketDraws} {layers : List Layer}
    (hcts : ∀ l ∈ layers, l.ciphertext.length = KEM_CIPHERTEXT_SIZE)
    (hmax : layers.length ≤ MAX_HOPS) :
    (kemBlock d layers).length = KEM_BLOCK_SIZE := by
  have hsum : (layers.map Layer.ciphertext).flatten.length
      = layers.length * KEM_CIPHERTEXT_SIZE := by
    clear hmax
    induction layers with
    | nil => simp
    | cons l rest ih =>
        rw [List.map_cons, List.flatten_cons, List.length_append,
          ih fun l' hl' => hcts l' (List.mem_cons_of_mem _ hl'),
          hcts l List.mem_cons_self, List.length_cons, Nat.add_mul,
          Nat.one_mul, Nat.add_comm]
  have hroom : layers.length * KEM_CIPHERTEXT_SIZE ≤ KEM_BLOCK_SIZE :=
    Nat.mul_le_mul_right _ hmax
  rw [kemBlock, List.length_append, hsum, length_randomBytes]
  omega

theorem length_kemBlock {d : PacketDraws} {stops : List Stop}
    {layers : List Layer}
    (hopens : List.Forall₂ (OpensHybrid P) stops layers)
    (hmax : layers.length ≤ MAX_HOPS) :
    (kemBlock d layers).length = KEM_BLOCK_SIZE := by
  refine length_kemBlock_of ?_ hmax
  intro l hl
  obtain ⟨i, hi, rfl⟩ := List.getElem_of_mem hl
  have hi' : i < stops.length := hopens.length_eq ▸ hi
  exact (hopens.get hi' hi).1

/-- Building over honest nodes succeeds classically too. -/
theorem classicalLayers_honest (hdh : P.DhCommutes) {d : PacketDraws}
    {hops : List RouteHop} {stops : List Stop}
    (hhonest : List.Forall₂ (HonestClassical P) stops hops) :
    ∃ layers, classicalLayers P d hops = .ok layers ∧ Chained P layers
      ∧ List.Forall₂ (OpensClassical P) stops layers
      ∧ (layers.map Layer.ciphertext).flatten = []
      ∧ layers.map Layer.nodeId = hops.map RouteHop.nodeId := by
  obtain ⟨layers, hlayers⟩ : ∃ layers,
      classicalLayers P d hops = .ok layers :=
    chainLayers_ok 0 (P.pointMul BASE_POINT d.scalar) d.scalar
      fun _ _ _ dh => ⟨(dh, []), rfl⟩
  obtain ⟨-, hchain, hall⟩ := chainLayers_spec hdh rfl hlayers
  refine ⟨layers, hlayers, hchain, ?_, ?_, map_nodeId_of_layers hall⟩
  · refine forall₂_join ?_ hhonest hall
    rintro stop hop l hstop ⟨-, i, x, halpha, hagreed⟩
    simp only [Except.ok.injEq, Prod.mk.injEq] at hagreed
    rw [OpensClassical, ← hagreed.1, hstop.public_key, halpha,
      MixNode.publicKey, dh_agrees hdh]
  · clear hhonest hlayers hchain
    induction hall with
    | nil => rfl
    | cons hl _ ih =>
        obtain ⟨-, _, _, -, hagreed⟩ := hl
        simp only [Except.ok.injEq, Prod.mk.injEq] at hagreed
        rw [List.map_cons, List.flatten_cons, ih, ← hagreed.2,
          List.nil_append]

/-- The size checks on the KEM keys pass. -/
theorem kemKeys_ok {hops : List HybridRouteHop} {stops : List Stop}
    (hhonest : List.Forall₂ (HonestHybrid P) stops hops) :
    (hops.any fun h => h.kemPublicKey.length ≠ KEM_PUBLIC_KEY_SIZE)
      = false := by
  rw [List.any_eq_false]
  intro hop hmem
  obtain ⟨stop, hstop⟩ := honest_of_mem hhonest hmem
  simp [hstop.kem_pair.public_length]

-- ========== delivery

theorem createPacketHybrid_delivered (hdh : P.DhCommutes)
    (haead : P.AeadCorrect) {d : PacketDraws} {route : HybridRoute}
    {body : List UInt8} {stops : List Stop}
    (hpos : 0 < route.hops.length) (hmax : route.hops.length ≤ MAX_HOPS)
    (hbody : body.length ≤ BODY_SIZE)
    (hhonest : List.Forall₂ (HonestHybrid P) stops route.hops)
    (hfresh : ∀ layers, hybridLayers P d route.hops = .ok layers →
      FreshTags P stops layers) :
    ∃ packet, createPacketHybrid P d route body = .ok packet
      ∧ Traversed (route.hops.map HybridRouteHop.nodeId)
          route.destination (padTo BODY_SIZE body)
          (relay (Stop.processHybrid P) stops packet) := by
  obtain ⟨layers, hlayers, hchain, hopens, hids⟩ :=
    hybridLayers_honest hdh (d := d) hhonest
  have hlen : layers.length = route.hops.length := by
    rw [← hopens.length_eq, hhonest.length_eq]
  have hne : layers ≠ [] := by
    rintro rfl
    rw [List.length_nil] at hlen
    omega
  have hfly := InFlight.built (P := P) SPHINX_VERSION_HYBRID d
    route.destination (onion P (innerBody P layers route.destination body))
    (innerBody P layers route.destination body)
    (Nat.le_trans (Nat.le_of_eq hlen) hmax)
    (rfl : kemBlock d layers = _)
  rw [length_kemBlock hopens (by omega)] at hfly
  have hdel := relay_delivered
    (processHybrid_eq_peel (innerBody_length haead hbody)) hne hopens
    (hfresh layers hlayers) (fun _ _ _ _ h => matchMac_body h)
    (fun l hl => innerBody_opens haead hbody hl) hchain hfly
  rw [hids] at hdel
  refine ⟨_, ?_, hdel.1⟩
  simp only [createPacketHybrid, kemKeys_ok hhonest, hlayers]
  rw [if_neg (by omega), if_neg (by omega)]
  simp

theorem createPacket_delivered (hdh : P.DhCommutes)
    (haead : P.AeadCorrect) {d : PacketDraws} {route : Route}
    {body : List UInt8} {stops : List Stop}
    (hpos : 0 < route.hops.length) (hmax : route.hops.length ≤ MAX_HOPS)
    (hbody : body.length ≤ BODY_SIZE)
    (hhonest : List.Forall₂ (HonestClassical P) stops route.hops)
    (hfresh : ∀ layers, classicalLayers P d route.hops = .ok layers →
      FreshTags P stops layers) :
    ∃ packet, createPacket P d route body = .ok packet
      ∧ Traversed (route.hops.map RouteHop.nodeId) route.destination
          (padTo BODY_SIZE body)
          (relay (Stop.processClassical P) stops packet) := by
  obtain ⟨layers, hlayers, hchain, hopens, hct, hids⟩ :=
    classicalLayers_honest hdh (d := d) hhonest
  have hlen : layers.length = route.hops.length := by
    rw [← hopens.length_eq, hhonest.length_eq]
  have hne : layers ≠ [] := by
    rintro rfl
    rw [List.length_nil] at hlen
    omega
  have hkem : [] = (layers.map Layer.ciphertext).flatten ++ [] := by
    rw [hct, List.nil_append]
  have hfly := InFlight.built (P := P) SPHINX_VERSION_CLASSICAL d
    route.destination (onion P (innerBody P layers route.destination body))
    (innerBody P layers route.destination body)
    (Nat.le_trans (Nat.le_of_eq hlen) hmax) hkem
  have hdel := relay_delivered
    (processClassical_eq_peel (innerBody_length haead hbody)) hne hopens
    (hfresh layers hlayers) (fun _ _ _ _ h => matchMac_body h)
    (fun l hl => innerBody_opens haead hbody hl) hchain hfly
  rw [hids] at hdel
  refine ⟨_, ?_, hdel.1⟩
  simp only [createPacket, hlayers]
  rw [if_neg (by omega), if_neg (by omega)]

/-- Every packet over honest nodes is built and is delivered, in both
versions of the format. -/
theorem onion_correct (P : Prims) (hdh : P.DhCommutes)
    (haead : P.AeadCorrect) :
    (∀ (d : PacketDraws) (route : HybridRoute) (body : List UInt8)
        (stops : List Stop),
      0 < route.hops.length → route.hops.length ≤ MAX_HOPS →
      body.length ≤ BODY_SIZE →
      List.Forall₂ (HonestHybrid P) stops route.hops →
      (∀ layers, hybridLayers P d route.hops = .ok layers →
        FreshTags P stops layers) →
      ∃ packet, createPacketHybrid P d route body = .ok packet
        ∧ Traversed (route.hops.map HybridRouteHop.nodeId)
            route.destination (padTo BODY_SIZE body)
            (relay (Stop.processHybrid P) stops packet))
    ∧ (∀ (d : PacketDraws) (route : Route) (body : List UInt8)
        (stops : List Stop),
      0 < route.hops.length → route.hops.length ≤ MAX_HOPS →
      body.length ≤ BODY_SIZE →
      List.Forall₂ (HonestClassical P) stops route.hops →
      (∀ layers, classicalLayers P d route.hops = .ok layers →
        FreshTags P stops layers) →
      ∃ packet, createPacket P d route body = .ok packet
        ∧ Traversed (route.hops.map RouteHop.nodeId) route.destination
            (padTo BODY_SIZE body)
            (relay (Stop.processClassical P) stops packet)) := by
  constructor
  · intro d route body stops hpos hmax hbody hhonest hfresh
    exact createPacketHybrid_delivered hdh haead hpos hmax hbody hhonest
      hfresh
  · intro d route body stops hpos hmax hbody hhonest hfresh
    exact createPacket_delivered hdh haead hpos hmax hbody hhonest hfresh

-- ===== a short route

/-- `HybridMixNode::as_hop`. -/
def Stop.asHop (P : Prims) (kemPublicKey : List UInt8) (stop : Stop) :
    HybridRouteHop where
  nodeId := stop.node.nodeId
  classicalPublicKey := stop.node.publicKey P
  kemPublicKey := kemPublicKey

/-- A new node that draws zeros. -/
def quietStop (privateKey : Scalar) (id : UInt8) : Stop where
  node := MixNode.new privateKey (Bytes.fill 16 id)
  kemSecret := List.replicate 2400 0
  draws := ⟨fun _ => 0, fun _ => 0, 0⟩

def quietDraws : PacketDraws where
  sessionId := Bytes.fill 32 7
  scalar := 5
  coins := fun _ => Bytes.fill 32 8
  kemPad := fun _ => 0
  routingPad := fun _ => 0

/-- New nodes have seen no tag. -/
theorem freshTags_new {stops : List Stop} {layers : List Layer}
    (hlen : stops.length = layers.length)
    (hnew : ∀ stop ∈ stops, stop.node.seenTags = ∅) :
    FreshTags P stops layers := by
  induction stops generalizing layers with
  | nil =>
      cases layers with
      | nil => exact .nil
      | cons l rest => cases hlen
  | cons stop stops ih =>
      cases layers with
      | nil => cases hlen
      | cons l rest =>
          refine .cons ?_ (ih (by simpa using hlen)
            fun s hs => hnew s (List.mem_cons_of_mem _ hs))
          rw [hnew stop List.mem_cons_self]
          exact Finset.notMem_empty _

theorem honest_asHop {publicKey : List UInt8} {stops : List Stop}
    (hpair : ∀ stop ∈ stops, P.KemPair publicKey stop.kemSecret) :
    List.Forall₂ (HonestHybrid P) stops
      (stops.map (Stop.asHop P publicKey)) := by
  induction stops with
  | nil => exact .nil
  | cons stop stops ih =>
      exact .cons ⟨rfl, rfl, hpair stop List.mem_cons_self⟩
        (ih fun s hs => hpair s (List.mem_cons_of_mem _ hs))

/-- Two nodes the packet has not met. -/
def quietRoute : List Stop := [quietStop 3 1, quietStop 4 2]

theorem onion_correct_quietRoute :
    ∃ packet,
      createPacketHybrid .plain quietDraws
          ⟨quietRoute.map (Stop.asHop .plain (List.replicate 1184 0)),
            Bytes.fill 16 2⟩ [1, 2, 3] = .ok packet
        ∧ Traversed [Bytes.fill 16 1, Bytes.fill 16 2] (Bytes.fill 16 2)
            (padTo BODY_SIZE [1, 2, 3])
            (relay (Stop.processHybrid .plain) quietRoute packet) := by
  have hhonest : List.Forall₂ (HonestHybrid .plain) quietRoute
      (quietRoute.map (Stop.asHop .plain (List.replicate 1184 0))) := by
    apply honest_asHop
    simp only [quietRoute, List.mem_cons, List.not_mem_nil, or_false,
      forall_eq_or_imp, forall_eq, quietStop]
    exact ⟨Prims.plain_kemPair List.length_replicate List.length_replicate,
      Prims.plain_kemPair List.length_replicate List.length_replicate⟩
  refine (onion_correct .plain plain_dhCommutes Prims.plain_aeadCorrect).1
    quietDraws ⟨_, _⟩ [1, 2, 3] quietRoute (Nat.succ_pos _)
    (by decide) (by decide) hhonest ?_
  intro layers hlayers
  obtain ⟨layers', hlayers', -, hopens, -⟩ :=
    hybridLayers_honest plain_dhCommutes (d := quietDraws) hhonest
  rw [hlayers', Except.ok.injEq] at hlayers
  subst hlayers
  refine freshTags_new hopens.length_eq ?_
  intro stop hstop
  simp only [quietRoute, List.mem_cons, List.not_mem_nil, or_false]
    at hstop
  rcases hstop with rfl | rfl <;> rfl

end StaticNet
