/-
Layer by layer: what one hop does to a packet its sender built.

The sender's side is a list of `Layer`s; a packet on its way is
described by the suffix of layers it still has to cross (`InFlight`).
Every hop takes the head of that list off: `peel_forward` when something
is left, `peel_destination` when nothing is. Both are stated for any way
the MAC can match, so packets (whose MACs cover the body) and reply
blocks (whose MACs cover the placeholder) share them.

The two routes to one secret meet in `chainLayers_spec`: the sender
multiplies the hop's public key by its running scalar, the hop
multiplies the blinded base point by its private key, and both are the
base point times the product.
-/
import StaticNet.Sphinx.Process

namespace StaticNet

variable {P : Prims}

-- ============= sizes

@[simp] theorem length_slotKeystream (key : SymmetricKey) :
    (slotKeystream P key).length = SLOT_SIZE := by
  simp [slotKeystream, SLOT_SIZE, NODE_ID_SIZE, FLAG_SIZE, MAC_SIZE]

theorem length_xorSlot {key : SymmetricKey} {slot : List UInt8}
    (h : slot.length = SLOT_SIZE) :
    (xorSlot P key slot).length = SLOT_SIZE := by
  rw [xorSlot, length_xorBytes (by rw [length_slotKeystream, h]), h]

theorem xorSlot_xorSlot {key : SymmetricKey} {slot : List UInt8}
    (h : slot.length = SLOT_SIZE) :
    xorSlot P key (xorSlot P key slot) = slot := by
  exact xorBytes_xorBytes (by rw [length_slotKeystream, h])

/-- A stream of whole blocks is long enough for what is cut from it. -/
@[simp] theorem length_bodyKeystream (key : SymmetricKey) (len : Nat) :
    (bodyKeystream P key len).length = len := by
  have hblocks : ∀ n,
      ((List.range n).flatMap fun i =>
        (P.derive key ("sphinx/body:" ++ toString i)).toList).length
        = 32 * n := by
    intro n
    induction n with
    | zero => rfl
    | succ n ih =>
        rw [List.range_succ, List.flatMap_append, List.length_append, ih]
        simp
        omega
  rw [bodyKeystream, List.length_take, hblocks]
  omega

@[simp] theorem length_xorBody (key : SymmetricKey) (body : List UInt8) :
    (xorBody P key body).length = body.length := by
  rw [xorBody, length_xorBytes (by rw [length_bodyKeystream])]

/-- Peeling undoes wrapping. -/
@[simp] theorem xorBody_xorBody (key : SymmetricKey) (body : List UInt8) :
    xorBody P key (xorBody P key body) = body := by
  rw [xorBody, length_xorBody, xorBody]
  exact xorBytes_xorBytes (by rw [length_bodyKeystream])

@[simp] theorem length_onion (inner : List UInt8) (layers : List Layer) :
    (onion P inner layers).length = inner.length := by
  induction layers with
  | nil => rfl
  | cons l rest ih => rw [onion, length_xorBody, ih]

@[simp] theorem length_routingBlock (next : NodeId) (flag : RoutingFlag)
    (mac : Mac) : (routingBlock next flag mac).length = SLOT_SIZE := by
  simp [routingBlock, SLOT_SIZE, NODE_ID_SIZE, FLAG_SIZE, MAC_SIZE]

-- ==== reading a block

@[simp] theorem RoutingFlag.ofByte_toByte (flag : RoutingFlag) :
    RoutingFlag.ofByte flag.toByte = .ok flag := by
  cases flag <;> rfl

theorem routingBlock_next (next : NodeId) (flag : RoutingFlag)
    (mac : Mac) :
    Bytes.ofList 16 (slice (routingBlock next flag mac) 0 NODE_ID_SIZE)
      = next := by
  rw [routingBlock, List.append_assoc, slice_here]
  · exact Bytes.ofList_toList next
  · exact next.length_toList

theorem routingBlock_flag (next : NodeId) (flag : RoutingFlag)
    (mac : Mac) :
    (routingBlock next flag mac).getD NODE_ID_SIZE 0 = flag.toByte := by
  have hlen : next.toList.length = NODE_ID_SIZE := next.length_toList
  rw [routingBlock, List.append_assoc, ← hlen]
  simp

theorem routingBlock_mac (next : NodeId) (flag : RoutingFlag)
    (mac : Mac) :
    Bytes.ofList 16 (slice (routingBlock next flag mac)
      (NODE_ID_SIZE + FLAG_SIZE) MAC_SIZE) = mac := by
  have hlen : (next.toList ++ [flag.toByte]).length
      = NODE_ID_SIZE + FLAG_SIZE := by
    simp [NODE_ID_SIZE, FLAG_SIZE]
  rw [routingBlock, slice_skip (Nat.le_of_eq hlen), hlen, Nat.sub_self,
    slice_all (show mac.toList.length = MAC_SIZE from mac.length_toList)]
  exact Bytes.ofList_toList mac

-- ========= the slots

/-- The routing block of the first of these layers. -/
def headBlock (P : Prims) (version : UInt8) (sessionId : SessionId)
    (destination : NodeId) (bodyAt : List Layer → List UInt8)
    (rest : List Layer) : List UInt8 :=
  match rest with
  | [] => routingBlock destination .destination (Bytes.zero 16)
  | next :: _ => routingBlock next.nodeId .forward
      (buildSlots P version sessionId destination bodyAt rest).2

section Slots

variable (P) (version : UInt8) (sessionId : SessionId)
  (destination : NodeId) (bodyAt : List Layer → List UInt8)

/-- The slot of the first of these layers. -/
def headSlot (l : Layer) (rest : List Layer) : List UInt8 :=
  xorSlot P (l.keys P).streamKey
    (headBlock P version sessionId destination bodyAt rest)

theorem length_headBlock (rest : List Layer) :
    (headBlock P version sessionId destination bodyAt rest).length
      = SLOT_SIZE := by
  cases rest <;> simp [headBlock]

theorem length_headSlot (l : Layer) (rest : List Layer) :
    (headSlot P version sessionId destination bodyAt l rest).length
      = SLOT_SIZE :=
  length_xorSlot (length_headBlock ..)

theorem buildSlots_cons (l : Layer) (rest : List Layer) :
    buildSlots P version sessionId destination bodyAt (l :: rest)
      = (headSlot P version sessionId destination bodyAt l rest
          :: (buildSlots P version sessionId destination bodyAt rest).1,
        computeMac P (l.keys P).macKey version l.alpha sessionId
          (headSlot P version sessionId destination bodyAt l rest)
          (bodyAt (l :: rest))) := by
  cases rest <;> rfl

theorem length_slots_flatten (layers : List Layer) :
    (buildSlots P version sessionId destination bodyAt
      layers).1.flatten.length = SLOT_SIZE * layers.length := by
  induction layers with
  | nil => rfl
  | cons l rest ih =>
      rw [buildSlots_cons, List.flatten_cons, List.length_append, ih,
        length_headSlot, List.length_cons, Nat.mul_add, Nat.mul_one,
        Nat.add_comm]

end Slots

-- ==== packets in flight

/-- What a packet looks like before it enters the first of `layers`. -/
structure InFlight (P : Prims) (version : UInt8) (sessionId : SessionId)
    (destination : NodeId) (bodyAt : List Layer → List UInt8)
    (inner : List UInt8) (kemLen : Nat) (layers : List Layer)
    (packet : SphinxPacket) : Prop where
  version_eq : packet.header.version = version
  session_eq : packet.header.sessionId = sessionId
  alpha_eq : ∀ l, layers.head? = some l →
    packet.header.ephemeralKey = l.alpha
  mac_eq : packet.header.mac
    = (buildSlots P version sessionId destination bodyAt layers).2
  routing : ∃ pad, packet.header.routingInfo
    = (buildSlots P version sessionId destination bodyAt
        layers).1.flatten ++ pad
  routing_length : packet.header.routingInfo.length = ROUTING_INFO_SIZE
  kem : ∃ pad, packet.kemCiphertexts
    = (layers.map Layer.ciphertext).flatten ++ pad
  kem_length : packet.kemCiphertexts.length = kemLen
  body_eq : packet.body = onion P inner layers

/-- Consecutive layers carry consecutive blindings of the ephemeral
key. -/
def Chained (P : Prims) : List Layer → Prop
  | [] => True
  | l :: rest =>
      (∀ l', rest.head? = some l' →
        l'.alpha = P.pointMul l.alpha (blindingFactor P l.shared))
      ∧ Chained P rest

/-- A node after it has accepted the packet of a layer. -/
def MixNode.afterLayer (P : Prims) (node : MixNode) (l : Layer)
    (sessionId : SessionId) (matchedSurb : Bool) (nextHop : NodeId)
    (flag : RoutingFlag) (now : Nat) : MixNode :=
  let node := node.insertSeenTag (l.keys P).tag
  if matchedSurb then
    node.insertSession sessionId (newSession (l.keys P) nextHop flag now)
  else node

section Peel

variable {version : UInt8} {sessionId : SessionId} {destination : NodeId}
  {bodyAt : List Layer → List UInt8} {inner : List UInt8} {kemLen : Nat}
  {l : Layer} {rest : List Layer} {packet : SphinxPacket}

theorem InFlight.take_slot
    (h : InFlight P version sessionId destination bodyAt inner kemLen
      (l :: rest) packet) :
    packet.header.routingInfo.take SLOT_SIZE
      = headSlot P version sessionId destination bodyAt l rest := by
  obtain ⟨pad, hpad⟩ := h.routing
  have hlen :=
    length_headSlot P version sessionId destination bodyAt l rest
  rw [hpad, buildSlots_cons, List.flatten_cons, List.append_assoc, ← hlen,
    List.take_left]

/-- The MAC in the header is the one expected for the layer's body. -/
theorem InFlight.mac_expected
    (h : InFlight P version sessionId destination bodyAt inner kemLen
      (l :: rest) packet) :
    packet.header.mac
      = expectedMac P (l.keys P) packet (bodyAt (l :: rest)) := by
  rw [h.mac_eq, buildSlots_cons, expectedMac, h.take_slot, h.version_eq,
    h.session_eq, h.alpha_eq l rfl]

/-- Decrypting the slot gives the routing block. -/
theorem InFlight.block
    (h : InFlight P version sessionId destination bodyAt inner kemLen
      (l :: rest) packet) :
    xorSlot P (l.keys P).streamKey
        (packet.header.routingInfo.take SLOT_SIZE)
      = headBlock P version sessionId destination bodyAt rest := by
  rw [h.take_slot, headSlot]
  exact xorSlot_xorSlot (length_headBlock ..)

/-- The body left after this layer. -/
theorem InFlight.peeled
    (h : InFlight P version sessionId destination bodyAt inner kemLen
      (l :: rest) packet) :
    xorBody P (l.keys P).bodyKey packet.body = onion P inner rest := by
  rw [h.body_eq, onion, xorBody_xorBody]

/-- A hop that is not the last sends the packet on, one layer lighter
and as long as before. -/
theorem peel_forward {next : Layer} {node : MixNode}
    {kemRest : List UInt8} {d : MixDraws} {matchedSurb : Bool}
    (h : InFlight P version sessionId destination bodyAt inner kemLen
      (l :: next :: rest) packet)
    (hchain : Chained P (l :: next :: rest))
    (hmatch : matchMac P (l.keys P) packet = .ok matchedSurb)
    (hfresh : (l.keys P).tag ∉ node.seenTags)
    (hkem : ∃ pad, kemRest
      = ((next :: rest).map Layer.ciphertext).flatten ++ pad)
    (hkemLen : kemRest.length = kemLen) :
    ∃ fwd,
      peel P node l.shared packet kemRest d
        = (.ok ⟨next.nodeId, .forward, some fwd, none⟩,
          node.afterLayer P l sessionId matchedSurb next.nodeId .forward
            d.now)
      ∧ InFlight P version sessionId destination bodyAt inner kemLen
          (next :: rest) fwd := by
  have hblock := h.block
  have hpeeled := h.peeled
  simp only [headBlock] at hblock
  simp only [Layer.keys] at hmatch hfresh hblock hpeeled
  refine ⟨
    { header :=
        { version := packet.header.version
          ephemeralKey := P.pointMul packet.header.ephemeralKey
            (blindingFactor P l.shared)
          sessionId := sessionId
          routingInfo := packet.header.routingInfo.drop SLOT_SIZE
            ++ randomBytes d.routingPad SLOT_SIZE
          mac := (buildSlots P version sessionId destination bodyAt
            (next :: rest)).2 }
      kemCiphertexts := kemRest
      body := onion P inner (next :: rest) }, ?_, ?_⟩
  · simp only [peel, hmatch, hfresh, if_false, hblock, routingBlock_next,
      routingBlock_flag, routingBlock_mac, RoutingFlag.ofByte_toByte,
      deliver, hpeeled, h.session_eq, MixNode.afterLayer, Layer.keys]
  · obtain ⟨pad, hpad⟩ := h.routing
    have hlen :=
      length_headSlot P version sessionId destination bodyAt l
        (next :: rest)
    have hdrop : packet.header.routingInfo.drop SLOT_SIZE
        = (buildSlots P version sessionId destination bodyAt
            (next :: rest)).1.flatten ++ pad := by
      rw [hpad, buildSlots_cons, List.flatten_cons, List.append_assoc,
        ← hlen, List.drop_left]
    refine ⟨h.version_eq, rfl, ?_, rfl, ?_, ?_, hkem, hkemLen, rfl⟩
    · intro l' hl'
      rw [h.alpha_eq l rfl, ← hchain.1 l' hl']
    · exact ⟨pad ++ randomBytes d.routingPad SLOT_SIZE, by
        rw [hdrop, List.append_assoc]⟩
    · rw [List.length_append, List.length_drop, h.routing_length,
        length_randomBytes, ROUTING_INFO_SIZE, MAX_HOPS]
      omega

/-- The last hop opens the body for the destination. -/
theorem peel_destination {node : MixNode} {kemRest : List UInt8}
    {d : MixDraws} {matchedSurb : Bool} {plaintext : List UInt8}
    (h : InFlight P version sessionId destination bodyAt inner kemLen
      [l] packet)
    (hmatch : matchMac P (l.keys P) packet = .ok matchedSurb)
    (hfresh : (l.keys P).tag ∉ node.seenTags)
    (hopen : aeadDecryptBody P (bodyAeadKey P l.shared) inner destination
      = .ok plaintext) :
    peel P node l.shared packet kemRest d
      = (.ok ⟨destination, .destination, none, some plaintext⟩,
        node.afterLayer P l sessionId matchedSurb destination .destination
          d.now) := by
  have hblock := h.block
  have hpeeled := h.peeled
  simp only [headBlock] at hblock
  simp only [onion] at hpeeled
  simp only [Layer.keys] at hmatch hfresh hblock hpeeled
  simp only [peel, hmatch, hfresh, if_false, hblock, routingBlock_next,
    routingBlock_flag, RoutingFlag.ofByte_toByte, deliver, hpeeled, hopen,
    h.session_eq, MixNode.afterLayer, Layer.keys]

end Peel

-- ========= the chain

/-- Blinding commutes: a multiple of a multiple of the base point is the
product's multiple. -/
def Prims.DhCommutes (P : Prims) : Prop :=
  ∀ a b, P.pointMul (P.pointMul BASE_POINT a) b
    = P.pointMul BASE_POINT (a * b)

theorem plain_dhCommutes : Prims.plain.DhCommutes := by
  intro a b
  simp only [Prims.plain, Prims.pointScalar_scalarPoint, mul_assoc]

/-- How a layer came about at its hop: the ephemeral key is a multiple of
the base point, and the same scalar gave the agreed secret. -/
def LayerOf (P : Prims) {H : Type} (pub : H → Bytes 32)
    (nodeId : H → NodeId)
    (agree : Nat → H → SymmetricKey →
      Except SphinxError (SymmetricKey × List UInt8))
    (hop : H) (l : Layer) : Prop :=
  l.nodeId = nodeId hop
    ∧ ∃ i x, l.alpha = P.pointMul BASE_POINT x
      ∧ agree i hop (P.pointMul (pub hop) x) = .ok (l.shared, l.ciphertext)

section Chain

variable {H : Type} {pub : H → Bytes 32} {nodeId : H → NodeId}
  {agree : Nat → H → SymmetricKey →
    Except SphinxError (SymmetricKey × List UInt8)}

/-- The forward loop fails only where an agreement does. -/
theorem chainLayers_ok {hops : List H} (i : Nat) (alpha : Bytes 32)
    (x : Scalar)
    (hagree : ∀ hop ∈ hops, ∀ i dh, ∃ r, agree i hop dh = .ok r) :
    ∃ layers, chainLayers P pub nodeId agree i alpha x hops
      = .ok layers := by
  induction hops generalizing i alpha x with
  | nil => exact ⟨[], rfl⟩
  | cons hop rest ih =>
      obtain ⟨⟨shared, ct⟩, hr⟩ :=
        hagree hop List.mem_cons_self i (P.pointMul (pub hop) x)
      obtain ⟨layers, hlayers⟩ :=
        ih (i + 1) (P.pointMul alpha (blindingFactor P shared))
          (x * blindingFactor P shared)
          fun h hmem => hagree h (List.mem_cons_of_mem _ hmem)
      exact ⟨⟨nodeId hop, alpha, shared, ct⟩ :: layers, by
        simp only [chainLayers, hr, hlayers]⟩

theorem chainLayers_spec (hdh : P.DhCommutes) {hops : List H} {i : Nat}
    {alpha : Bytes 32} {x : Scalar} {layers : List Layer}
    (halpha : alpha = P.pointMul BASE_POINT x)
    (h : chainLayers P pub nodeId agree i alpha x hops = .ok layers) :
    (∀ l, layers.head? = some l → l.alpha = alpha) ∧ Chained P layers
      ∧ List.Forall₂ (LayerOf P pub nodeId agree) hops layers := by
  induction hops generalizing i alpha x layers with
  | nil =>
      simp only [chainLayers, Except.ok.injEq] at h
      subst h
      exact ⟨by simp, trivial, .nil⟩
  | cons hop rest ih =>
      rw [chainLayers] at h
      cases hr : agree i hop (P.pointMul (pub hop) x) with
      | error e => simp [hr] at h
      | ok r =>
          obtain ⟨shared, ct⟩ := r
          simp only [hr] at h
          cases hrest : chainLayers P pub nodeId agree (i + 1)
              (P.pointMul alpha (blindingFactor P shared))
              (x * blindingFactor P shared) rest with
          | error e => simp [hrest] at h
          | ok tail =>
              simp only [hrest, Except.ok.injEq] at h
              subst h
              have hnext : P.pointMul alpha (blindingFactor P shared)
                  = P.pointMul BASE_POINT
                    (x * blindingFactor P shared) := by
                rw [halpha, hdh]
              obtain ⟨hhead, hchain, hall⟩ := ih hnext hrest
              refine ⟨by simp, ⟨hhead, hchain⟩, .cons ⟨rfl, i, x, ?_⟩ hall⟩
              exact ⟨halpha, hr⟩

/-- Both ends of an agreement reach one Diffie-Hellman secret. -/
theorem dh_agrees (hdh : P.DhCommutes) (x y : Scalar) :
    P.pointMul (P.pointMul BASE_POINT x) y
      = P.pointMul (P.pointMul BASE_POINT y) x := by
  rw [hdh, hdh, mul_comm]

end Chain

end StaticNet
