/-
Single-use reply blocks: a header built in advance, the keys to wrap a
payload for it, and its encoding (`static-sphinx/src/surb.rs`).

A block's MACs cover the zero placeholder, because the payload is not
known when it is built; the hops accept it through the fallback of
`matchMac` and cache a reply session on the way.

The decoder reads fields at a running offset; here the offset is the
prefix dropped so far, so every bound on `data.len()` is a bound on the
length of what is left.
-/
import StaticNet.Sphinx.Onion

namespace StaticNet

-- ============== data

structure Surb where
  header : SphinxHeader
  kemCiphertexts : List UInt8
  bodyKeys : List SymmetricKey
  bodyAeadKey : SymmetricKey
  aadDestination : NodeId
  firstHop : NodeId
deriving DecidableEq

structure SurbSecret where
  fragmentId : Nat
  hopCount : Nat
deriving DecidableEq

/-- `session_id`. -/
def Surb.sessionId (surb : Surb) : SessionId := surb.header.sessionId

-- ====== construction

/-- The block over a chain of hybrid layers. -/
def hybridSurb (P : Prims) (d : PacketDraws) (destination : NodeId)
    (layers : List Layer) : Surb where
  header := buildHeader P SPHINX_VERSION_HYBRID d destination
    (fun _ => placeholder) layers
  kemCiphertexts := kemBlock d layers
  bodyKeys := layers.map fun l => (l.keys P).bodyKey
  bodyAeadKey := bodyAeadKey P (lastShared layers)
  aadDestination := destination
  firstHop := (layers.head?.map Layer.nodeId).getD (Bytes.zero 16)

def createSurbHybrid (P : Prims) (d : PacketDraws) (route : HybridRoute) :
    Except SphinxError (Surb × SurbSecret) :=
  if route.hops.length = 0 ∨ MAX_HOPS < route.hops.length then
    .error .routeTooLong
  else if route.hops.any
      fun h => h.kemPublicKey.length ≠ KEM_PUBLIC_KEY_SIZE then
    .error .invalidKemPublicKey
  else
    match hybridLayers P d route.hops with
    | .error e => .error e
    | .ok layers =>
        .ok (hybridSurb P d route.destination layers,
          ⟨0, route.hops.length⟩)

/-- One layer per body key, the last hop's innermost. -/
def wrapBody (P : Prims) (bodyKeys : List SymmetricKey)
    (sealed : List UInt8) : List UInt8 :=
  bodyKeys.foldr (xorBody P) sealed

def wrapWithSurbHybrid (P : Prims) (surb : Surb) (payload : List UInt8) :
    Except SphinxError SphinxPacket :=
  if surb.header.version ≠ SPHINX_VERSION_HYBRID then
    .error (.unsupportedVersion surb.header.version)
  else if BODY_SIZE < payload.length then .error .bodyTooLarge
  else
    .ok
      { header := surb.header
        kemCiphertexts := surb.kemCiphertexts
        body := wrapBody P surb.bodyKeys
          (aeadEncryptBody P surb.bodyAeadKey (padTo BODY_SIZE payload)
            surb.aadDestination) }

/-- Wrapping for the block is wrapping for its layers. -/
theorem wrapBody_layers (P : Prims) (layers : List Layer)
    (sealed : List UInt8) :
    wrapBody P (layers.map fun l => (l.keys P).bodyKey) sealed
      = onion P sealed layers := by
  induction layers with
  | nil => rfl
  | cons l rest ih =>
      rw [onion, ← ih]
      rfl

-- ========== encoding

def Surb.serialize (surb : Surb) : List UInt8 :=
  [surb.header.version]
    ++ (surb.header.ephemeralKey.toList
    ++ (surb.header.sessionId.toList
    ++ (beBytes 4 surb.kemCiphertexts.length
    ++ (surb.kemCiphertexts
    ++ (surb.header.routingInfo
    ++ (surb.header.mac.toList
    ++ ([UInt8.ofNat surb.bodyKeys.length]
    ++ ((surb.bodyKeys.map Bytes.toList).flatten
    ++ (surb.bodyAeadKey.toList
    ++ (surb.aadDestination.toList
    ++ surb.firstHop.toList))))))))))

/-- The fixed fields with no KEM bytes and one body key. -/
def SURB_MIN : Nat :=
  1 + 32 + 32 + 4 + ROUTING_INFO_SIZE + MAC_SIZE + 1 + 32 + 32 + 16 + 16

/-- `n` keys from the front of the data, and what is left. -/
def readKeys : Nat → List UInt8 → List SymmetricKey × List UInt8
  | 0, data => ([], data)
  | n + 1, data =>
      let tail := readKeys n (data.drop 32)
      (Bytes.ofList 32 (data.take 32) :: tail.1, tail.2)

def Surb.deserialize (data : List UInt8) : Except SphinxError Surb :=
  if data.length < SURB_MIN then .error .invalidPacketSize
  else
    let version := data.getD 0 0
    if version ≠ SPHINX_VERSION_CLASSICAL
        ∧ version ≠ SPHINX_VERSION_HYBRID then
      .error (.unsupportedVersion version)
    else
      let rest := data.drop 1
      let ephemeralKey := Bytes.ofList 32 (rest.take 32)
      let rest := rest.drop 32
      let sessionId := Bytes.ofList 32 (rest.take 32)
      let rest := rest.drop 32
      let kemLen := ofBeBytes (rest.take 4)
      let rest := rest.drop 4
      if KEM_BLOCK_SIZE < kemLen ∨ rest.length < kemLen then
        .error .invalidPacketSize
      else
        let kemCiphertexts := rest.take kemLen
        let rest := rest.drop kemLen
        if version = SPHINX_VERSION_HYBRID
            ∧ kemLen ≠ KEM_BLOCK_SIZE then
          .error .invalidKemCiphertext
        else if rest.length < ROUTING_INFO_SIZE + MAC_SIZE then
          .error .invalidPacketSize
        else
          let routingInfo := rest.take ROUTING_INFO_SIZE
          let rest := rest.drop ROUTING_INFO_SIZE
          let mac := Bytes.ofList 16 (rest.take MAC_SIZE)
          let rest := rest.drop MAC_SIZE
          if rest.length = 0 then .error .invalidPacketSize
          else
            let nKeys := (rest.getD 0 0).toNat
            let rest := rest.drop 1
            if nKeys = 0 ∨ MAX_HOPS < nKeys
                ∨ rest.length < nKeys * 32 + 32 + 16 + 16 then
              .error .invalidPacketSize
            else
              let keys := readKeys nKeys rest
              let rest := keys.2
              .ok
                { header :=
                    { version := version
                      ephemeralKey := ephemeralKey
                      sessionId := sessionId
                      routingInfo := routingInfo
                      mac := mac }
                  kemCiphertexts := kemCiphertexts
                  bodyKeys := keys.1
                  bodyAeadKey := Bytes.ofList 32 (rest.take 32)
                  aadDestination := Bytes.ofList 16 ((rest.drop 32).take 16)
                  firstHop :=
                    Bytes.ofList 16 (((rest.drop 32).drop 16).take 16) }

-- ======== round trip

theorem readKeys_flatten (keys : List SymmetricKey) (tail : List UInt8) :
    readKeys keys.length ((keys.map Bytes.toList).flatten ++ tail)
      = (keys, tail) := by
  induction keys with
  | nil => rfl
  | cons key keys ih =>
      have htake : ((((key :: keys).map Bytes.toList).flatten
          ++ tail).take 32) = key.toList := by
        rw [List.map_cons, List.flatten_cons, List.append_assoc,
          List.take_left' key.length_toList]
      have hdrop : ((((key :: keys).map Bytes.toList).flatten
          ++ tail).drop 32) = (keys.map Bytes.toList).flatten ++ tail := by
        rw [List.map_cons, List.flatten_cons, List.append_assoc,
          List.drop_left' key.length_toList]
      rw [List.length_cons, readKeys, htake, hdrop, ih,
        Bytes.ofList_toList]

/-- The sizes a block has that a route of at most `MAX_HOPS` hops
gives. -/
structure Surb.WellFormed (surb : Surb) : Prop where
  version_eq : surb.header.version = SPHINX_VERSION_HYBRID
  kem_length : surb.kemCiphertexts.length = KEM_BLOCK_SIZE
  routing_length : surb.header.routingInfo.length = ROUTING_INFO_SIZE
  keys_pos : 0 < surb.bodyKeys.length
  keys_max : surb.bodyKeys.length ≤ MAX_HOPS

theorem length_keys_flatten (keys : List SymmetricKey) :
    (keys.map Bytes.toList).flatten.length = keys.length * 32 := by
  induction keys with
  | nil => rfl
  | cons key keys ih =>
      rw [List.map_cons, List.flatten_cons, List.length_append, ih,
        key.length_toList, List.length_cons]
      omega

/-- A block fits a request. -/
theorem Surb.length_serialize_le {surb : Surb} (h : surb.WellFormed) :
    surb.serialize.length ≤ 16 * 1024 := by
  have hmax := h.keys_max
  simp only [Surb.serialize, List.length_append, length_keys_flatten,
    h.routing_length, h.kem_length, Bytes.length_toList, length_beBytes,
    List.length_singleton, MAX_HOPS, ROUTING_INFO_SIZE, KEM_BLOCK_SIZE,
    SLOT_SIZE, NODE_ID_SIZE, FLAG_SIZE, MAC_SIZE, KEM_CIPHERTEXT_SIZE]
    at hmax ⊢
  omega

theorem Surb.deserialize_serialize {surb : Surb} (h : surb.WellFormed) :
    Surb.deserialize surb.serialize = .ok surb := by
  obtain ⟨hver, hkem, hrouting, hpos, hmax⟩ := h
  have hkeysLen := length_keys_flatten surb.bodyKeys
  have hn : (UInt8.ofNat surb.bodyKeys.length).toNat
      = surb.bodyKeys.length := by
    have hlt : surb.bodyKeys.length < 256 := by
      simp only [MAX_HOPS] at hmax
      omega
    simp [Nat.mod_eq_of_lt hlt]
  have hkemLen : ofBeBytes (beBytes 4 surb.kemCiphertexts.length)
      = KEM_BLOCK_SIZE := by
    rw [hkem]
    exact ofBeBytes_beBytes_of_lt (by decide)
  have hmin : ¬ surb.serialize.length < SURB_MIN := by
    simp only [Surb.serialize, SURB_MIN, List.length_append, hkeysLen,
      hrouting, Bytes.length_toList, length_beBytes, List.length_singleton,
      MAC_SIZE]
    omega
  rw [Surb.deserialize, if_neg hmin]
  simp only [Surb.serialize, List.singleton_append, List.getD_cons_zero,
    List.drop_succ_cons, List.drop_zero, hver, ne_eq,
    not_true_eq_false, and_false, if_false,
    List.take_left' surb.header.ephemeralKey.length_toList,
    List.drop_left' surb.header.ephemeralKey.length_toList,
    List.take_left' surb.header.sessionId.length_toList,
    List.drop_left' surb.header.sessionId.length_toList,
    List.take_left' (length_beBytes 4 surb.kemCiphertexts.length),
    List.drop_left' (length_beBytes 4 surb.kemCiphertexts.length), hkemLen,
    List.take_left' hkem, List.drop_left' hkem,
    List.take_left' hrouting, List.drop_left' hrouting,
    List.take_left' (show surb.header.mac.toList.length = MAC_SIZE from
      surb.header.mac.length_toList),
    List.drop_left' (show surb.header.mac.toList.length = MAC_SIZE from
      surb.header.mac.length_toList), hn, readKeys_flatten]
  rw [if_neg (by simp only [List.length_append]; omega),
    if_neg (by
      simp only [List.length_append, hrouting, Bytes.length_toList,
        MAC_SIZE]
      omega),
    if_neg (by simp),
    if_neg (by
      simp only [List.length_append, hkeysLen, Bytes.length_toList]
      omega)]
  simp only [List.take_left' surb.bodyAeadKey.length_toList,
    List.drop_left' surb.bodyAeadKey.length_toList,
    List.take_left' surb.aadDestination.length_toList,
    List.drop_left' surb.aadDestination.length_toList,
    List.take_of_length_le (Nat.le_of_eq surb.firstHop.length_toList),
    Bytes.ofList_toList, ← hver]

/-- A block built over a route of honest nodes survives its encoding. -/
theorem hybridSurb_wellFormed {P : Prims} {d : PacketDraws}
    {destination : NodeId} {stops : List Stop} {layers : List Layer}
    (hopens : List.Forall₂ (OpensHybrid P) stops layers)
    (hpos : 0 < layers.length) (hmax : layers.length ≤ MAX_HOPS) :
    (hybridSurb P d destination layers).WellFormed := by
  refine ⟨rfl, length_kemBlock hopens hmax, ?_, ?_, ?_⟩
  · exact (InFlight.built (P := P) SPHINX_VERSION_HYBRID d destination
      (fun _ => placeholder) [] hmax
      (rfl : kemBlock d layers = _)).routing_length
  · simpa [hybridSurb] using hpos
  · simpa [hybridSurb] using hmax

end StaticNet
