/-
Every body that fits its layout is read back from what its writer makes
of it, with padding behind.

A writer checks a part of what its reader checks. What is left over for
the value itself is `Body.Fits`: a return route within the reader's
bound, a list whose length can be told in four bytes, an error text that
is not empty.
-/
import StaticNet.Bodies.Basic

namespace StaticNet

open Cursor

-- ============= parts

variable {β : Type} {rest tail : List UInt8} {b : β}

/-- The type byte is read and dropped. -/
theorem reads_typeByte (whenEmpty : Nat) (type : UInt8)
    (rest : List UInt8) : (typeByte whenEmpty type).Reads [type] rest () := by
  unfold typeByte
  refine Reads.size ?_
  intro len hlen
  have hne : len ≠ 0 := by
    rw [List.length_singleton] at hlen
    omega
  exact Reads.step (Reads.ensure hne _ _)
    (Reads.last (Reads.next type rest) (Reads.ensure rfl _ rest))

/-- A list that stands behind its length. -/
theorem reads_withLength {f : Nat → Cursor StorageError β}
    {bytes : List UInt8} (hlen : bytes.length < 2 ^ 32)
    (h : (f bytes.length).Reads (bytes ++ tail) rest b) :
    (uint 4 short >>= f).Reads (withLength bytes ++ tail) rest b := by
  rw [withLength, List.append_assoc]
  exact Reads.bind (Reads.uint short hlen _) h

/-- A string is read back from its bytes. -/
theorem reads_utf8 (s : String) (rest : List UInt8) :
    (utf8 (asBytes s)).Reads [] rest s := by
  have hbytes : (⟨(asBytes s).toArray⟩ : ByteArray) = s.toByteArray := by
    unfold asBytes
    rw [Array.toArray_toList]
    rfl
  refine Reads.ofOption ?_ _ rest
  unfold String.fromUTF8?
  rw [hbytes, dif_pos s.isValidUTF8]
  rfl

/-- A flag is its byte. -/
theorem decide_flagByte (x : Bool) : decide (flagByte x = 1) = x := by
  cases x <;> decide

/-- The hops and the destination, with room for a `need` before each. -/
theorem length_serializeHop (hop : RouteHop) :
    (serializeHop hop).length = 48 := by
  rw [serializeHop, List.length_append, hop.publicKey.length_toList,
    hop.nodeId.length_toList]

/-- A hop takes 48 bytes. -/
theorem length_serializeHops (hops : List RouteHop) :
    ((hops.map serializeHop).flatten).length = hops.length * 48 := by
  induction hops with
  | nil => rfl
  | cons hop hops ih =>
      rw [List.map_cons, List.flatten_cons, List.length_append, ih,
        length_serializeHop, List.length_cons]
      omega

-- ===== return routes

/-- A hop is read back. -/
theorem Checked.reads_hop (hop : RouteHop) (rest : List UInt8) :
    Checked.hop.Reads (serializeHop hop) rest hop := by
  unfold Checked.hop serializeHop
  refine Reads.step (Reads.need short ?_) ?_
  · rw [List.length_append, List.length_append, hop.publicKey.length_toList,
      hop.nodeId.length_toList]
    omega
  refine Reads.bind (Reads.raw _ _ hop.publicKey.length_toList) ?_
  refine Reads.last (Reads.raw _ _ hop.nodeId.length_toList) ?_
  rw [Bytes.ofList_toList, Bytes.ofList_toList]
  exact Reads.pure hop rest

/-- A return route is, within its limit. -/
theorem Checked.reads_returnRoute {route : ReturnRoute} {maxHops : Nat}
    (h : route.hops.length ≤ maxHops) (hmax : maxHops < 2 ^ 32)
    (rest : List UInt8) : (Checked.returnRoute maxHops).Reads
      (serializeReturnRoute route) rest route := by
  have hcount : route.hops.length < 2 ^ 32 := Nat.lt_of_le_of_lt h hmax
  unfold Checked.returnRoute serializeReturnRoute
  refine Reads.bind (Reads.uint short hcount _) ?_
  refine Reads.step (Reads.ensure h _ _) ?_
  refine Reads.bind (Reads.many serializeHop _ ?_ _) ?_
  · exact fun hop _ rest => Checked.reads_hop hop rest
  exact Reads.last (Reads.array short route.destination rest)
    (Reads.pure route rest)

theorem Verification.reads_takeReturnRoute {route : ReturnRoute}
    (h : route.hops.length ≤ 32) (rest : List UInt8) :
    Verification.takeReturnRoute.Reads (serializeReturnRoute route) rest
      route := by
  have hcount : route.hops.length < 2 ^ 32 := Nat.lt_of_le_of_lt h (by decide)
  unfold Verification.takeReturnRoute serializeReturnRoute
  refine Reads.bind (Reads.uint short hcount _) ?_
  refine Reads.step (Reads.ensure h _ _) ?_
  refine Reads.bind (Reads.many serializeHop _ ?_ _) ?_
  · intro hop _ rest
    exact Reads.bind (Reads.array short hop.publicKey _)
      (Reads.last (Reads.array short hop.nodeId rest) (Reads.pure hop rest))
  exact Reads.last (Reads.array short route.destination rest)
    (Reads.pure route rest)

theorem Compute.reads_hop (hop : RouteHop) (rest : List UInt8) :
    Compute.hop.Reads (serializeHop hop) rest hop := by
  unfold Compute.hop serializeHop
  refine Reads.bind (Reads.raw _ _ hop.publicKey.length_toList) ?_
  refine Reads.last (Reads.raw _ _ hop.nodeId.length_toList) ?_
  rw [Bytes.ofList_toList, Bytes.ofList_toList]
  exact Reads.pure hop rest

theorem Compute.reads_returnRoute {route : ReturnRoute}
    (h : route.hops.length ≤ MAX_COMPUTE_ROUTE_HOPS)
    (rest : List UInt8) :
    Compute.returnRoute.Reads (serializeReturnRoute route) rest route := by
  have hcount : route.hops.length < 2 ^ 32 := Nat.lt_of_le_of_lt h (by decide)
  unfold Compute.returnRoute serializeReturnRoute
  refine Reads.bind (Reads.uint short hcount _) ?_
  refine Reads.size ?_
  intro len hlen
  refine Reads.step (Reads.ensure h _ _) ?_
  refine Reads.step (Reads.need short ?_) ?_
  · rw [List.length_append, List.length_append, length_serializeHops,
      route.destination.length_toList]
    omega
  refine Reads.bind (Reads.many serializeHop _ ?_ _) ?_
  · exact fun hop _ rest => Compute.reads_hop hop rest
  refine Reads.last (Reads.raw _ _ route.destination.length_toList) ?_
  rw [Bytes.ofList_toList]
  exact Reads.pure route rest

-- ============ bodies

/-- What the reader asks beyond what the writer checks. -/
def Body.Fits : Body → Prop
  | .chunkRequest req =>
      req.returnRoute.hops.length ≤ MAX_RETRIEVAL_ROUTE_HOPS
        ∧ ∀ surb, req.surb = some surb →
          surb.length ≤ MAX_SERIALIZED_SURB_SIZE
  | .chunkResponse resp => resp.chunkData.length < 2 ^ 32
  | .computeRequest req =>
      req.returnRoute.hops.length ≤ MAX_COMPUTE_ROUTE_HOPS
  | .computeResponse resp =>
      ∀ text, resp.error = some text →
        0 < (asBytes text).length ∧ (asBytes text).length < 2 ^ 32
  | .challenge asked => asked.returnRoute.hops.length ≤ 32
  | .gossip report =>
      report.returnRoute.hops.length ≤ MAX_GOSSIP_ROUTE_HOPS
  | .heartbeat hb => hb.newExpiresAt < 2 ^ 64
      ∧ hb.chunkIds.length ≤ MAX_HEARTBEAT_CHUNKS
      ∧ hb.signature.length ≤ 64
  | _ => True

/-- Padding is zeros; only a request without a reply block looks at
it. -/
def Body.Padding : Body → List UInt8 → Prop
  | .chunkRequest req, pad => req.surb = none → ∀ b ∈ pad, b = 0
  | _, _ => True

/-- Padding alone is no reply block. -/
theorem Checked.reads_surb_none {pad : List UInt8}
    (h : ∀ b ∈ pad, b = 0) : Checked.surb.Reads [] pad none := by
  unfold Checked.surb
  refine Reads.remaining ?_
  rw [List.nil_append, if_neg]
  · exact Reads.pure none pad
  · rw [List.any_eq_true]
    intro hany
    obtain ⟨b, hb, hne⟩ := hany
    exact of_decide_eq_true hne (h b hb)

/-- A reply block is read back, before padding. -/
theorem Checked.reads_surb_some {surb : List UInt8}
    (h : surb.length ≤ MAX_SERIALIZED_SURB_SIZE) (pad : List UInt8) :
    Checked.surb.Reads ([1] ++ (beBytes 4 surb.length ++ surb)) pad
      (some surb) := by
  have hlen : ofBeBytes (beBytes 4 surb.length) = surb.length :=
    ofBeBytes_beBytes_of_lt (Nat.lt_of_le_of_lt h (by decide))
  unfold Checked.surb
  refine Reads.remaining ?_
  rw [if_pos]
  · refine Reads.pos fun offset => Reads.size fun len _ => ?_
    refine Reads.step (Reads.need short ?_) ?_
    · simp only [List.length_append, List.length_singleton, length_beBytes]
      omega
    refine Reads.bind (Reads.next 1 _) ?_
    refine Reads.step (Reads.ensure rfl _ _) ?_
    refine Reads.bind (Reads.raw _ _ (length_beBytes 4 _)) ?_
    rw [hlen]
    have hleft : surb.length ≤ (surb ++ pad).length := by
      rw [List.length_append]
      omega
    refine Reads.remaining (Reads.step (Reads.ensure ⟨h, hleft⟩ _ _) ?_)
    exact Reads.last (Reads.raw surb pad rfl) (Reads.pure (some surb) pad)
  · rw [List.any_eq_true]
    exact ⟨1, List.mem_append_left _ List.mem_cons_self, by decide⟩

/-- A chunk request, with or without a reply block. -/
theorem reads_chunkRequest {req : ChunkRequest}
    (h : (Body.chunkRequest req).Fits) {pad : List UInt8}
    (hpad : (Body.chunkRequest req).Padding pad) :
    Checked.deserializeRequest.Reads (serializeRequest req) pad req := by
  obtain ⟨hhops, hsurb⟩ := h
  obtain ⟨chunkId, route, surb⟩ := req
  have hroute := Checked.reads_returnRoute hhops (by decide)
  unfold Checked.deserializeRequest serializeRequest
  refine Reads.bind (reads_typeByte _ _ _) ?_
  refine Reads.bind (Reads.array short chunkId _) ?_
  rw [← List.append_assoc, ← List.append_assoc, List.append_assoc
    (beBytes 4 _), ← serializeReturnRoute]
  cases surb with
  | none =>
      rw [List.append_nil]
      refine Reads.last (hroute pad) ?_
      exact Reads.last (Checked.reads_surb_none (hpad rfl))
        (Reads.pure _ pad)
  | some bytes =>
      refine Reads.bind (hroute _) ?_
      exact Reads.last (Checked.reads_surb_some (hsurb bytes rfl) pad)
        (Reads.pure _ pad)

/-- A chunk response. -/
theorem reads_chunkResponse (resp : ChunkResponse)
    (h : resp.chunkData.length < 2 ^ 32) (rest : List UInt8) :
    Checked.deserializeResponse.Reads (serializeResponse resp) rest
      resp := by
  unfold Checked.deserializeResponse serializeResponse
  refine Reads.bind (reads_typeByte _ _ _) ?_
  refine Reads.bind (Reads.array short resp.chunkId _) ?_
  refine Reads.bind (Reads.byte short _ _) ?_
  refine Reads.bind (Reads.uint short h _) ?_
  refine Reads.last (Reads.take short _ _ rfl) ?_
  rw [← flagByte, decide_flagByte]
  exact Reads.pure resp rest

/-- A request for a computation. -/
theorem reads_computeRequest {req : ComputeRequest} {bytes : List UInt8}
    (hfits : (Body.computeRequest req).Fits)
    (h : Compute.serializeRequest req = .ok bytes) (rest : List UInt8) :
    Compute.deserializeRequest.Reads bytes rest req := by
  unfold Compute.serializeRequest at h
  by_cases hinput : MAX_COMPUTE_INPUT_SIZE < req.inputData.length
  · rw [if_pos hinput] at h
    cases h
  by_cases haddr : MAX_PAYMENT_ADDRESS_SIZE < req.paymentAddress.length
  · rw [if_neg hinput, if_pos haddr] at h
    cases h
  rw [if_neg hinput, if_neg haddr] at h
  cases h
  rw [Nat.not_lt] at hinput haddr
  unfold Compute.deserializeRequest
  refine Reads.bind (reads_typeByte _ _ _) ?_
  refine Reads.bind (Reads.array short req.fromNode _) ?_
  refine Reads.bind (Reads.array short req.moduleContentId _) ?_
  refine Reads.bind (Reads.array short req.moduleContentPubKey _) ?_
  refine Reads.bind (Reads.byte short req.currency _) ?_
  refine reads_withLength (Nat.lt_of_le_of_lt haddr (by decide)) ?_
  refine Reads.step (Reads.ensure haddr _ _) ?_
  refine Reads.bind (Reads.take short req.paymentAddress _ rfl) ?_
  refine Reads.bind (Reads.array short req.requestId _) ?_
  refine Reads.bind (Compute.reads_returnRoute hfits _) ?_
  refine Reads.bind (Reads.uint short
    (Nat.lt_of_le_of_lt hinput (by decide)) _) ?_
  refine Reads.last (Reads.take short req.inputData rest rfl) ?_
  exact Reads.step (Reads.ensure hinput _ _) (Reads.pure req rest)

/-- The error text of a response, when it is not empty. -/
theorem Compute.reads_errorText {error : Option String}
    (h : ∀ text, error = some text →
      0 < (asBytes text).length ∧ (asBytes text).length < 2 ^ 32)
    (rest : List UInt8) :
    Compute.errorText.Reads (withLength (asBytes (error.getD ""))) rest
      error := by
  unfold Compute.errorText withLength
  cases error with
  | none =>
      refine Reads.bind (Reads.uint short (by decide) _) ?_
      refine Reads.last (Reads.take short _ _ rfl) ?_
      exact Reads.pure none rest
  | some text =>
      obtain ⟨hpos, hlen⟩ := h text rfl
      refine Reads.bind (Reads.uint short hlen _) ?_
      refine Reads.last (Reads.take short _ _ rfl) ?_
      rw [Option.getD_some, if_pos hpos]
      exact Reads.step (reads_utf8 text _) (Reads.pure (some text) rest)

/-- Its result. -/
theorem reads_computeResponse {resp : ComputeResponse}
    {bytes : List UInt8} (hfits : (Body.computeResponse resp).Fits)
    (h : Compute.serializeResponse resp = .ok bytes)
    (rest : List UInt8) :
    Compute.deserializeResponse.Reads bytes rest resp := by
  unfold Compute.serializeResponse at h
  by_cases houtput : MAX_COMPUTE_OUTPUT_SIZE < resp.outputData.length
  · rw [if_pos houtput] at h
    cases h
  by_cases hpayreq : MAX_PAYMENT_REQUEST_SIZE < resp.paymentRequest.length
  · rw [if_neg houtput, if_pos hpayreq] at h
    cases h
  rw [if_neg houtput, if_neg hpayreq] at h
  cases h
  rw [Nat.not_lt] at houtput hpayreq
  have hcpu : ofBeBytes (beBytes 8 resp.cpuTimeMs.toNat)
      = resp.cpuTimeMs.toNat :=
    ofBeBytes_beBytes_of_lt resp.cpuTimeMs.toNat_lt
  have hmemory : ofBeBytes (beBytes 8 resp.memoryUsed.toNat)
      = resp.memoryUsed.toNat :=
    ofBeBytes_beBytes_of_lt resp.memoryUsed.toNat_lt
  unfold Compute.deserializeResponse
  refine Reads.bind (reads_typeByte _ _ _) ?_
  refine Reads.bind (Reads.array short resp.requestId _) ?_
  refine Reads.bind (Reads.byte short _ _) ?_
  refine Reads.bind (Compute.reads_errorText hfits _) ?_
  refine Reads.step (Reads.need short ?_) ?_
  · simp only [List.length_append, length_beBytes]
    omega
  refine Reads.bind (Reads.raw _ _ (length_beBytes 8 _)) ?_
  refine Reads.bind (Reads.raw _ _ (length_beBytes 8 _)) ?_
  refine Reads.bind (Reads.byte short _ _) ?_
  refine reads_withLength (Nat.lt_of_le_of_lt hpayreq (by decide)) ?_
  refine Reads.step (Reads.ensure hpayreq _ _) ?_
  refine Reads.bind (Reads.take short resp.paymentRequest _ rfl) ?_
  refine Reads.bind (Reads.uint short
    (Nat.lt_of_le_of_lt houtput (by decide)) _) ?_
  refine Reads.last (Reads.take short resp.outputData rest rfl) ?_
  refine Reads.step (Reads.ensure houtput _ _) ?_
  rw [hcpu, hmemory, UInt64.ofNat_toNat, UInt64.ofNat_toNat,
    decide_flagByte, decide_flagByte]
  exact Reads.pure resp rest

theorem Compute.reads_currencyByte (currency : Currency)
    (rest : List UInt8) :
    Compute.currencyByte.Reads [currency.toByte] rest currency :=
  Reads.last (Reads.byte short currency.toByte rest)
    (Reads.ofOption currency.fromByte_toByte _ rest)

/-- A quote. -/
theorem reads_paymentRequest {req : PaymentRequest} {bytes : List UInt8}
    (h : Compute.serializePaymentRequest req = .ok bytes)
    (rest : List UInt8) :
    Compute.deserializePaymentRequest.Reads bytes rest req := by
  unfold Compute.serializePaymentRequest at h
  by_cases haddr : MAX_PAYMENT_ADDRESS_SIZE < (asBytes req.address).length
  · rw [if_pos haddr] at h
    cases h
  rw [if_neg haddr] at h
  cases h
  rw [Nat.not_lt] at haddr
  unfold Compute.deserializePaymentRequest
  refine Reads.bind (reads_typeByte _ _ _) ?_
  refine Reads.bind (Reads.array short req.requestId _) ?_
  refine Reads.bind (Compute.reads_currencyByte req.currency _) ?_
  refine Reads.bind (Reads.uint short req.amount.toNat_lt _) ?_
  refine reads_withLength (Nat.lt_of_le_of_lt haddr (by decide)) ?_
  refine Reads.step (Reads.ensure haddr _ _) ?_
  refine Reads.bind (Reads.take short (asBytes req.address) _ rfl) ?_
  refine Reads.step (reads_utf8 req.address _) ?_
  refine Reads.last
    (Reads.uint short req.requiredConfirmations.toNat_lt _) ?_
  rw [UInt64.ofNat_toNat, UInt32.ofNat_toNat]
  exact Reads.pure req rest

/-- A confirmation of its payment. -/
theorem reads_paymentConfirmation {confirmation : PaymentConfirmation}
    {bytes : List UInt8}
    (h : Compute.serializePaymentConfirmation confirmation = .ok bytes)
    (rest : List UInt8) :
    Compute.deserializePaymentConfirmation.Reads bytes rest
      confirmation := by
  unfold Compute.serializePaymentConfirmation at h
  by_cases hhash : MAX_TX_HASH_SIZE < (asBytes confirmation.txHash).length
  · rw [if_pos hhash] at h
    cases h
  rw [if_neg hhash] at h
  cases h
  rw [Nat.not_lt] at hhash
  unfold Compute.deserializePaymentConfirmation
  refine Reads.bind (reads_typeByte _ _ _) ?_
  refine Reads.bind (Reads.array short confirmation.requestId _) ?_
  refine Reads.bind (Compute.reads_currencyByte confirmation.currency _) ?_
  refine Reads.bind (Reads.uint short
    (Nat.lt_of_le_of_lt hhash (by decide)) _) ?_
  refine Reads.step (Reads.ensure hhash _ _) ?_
  refine Reads.last (Reads.take short _ rest rfl) ?_
  exact Reads.step (reads_utf8 confirmation.txHash rest)
    (Reads.pure confirmation rest)

/-- A storage challenge. -/
theorem reads_challenge {asked : VerificationChallenge}
    (h : (Body.challenge asked).Fits) {bytes : List UInt8}
    (hbytes : Verification.serializeChallenge asked = .ok bytes)
    (rest : List UInt8) :
    Verification.deserializeChallenge.Reads bytes rest asked := by
  cases hbytes
  unfold Verification.deserializeChallenge
  refine Reads.bind (reads_typeByte _ _ _) ?_
  refine Reads.bind (Reads.array short asked.chunkId _) ?_
  refine Reads.bind (Reads.uint short asked.segmentIndex.toNat_lt _) ?_
  refine Reads.bind (Reads.array short asked.nonce _) ?_
  refine Reads.last (Verification.reads_takeReturnRoute h rest) ?_
  rw [UInt32.ofNat_toNat]
  exact Reads.pure asked rest

/-- Its response. -/
theorem reads_response {resp : VerificationResponse} {bytes : List UInt8}
    (h : Verification.serializeResponse resp = .ok bytes)
    (rest : List UInt8) :
    Verification.deserializeResponse.Reads bytes rest resp := by
  unfold Verification.serializeResponse at h
  by_cases hdata : MAX_SEGMENT_DATA_SIZE < resp.segmentData.length
  · rw [if_pos hdata] at h
    cases h
  rw [if_neg hdata] at h
  cases h
  rw [Nat.not_lt] at hdata
  unfold Verification.deserializeResponse
  refine Reads.bind (reads_typeByte _ _ _) ?_
  refine Reads.bind (Reads.array short resp.chunkId _) ?_
  refine Reads.bind (Reads.uint short resp.segmentIndex.toNat_lt _) ?_
  refine Reads.bind (Reads.array short resp.nonce _) ?_
  refine Reads.bind (Reads.byte short _ _) ?_
  refine Reads.bind (Reads.uint short
    (Nat.lt_of_le_of_lt hdata (by decide)) _) ?_
  refine Reads.step (Reads.ensure hdata _ _) ?_
  refine Reads.last (Reads.take short resp.segmentData rest rfl) ?_
  rw [UInt32.ofNat_toNat, decide_flagByte]
  exact Reads.pure resp rest

/-- A report of a missing chunk. -/
theorem reads_gossip {report : MissingChunkGossip}
    (h : (Body.gossip report).Fits) (rest : List UInt8) :
    deserializeGossip.Reads (serializeGossip report) rest report := by
  unfold deserializeGossip serializeGossip
  refine Reads.bind (reads_typeByte _ _ _) ?_
  refine Reads.bind (Reads.array short report.contentId _) ?_
  refine Reads.bind (Reads.array short report.chunkId _) ?_
  refine Reads.bind (Reads.uint short report.timestamp.toNat_lt _) ?_
  refine Reads.last (Checked.reads_returnRoute h (by decide) rest) ?_
  rw [UInt64.ofNat_toNat]
  exact Reads.pure report rest

/-- A heartbeat without its type byte, -/
theorem Heartbeat.reads_deserialize {hb : Heartbeat}
    (h : (Body.heartbeat hb).Fits) (rest : List UInt8) :
    Heartbeat.deserialize.Reads hb.serialize rest hb := by
  obtain ⟨hexpires, hcount, hsig⟩ := h
  have htime : ofBeBytes (beBytes 8 hb.newExpiresAt) = hb.newExpiresAt :=
    ofBeBytes_beBytes_of_lt hexpires
  have hcount' : ofBeBytes (beBytes 4 hb.chunkIds.length)
      = hb.chunkIds.length :=
    ofBeBytes_beBytes_of_lt (Nat.lt_of_le_of_lt hcount (by decide))
  have hsig' : ofBeBytes (beBytes 4 hb.signature.length)
      = hb.signature.length :=
    ofBeBytes_beBytes_of_lt (Nat.lt_of_le_of_lt hsig (by decide))
  have htail : 68 ≤ (hb.nonce.toList ++ (hb.contentPubKey.toList
      ++ withLength hb.signature) ++ rest).length := by
    simp only [withLength, List.length_append, Bytes.length_toList,
      length_beBytes]
    omega
  unfold Heartbeat.deserialize Heartbeat.serialize
  refine Reads.size ?_
  intro len hlen
  simp only [withLength, List.length_append, Bytes.length_toList,
    length_beBytes] at hlen
  refine Reads.step (Reads.ensure (by omega) _ _) ?_
  refine Reads.bind (Reads.raw _ _ hb.renewalToken.length_toList) ?_
  refine Reads.bind (Reads.raw _ _ (length_beBytes 8 _)) ?_
  refine Reads.bind (Reads.raw _ _ (length_beBytes 4 _)) ?_
  rw [hcount']
  refine Reads.step (Reads.ensure hcount _ _) ?_
  refine Reads.bind (Reads.many Bytes.toList _ ?_ _) ?_
  · exact fun id _ rest => Reads.array short id rest
  refine Reads.step (Reads.need short htail) ?_
  refine Reads.bind (Reads.raw _ _ hb.nonce.length_toList) ?_
  refine Reads.bind (Reads.raw _ _ hb.contentPubKey.length_toList) ?_
  refine Reads.bind (Reads.raw _ _ (length_beBytes 4 _)) ?_
  rw [hsig', htime, Bytes.ofList_toList, Bytes.ofList_toList,
    Bytes.ofList_toList]
  have hleft : hb.signature.length ≤ (hb.signature ++ rest).length := by
    rw [List.length_append]
    omega
  refine Reads.pos fun offset => Reads.remaining ?_
  refine Reads.step (Reads.ensure ⟨hsig, hleft⟩ _ _) ?_
  exact Reads.last (Reads.raw hb.signature rest rfl) (Reads.pure hb rest)

/-- and with it. -/
theorem reads_heartbeat {hb : Heartbeat} (h : (Body.heartbeat hb).Fits)
    (rest : List UInt8) :
    Heartbeat.wireDeserialize.Reads hb.wireSerialize rest hb :=
  Reads.bind (reads_typeByte _ _ _)
    (Reads.onRest (Heartbeat.reads_deserialize h rest))

-- ======== every kind

/-- A body that fits is read back, whatever padding follows. -/
theorem Body.reads {body : Body} (hfits : body.Fits) {bytes : List UInt8}
    (hbytes : body.serialize = .ok bytes) {pad : List UInt8}
    (hpad : body.Padding pad) :
    body.kind.deserialize.Reads bytes pad body := by
  -- the value in its constructor
  have hmap : ∀ {α : Type} {c : Cursor StorageError α} {a : α}
      (make : α → Body), c.Reads bytes pad a →
      (make <$> c).Reads bytes pad (make a) :=
    fun make h => Reads.last h (Reads.pure _ pad)
  cases body with
  | chunkRequest req =>
      cases hbytes
      exact hmap Body.chunkRequest (reads_chunkRequest hfits hpad)
  | chunkResponse resp =>
      cases hbytes
      exact hmap Body.chunkResponse (reads_chunkResponse resp hfits pad)
  | computeRequest req =>
      exact hmap Body.computeRequest (reads_computeRequest hfits hbytes pad)
  | computeResponse resp =>
      exact hmap Body.computeResponse
        (reads_computeResponse hfits hbytes pad)
  | paymentRequest req =>
      exact hmap Body.paymentRequest (reads_paymentRequest hbytes pad)
  | paymentConfirmation confirmation =>
      exact hmap Body.paymentConfirmation
        (reads_paymentConfirmation hbytes pad)
  | challenge asked =>
      exact hmap Body.challenge (reads_challenge hfits hbytes pad)
  | response resp =>
      exact hmap Body.response (reads_response hbytes pad)
  | gossip report =>
      cases hbytes
      exact hmap Body.gossip (reads_gossip hfits pad)
  | heartbeat hb =>
      cases hbytes
      exact hmap Body.heartbeat (reads_heartbeat hfits pad)

/-- Another type is an error. -/
theorem meets_typeByte_ne {whenEmpty : Nat} {type b : UInt8}
    {data : List UInt8} {Q : Unit → Nat → Prop} {E : StorageError → Prop}
    (h : b ≠ type) : (typeByte whenEmpty type).Meets (b :: data) 0 Q E
      ↔ E (.invalidChunkSize type.toNat b.toNat) := by
  simp [typeByte, slice, h]

/-- A reader refuses the type byte of another kind. -/
theorem BodyKind.refuses {k : BodyKind} {b : UInt8} (h : b ≠ k.type)
    (data : List UInt8) :
    k.deserialize.run (b :: data)
      = .error (.error (.invalidChunkSize k.type.toNat b.toNat)) := by
  have hmeets : k.deserialize.Meets (b :: data) 0 (fun _ _ => False)
      fun e => e = .invalidChunkSize k.type.toNat b.toNat := by
    cases k <;> refine meets_map.2 (meets_bind.2 ?_) <;>
      exact (meets_typeByte_ne h).2 rfl
  obtain ⟨e, hrun, he⟩ := hmeets.refused
  rw [hrun, he]

end StaticNet
