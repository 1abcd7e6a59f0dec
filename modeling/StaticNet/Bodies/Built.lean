/-
Where the node builds the bodies it sends, and that every one of them is
read back (`static-node/src/runner.rs`, `static-mesh/src/retrieval.rs`).

A reader bounds more than its writer. What keeps a body within the bound
is each time at the place that builds it: a return route has at most
`MIN_HOPS + 1` hops, a reply block is built over at most `MAX_HOPS`, an
error has a text, and a heartbeat names the chunks of one publication,
which Reed-Solomon over a field of 256 elements cannot make more than
256 of.
-/
import StaticNet.Bodies.RoundTrip
import StaticNet.Compute.Provider
import StaticNet.Node.Publish
import StaticNet.Retrieval.ClearView
import StaticNet.Routing.Routes

namespace StaticNet

-- ===== return routes

/-- `from_sphinx_route`, of the classical part of a route. -/
def ReturnRoute.fromSphinxRoute (route : HybridRoute) : ReturnRoute where
  hops := route.hops.map fun hop => ⟨hop.classicalPublicKey, hop.nodeId⟩
  destination := route.destination

/-- What a node draws for the way back to itself, and its own keys. -/
structure SelfRoute where
  table : RoutingTable
  order : IterOrder NodeId
  shuffle : List KnownNode → List KnownNode
  nodeId : NodeId
  publicKey : Bytes 32
  kemPublicKey : List UInt8

/-- The return route in a request, a challenge or a report. -/
def SelfRoute.returnRoute (self : SelfRoute) : ReturnRoute :=
  .fromSphinxRoute (self.table.buildSelfReturnRoute self.order self.shuffle
    self.nodeId self.publicKey self.kemPublicKey)

theorem SelfRoute.length_le (self : SelfRoute) :
    self.returnRoute.hops.length ≤ MIN_HOPS + 1 := by
  unfold returnRoute ReturnRoute.fromSphinxRoute
    RoutingTable.buildSelfReturnRoute
  simp only [List.length_map, List.length_append, List.length_singleton]
  refine Nat.succ_le_succ ?_
  by_cases hfew : (((self.order.iter self.table.nodes.keys).filterMap
      self.table.nodes.get).filter fun n =>
        n.nodeId ≠ self.nodeId && n.kemPublicKey.isSome).length < MIN_HOPS
  · rw [if_pos hfew]
    exact Nat.zero_le _
  · rw [if_neg hfew, List.length_map]
    exact List.length_take_le _ _

-- ============ errors

/-- The errors an execution is answered with. -/
inductive ComputeError
  | moduleCompilationFailed (reason : String)
  | instantiationFailed (reason : String)
  | processFunctionNotFound
  | memoryNotFound
  | memoryAllocationFailed
  | memoryWriteFailed (reason : String)
  | memoryReadFailed (reason : String)
  | outputTooLarge
  | executionFailed (reason : String)
  | fuelError (reason : String)
  | moduleNotFound
  | payment (reason : String)
  | capacityExceeded
  | sphinxError
  | serialization (reason : String)
deriving DecidableEq

/-- The text of an error. -/
def ComputeError.toText : ComputeError → String
  | .moduleCompilationFailed reason => "module compilation failed: " ++ reason
  | .instantiationFailed reason => "instantiation failed: " ++ reason
  | .processFunctionNotFound => "process function not found"
  | .memoryNotFound => "memory not found"
  | .memoryAllocationFailed => "memory allocation failed"
  | .memoryWriteFailed reason => "memory write failed: " ++ reason
  | .memoryReadFailed reason => "memory read failed: " ++ reason
  | .outputTooLarge => "module output too large"
  | .executionFailed reason => "execution failed: " ++ reason
  | .fuelError reason => "fuel error: " ++ reason
  | .moduleNotFound => "module not found on network"
  | .payment reason => "payment error: " ++ reason
  | .capacityExceeded => "capacity exceeded"
  | .sphinxError => "sphinx packet creation failed"
  | .serialization reason => "serialization failed: " ++ reason

theorem asBytes_pos {a : String} (h : a ≠ "") (b : String) :
    0 < (asBytes (a ++ b)).length := by
  have hlen : (asBytes (a ++ b)).length = (a ++ b).utf8ByteSize := rfl
  have ha : a.utf8ByteSize ≠ 0 := mt String.utf8ByteSize_eq_zero_iff.1 h
  rw [hlen, String.utf8ByteSize_append]
  omega

/-- No error has an empty text. -/
theorem ComputeError.toText_pos (e : ComputeError) :
    0 < (asBytes e.toText).length := by
  have hfixed : ∀ a : String, a ≠ "" → 0 < (asBytes a).length := by
    intro a h
    have hpos := asBytes_pos h ""
    rw [String.append_empty] at hpos
    exact hpos
  cases e <;> first
    | exact asBytes_pos (by decide) _
    | exact hfixed _ (by decide)

-- ============ chunks

/-- What the Reed-Solomon crate documents about numbers and sizes: at most
256 shards are encoded, the shards of an encoding have the size of those
given, and a filled shard has the size of one that was there. -/
structure ErasureSizes (rs : ErasureCode) (rr : ErasureRepair) : Prop where
  shards_le : ∀ k n shards out, rs.encode k n shards = .ok out →
    k + n ≤ 256
  encoded : ∀ k n shards out size, rs.encode k n shards = .ok out →
    (∀ s ∈ shards, s.length = size) → ∀ s ∈ out, s.length = size
  filled : ∀ k n received out, rr.reconstruct k n received = .ok out →
    ∀ s ∈ out, ∃ t, some t ∈ received ∧ s.length = t.length

/-- The bytes a node can have under a chunk id: a chunk it published, the
JSON of its encrypted manifest, what a response brought, a shard that was
reconstructed. -/
inductive Stored (P : Prims) (rs : ErasureCode) (rr : ErasureRepair)
    (json : Json) : List UInt8 → Prop
  | published {d : PublishDraws} {file : List UInt8}
      {r : List EncryptedChunk × ContentManifest} {chunk : EncryptedChunk} :
      prepareContent P rs d file = .ok r → chunk ∈ r.1 →
      Stored P rs rr json chunk.data
  | manifest {d : PublishDraws} {file : List UInt8}
      {r : List EncryptedChunk × ContentManifest} :
      prepareContent P rs d file = .ok r →
      (json.ofEncrypted (encryptManifest P json r.2 (P.edPublic d.contentSk)
        d.manifestNonce).1).length < 2 ^ 32 →
      Stored P rs rr json (json.ofEncrypted (encryptManifest P json r.2
        (P.edPublic d.contentSk) d.manifestNonce).1)
  | received {bytes : List UInt8} {resp : ChunkResponse} :
      Checked.deserializeResponse.run bytes = .ok resp →
      Stored P rs rr json resp.chunkData
  | reconstructed {k n : Nat} {shards : List (Option (List UInt8))}
      {out : List (List UInt8)} {shard : List UInt8} :
      rr.reconstruct k n shards = .ok out →
      (∀ s, some s ∈ shards → Stored P rs rr json s) → shard ∈ out →
      Stored P rs rr json shard

section Sizes

variable {P : Prims} {rs : ErasureCode} {rr : ErasureRepair} {json : Json}

theorem length_getD_le {shards : List (List UInt8)} {size : Nat}
    (h : ∀ s ∈ shards, s.length = size) (i : Nat) :
    (shards.getD i []).length ≤ size := by
  by_cases hi : i < shards.length
  · rw [List.getD_eq_getElem?_getD, List.getElem?_eq_getElem hi,
      Option.getD_some, h _ (List.getElem_mem hi)]
  · rw [List.getD_eq_getElem?_getD,
      List.getElem?_eq_none (Nat.le_of_not_lt hi)]
    exact Nat.zero_le _

/-- Erasure coding keeps the size of its chunks. -/
theorem erasureEncode_sizes (hsizes : ErasureSizes rs rr)
    {chunks out : List EncryptedChunk} {k n size : Nat}
    (hpos : 1 ≤ chunks.length) (hsize : ∀ c ∈ chunks, c.data.length = size)
    (h : erasureEncode P rs chunks k n = .ok out) :
    ∀ c ∈ out, c.data.length ≤ size := by
  unfold erasureEncode at h
  by_cases hcount : chunks.length = k
  · rw [if_neg (not_not.2 hcount)] at h
    have hshards := size_shardsFor (m := n) hpos hsize
    unfold shardsFor at hshards
    dsimp only at h
    cases hw : rs.encode k n (chunks.map EncryptedChunk.data
        ++ List.replicate n (List.replicate
          ((chunks.head?.map fun c => c.data.length).getD 0) 0)) with
    | error reason =>
        rw [hw] at h
        cases h
    | ok w =>
        rw [hw] at h
        have hout := Except.ok.inj h
        have hall := hsizes.encoded _ _ _ _ size hw hshards
        rw [← hout]
        intro c hc
        rcases List.mem_append.1 hc with hdata | hparity
        · obtain ⟨_, _, rfl⟩ := List.mem_map.1 hdata
          exact length_getD_le hall _
        · obtain ⟨_, _, rfl⟩ := List.mem_map.1 hparity
          exact length_getD_le hall _
  · rw [if_pos hcount] at h
    cases h

/-- A publication is of at most 256 chunks of one size. -/
theorem prepareContent_sizes (hsizes : ErasureSizes rs rr)
    {d : PublishDraws} {file : List UInt8}
    {r : List EncryptedChunk × ContentManifest}
    (h : prepareContent P rs d file = .ok r) :
    r.1.length ≤ 256 ∧ ∀ c ∈ r.1, c.data.length ≤ CHUNK_SIZE + 16 := by
  unfold prepareContent at h
  cases henc : encryptFile P d.masterKey d.nonce file with
  | error e =>
      rw [henc] at h
      cases h
  | ok enc =>
      obtain ⟨raw, m⟩ := enc
      rw [henc] at h
      cases hcode : erasureEncode P rs raw raw.length
          (parityCount raw.length) with
      | error e =>
          dsimp only [bind, Except.bind] at h
          rw [hcode] at h
          cases h
      | ok cs =>
          dsimp only [bind, Except.bind] at h
          rw [hcode] at h
          cases h
          obtain ⟨-, hlen, hle⟩ := erasureEncode_length hsizes.shards_le hcode
          have hpos : 1 ≤ raw.length := by
            rw [encryptFile_length henc]
            exact Nat.le_max_left _ _
          have hraw := fun c hc => (encryptFile_chunks henc c hc).2
          exact ⟨hlen ▸ hle, erasureEncode_sizes hsizes hpos hraw hcode⟩

/-- What a response brings fits the four bytes of its length. -/
theorem received_lt {bytes : List UInt8} {resp : ChunkResponse}
    (h : Checked.deserializeResponse.run bytes = .ok resp) :
    resp.chunkData.length < 2 ^ 32 := by
  have hslice : ∀ off n, (slice bytes off n).length ≤ n :=
    fun off n => List.length_take_le _ _
  have hlen : ∀ off, ofBeBytes (slice bytes off 4) < 2 ^ 32 := by
    intro off
    refine Nat.lt_of_lt_of_le (ofBeBytes_lt _) ?_
    exact Nat.pow_le_pow_right (by decide) (hslice off 4)
  refine Cursor.Meets.of_run (E := fun _ => True)
    (Q := fun resp => resp.chunkData.length < 2 ^ 32) ?_ h
  simp only [Checked.deserializeResponse, typeByte, Cursor.meets_bind,
    Cursor.meets_size, Cursor.meets_ensure, Cursor.meets_next,
    Cursor.meets_array, Cursor.meets_byte, Cursor.meets_uint,
    Cursor.meets_take, Cursor.meets_pure, implies_true, and_true]
  intro hne
  refine ⟨by omega, fun _ _ _ _ _ => ?_⟩
  exact Nat.lt_of_le_of_lt (hslice _ _) (hlen _)

theorem Stored.length_lt (hsizes : ErasureSizes rs rr) {bytes : List UInt8}
    (h : Stored P rs rr json bytes) : bytes.length < 2 ^ 32 := by
  induction h with
  | published hprepare hmem =>
      have hle := (prepareContent_sizes hsizes hprepare).2 _ hmem
      exact Nat.lt_of_le_of_lt hle (by decide)
  | manifest _ hlen => exact hlen
  | received hrun => exact received_lt hrun
  | reconstructed hfill _ hmem ih =>
      obtain ⟨t, ht, hlen⟩ := hsizes.filled _ _ _ _ hfill _ hmem
      rw [hlen]
      exact ih t ht

end Sizes

-- ========== builders

/-- What `submit_compute_request` sends. -/
def submittedRequest (P : Prims) (self : SelfRoute)
    (moduleContentPubKey : Bytes 32) (currency : Currency)
    (requestId : RequestId) (inputData : List UInt8) : ComputeRequest where
  fromNode := self.nodeId
  moduleContentId := contentIdFromPublic P moduleContentPubKey
  moduleContentPubKey := moduleContentPubKey
  currency := currency.toByte
  paymentAddress := []
  requestId := requestId
  returnRoute := self.returnRoute
  inputData := inputData

/-- The response to an execution that succeeded. -/
def succeeded (requestId : RequestId) (outputData : List UInt8)
    (cpuTimeMs memoryUsed : UInt64) : ComputeResponse where
  requestId := requestId
  outputData := outputData
  success := true
  error := none
  cpuTimeMs := cpuTimeMs
  memoryUsed := memoryUsed
  paymentRequired := false
  paymentRequest := []

/-- The response to one that failed, or was refused, with the quote that
was not paid. -/
def failed (requestId : RequestId) (error : ComputeError)
    (paymentRequired : Bool) (quote : Option PaymentRequest) :
    ComputeResponse where
  requestId := requestId
  outputData := []
  success := false
  error := some error.toText
  cpuTimeMs := 0
  memoryUsed := 0
  paymentRequired := paymentRequired
  paymentRequest :=
    match quote with
    | none => []
    | some quote =>
        match Compute.serializePaymentRequest quote with
        | .error _ => []
        | .ok bytes => bytes

/-- The answer to a challenge: the segment, where the chunk has it. -/
def verificationResponse (asked : VerificationChallenge)
    (stored : Option (List UInt8)) : VerificationResponse :=
  let start := asked.segmentIndex.toNat * SEGMENT_SIZE
  let segment := stored.bind fun data =>
    if data.length ≤ start then none
    else some (slice data start
      (min (start + SEGMENT_SIZE) data.length - start))
  ⟨asked.chunkId, asked.segmentIndex, asked.nonce, segment.getD [],
    segment.isSome⟩

/-- Every list of chunks an owner renews is that of a publication: its
chunks and its manifest. -/
def RenewsPublications (P : Prims) (rs : ErasureCode) (mgr : LeaseManager) : Prop :=
  ∀ id ids, mgr.contentChunks.get id = some ids →
    ∃ d file r em, prepareContent P rs d file = .ok r
      ∧ ids = r.1.map EncryptedChunk.id ++ [em]

/-- The bodies that the node's own code builds. -/
inductive Built (P : Prims) (rs : ErasureCode) (rr : ErasureRepair)
    (json : Json) : Body → Prop
  /-- a request in one body -/
  | plainRequest (chunkId : ChunkId) (self : SelfRoute) :
      Built P rs rr json (.chunkRequest ⟨chunkId, self.returnRoute, none⟩)
  /-- a request with a reply block -/
  | surbRequest {d : PacketDraws} {route : HybridRoute} {surb : Surb}
      {secret : SurbSecret} (chunkId : ChunkId) :
      createSurbHybrid P d route = .ok (surb, secret) →
      Built P rs rr json (.chunkRequest (surbRequest chunkId surb))
  /-- an answer from the holder, or a chunk that is reseeded -/
  | chunkResponse (chunkId : ChunkId) {stored : Option (List UInt8)} :
      (∀ data, stored = some data → Stored P rs rr json data) →
      Built P rs rr json (.chunkResponse (chunkResponse chunkId stored))
  | computeRequest (self : SelfRoute) (moduleContentPubKey : Bytes 32)
      (currency : Currency) (requestId : RequestId)
      (inputData : List UInt8) :
      Built P rs rr json (.computeRequest (submittedRequest P self
        moduleContentPubKey currency requestId inputData))
  | succeeded (requestId : RequestId) (outputData : List UInt8)
      (cpuTimeMs memoryUsed : UInt64) :
      Built P rs rr json (.computeResponse (succeeded requestId outputData
        cpuTimeMs memoryUsed))
  /-- an error text of the execution engine is no 4 GiB long -/
  | failed (requestId : RequestId) {error : ComputeError}
      (paymentRequired : Bool) (quote : Option PaymentRequest) :
      (asBytes error.toText).length < 2 ^ 32 →
      Built P rs rr json (.computeResponse (failed requestId error
        paymentRequired quote))
  | paymentRequest (cfg : ComputeConfig) (r : ComputeRequest)
      (currency : Currency) (address : String) :
      Built P rs rr json (.paymentRequest (Provider.quote cfg r currency
        address))
  | paymentConfirmation (requestId : RequestId) (txHash : String)
      (currency : Currency) :
      Built P rs rr json (.paymentConfirmation ⟨requestId, txHash, currency⟩)
  | challenge (chunkId : ChunkId) (segmentIndex : UInt32)
      (nonce : Bytes 32) (self : SelfRoute) :
      Built P rs rr json (.challenge ⟨chunkId, segmentIndex, nonce,
        self.returnRoute⟩)
  | response (asked : VerificationChallenge)
      (stored : Option (List UInt8)) :
      Built P rs rr json (.response (verificationResponse asked stored))
  | gossip (contentId : ContentId) (chunkId : ChunkId)
      (timestamp : UInt64) (self : SelfRoute) :
      Built P rs rr json (.gossip ⟨contentId, chunkId, timestamp,
        self.returnRoute⟩)
  /-- the new expiry is a sum of `u64`s -/
  | heartbeat {mgr : LeaseManager} {contentId : ContentId}
      {duration now : Nat} {signingKey : SigningKey} {nonce : Bytes 32}
      {hb : Heartbeat} : RenewsPublications P rs mgr → now + duration < 2 ^ 64 →
      mgr.createHeartbeat P contentId duration signingKey now nonce
        = .ok hb →
      Built P rs rr json (.heartbeat hb)

-- ========== they fit

section Fits

variable {P : Prims} {rs : ErasureCode} {rr : ErasureRepair} {json : Json}

/-- A heartbeat renews the chunks of one publication. -/
theorem createHeartbeat_fits (hsizes : ErasureSizes rs rr)
    {mgr : LeaseManager} {contentId : ContentId} {duration now : Nat}
    {signingKey : SigningKey} {nonce : Bytes 32} {hb : Heartbeat}
    (hpub : RenewsPublications P rs mgr) (htime : now + duration < 2 ^ 64)
    (h : mgr.createHeartbeat P contentId duration signingKey now nonce
      = .ok hb) : (Body.heartbeat hb).Fits := by
  unfold LeaseManager.createHeartbeat at h
  cases howned : mgr.ownedContent.get contentId with
  | none =>
      rw [howned] at h
      cases h
  | some masterKey =>
      rw [howned] at h
      cases hids : mgr.contentChunks.get contentId with
      | none =>
          rw [hids] at h
          cases h
      | some ids =>
          rw [hids] at h
          obtain ⟨d, file, r, em, hprepare, heq⟩ := hpub contentId ids hids
          have hcount : ids.length ≤ MAX_HEARTBEAT_CHUNKS := by
            have hle := (prepareContent_sizes hsizes hprepare).1
            rw [heq, List.length_append, List.length_map,
              List.length_singleton]
            exact Nat.le_trans (Nat.succ_le_succ hle) (by decide)
          cases ids with
          | nil => cases h
          | cons first rest =>
              cases h
              refine ⟨htime, hcount, ?_⟩
              exact Nat.le_of_eq (Bytes.length_toList _)

theorem renewsPublications_new : RenewsPublications P rs .new := by
  intro id ids h
  cases h

/-- Registering a publication keeps to publications. -/
theorem RenewsPublications.register {mgr : LeaseManager}
    (h : RenewsPublications P rs mgr) {d : PublishDraws}
    {file : List UInt8} {r : List EncryptedChunk × ContentManifest}
    (hprepare : prepareContent P rs d file = .ok r) (contentId : ContentId)
    (key : SymmetricKey) (em : ChunkId) :
    RenewsPublications P rs (mgr.registerOwnedContent contentId key
      (r.1.map EncryptedChunk.id ++ [em])) := by
  intro id ids hget
  unfold LeaseManager.registerOwnedContent at hget
  by_cases hid : id = contentId
  · rw [hid] at hget
    dsimp only at hget
    rw [FMap.get_insert_self] at hget
    exact ⟨d, file, r, em, hprepare, (Option.some.inj hget).symm⟩
  · dsimp only at hget
    rw [FMap.get_insert_ne _ _ hid] at hget
    exact h id ids hget

/-- So does publishing, in every mode, whether it fails or not. -/
theorem RenewsPublications.publish (env : PublishEnv) (d : PublishDraws)
    (file : List UInt8) {s : PublisherState}
    (h : RenewsPublications P rs s.runner.transport.leaseManager) :
    RenewsPublications P rs (publishContentIn P rs json env d file
      s).2.1.runner.transport.leaseManager := by
  unfold publishContentIn
  cases hprepare : prepareContent P rs d file with
  | error e =>
      by_cases hmode : env.mode = .seedOnly
      · rw [if_pos hmode]
        exact h
      · rw [if_neg hmode, publishContent, hprepare]
        exact h
  | ok r =>
      by_cases hmode : env.mode = .seedOnly
      · rw [if_pos hmode]
        dsimp only
        unfold publishViaSponsor
        cases hsponsor : findSponsor env (keepManifest P d r.2
            (keepKeypair P d s.runner)) with
        | none =>
            dsimp only
            exact h
        | some sponsor => exact h.register hprepare _ _ _
      · rw [if_neg hmode, publishContent, hprepare]
        exact h.register hprepare _ _ _

/-- What the node builds fits its layout. -/
theorem Built.fits (hsizes : ErasureSizes rs rr) {body : Body}
    (h : Built P rs rr json body) : body.Fits := by
  -- every return route is one back to the node itself
  have hroute : ∀ self : SelfRoute, self.returnRoute.hops.length ≤ 32 :=
    fun self => Nat.le_trans self.length_le (by decide)
  cases h with
  | plainRequest chunkId self =>
      refine ⟨hroute self, ?_⟩
      intro surb hsurb
      cases hsurb
  | surbRequest chunkId hsurb =>
      refine ⟨Nat.zero_le _, ?_⟩
      intro bytes hbytes
      cases hbytes
      exact Surb.length_serialize_le (createSurbHybrid_clear hsurb).1
  | @chunkResponse chunkId stored hstored =>
      cases stored with
      | none => exact Nat.two_pow_pos 32
      | some data => exact (hstored data rfl).length_lt hsizes
  | computeRequest self _ _ _ _ => exact hroute self
  | succeeded _ _ _ _ =>
      intro text htext
      cases htext
  | @failed _ error _ _ hlen =>
      intro text htext
      cases htext
      exact ⟨error.toText_pos, hlen⟩
  | challenge _ _ _ self => exact hroute self
  | gossip _ _ _ self => exact hroute self
  | heartbeat hpub htime hhb =>
      exact createHeartbeat_fits hsizes hpub htime hhb
  | _ => trivial

end Fits

/-- Every body the node builds and its writer accepts is read back, from
the bytes and from the bytes with padding behind; and no reader takes a
buffer with the type byte of another kind. -/
theorem bodies_round_trip (P : Prims) (rs : ErasureCode)
    (rr : ErasureRepair) (json : Json) (hsizes : ErasureSizes rs rr) :
    (∀ body bytes, Built P rs rr json body → body.serialize = .ok bytes →
      ∀ pad, body.Padding pad →
        body.kind.deserialize.run (bytes ++ pad) = .ok body)
    ∧ ∀ (k : BodyKind) (b : UInt8) (data : List UInt8), b ≠ k.type →
      ∃ e, k.deserialize.run (b :: data) = .error (.error e) := by
  refine ⟨?_, ?_⟩
  · intro body bytes hbuilt hbytes pad hpad
    exact (Body.reads (hbuilt.fits hsizes) hbytes hpad).run
  · intro k b data hne
    exact ⟨_, BodyKind.refuses hne data⟩

/-- Two copies keep their sizes. -/
theorem mirror_sizes : ErasureSizes mirrorCode mirrorRepair where
  shards_le := by
    intro k n shards out h
    by_cases hone : k = 1 ∧ n = 1
    · rw [hone.1, hone.2]
      decide
    · unfold mirrorCode at h
      dsimp only at h
      rw [if_neg hone] at h
      cases h
  encoded := by
    intro k n shards out size h hall s hs
    by_cases hone : k = 1 ∧ n = 1
    · unfold mirrorCode at h
      dsimp only at h
      rw [if_pos hone] at h
      cases h
      refine hall s (List.mem_of_mem_take (i := 1) ?_)
      rcases List.mem_append.1 hs with hs | hs
      · exact hs
      · exact hs
    · unfold mirrorCode at h
      dsimp only at h
      rw [if_neg hone] at h
      cases h
  filled := by
    intro k n received out h s hs
    unfold mirrorRepair at h
    dsimp only at h
    by_cases hone : k = 1 ∧ n = 1
    · rw [if_pos hone] at h
      cases hfind : received.findSome? id with
      | none =>
          rw [hfind] at h
          cases h
      | some shard =>
          rw [hfind] at h
          cases h
          obtain ⟨_, _, rfl⟩ := List.mem_map.1 hs
          obtain ⟨held, hheld, heq⟩ := List.exists_of_findSome?_eq_some hfind
          exact ⟨shard, heq ▸ hheld, rfl⟩
    · rw [if_neg hone] at h
      cases h

/-- A node that knows nobody, and a challenge it sends. -/
def loneRoute : SelfRoute where
  table := .new (Bytes.fill 16 1)
  order := IterOrder.bytewise
  shuffle := id
  nodeId := Bytes.fill 16 1
  publicKey := Bytes.fill 32 2
  kemPublicKey := []

theorem bodies_round_trip_challenge :
    ∃ bytes, Verification.serializeChallenge ⟨Bytes.fill 32 3, 7,
        Bytes.fill 32 4, loneRoute.returnRoute⟩ = .ok bytes
      ∧ BodyKind.challenge.deserialize.run
          (bytes ++ List.replicate 5 0)
        = .ok (.challenge ⟨Bytes.fill 32 3, 7, Bytes.fill 32 4,
          loneRoute.returnRoute⟩) :=
  ⟨_, rfl, (bodies_round_trip .plain mirrorCode mirrorRepair unaryJson
    mirror_sizes).1 (.challenge ⟨Bytes.fill 32 3, 7, Bytes.fill 32 4,
      loneRoute.returnRoute⟩) _ (.challenge _ _ _ loneRoute) rfl _ trivial⟩

end StaticNet
