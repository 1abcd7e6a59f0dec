/-
Anonymous chunk retrieval: the request and response formats
(`static-storage/src/retrieval.rs`), the requester's table of pending
retrievals, and what a holder answers (`static-mesh/src/retrieval.rs`).
-/
import StaticNet.Content.Basic
import StaticNet.Retrieval.Fragment
import StaticNet.Sphinx.Surb

namespace StaticNet

-- ========== messages

def MSG_CHUNK_REQUEST : UInt8 := 1

def MSG_CHUNK_RESPONSE : UInt8 := 2

def MAX_RETRIEVAL_ROUTE_HOPS : Nat := 32

def MAX_SERIALIZED_SURB_SIZE : Nat := 16 * 1024

structure ReturnRoute where
  hops : List RouteHop
  destination : NodeId
deriving DecidableEq

structure ChunkRequest where
  chunkId : ChunkId
  returnRoute : ReturnRoute
  surb : Option (List UInt8)
deriving DecidableEq

def serializeHop (hop : RouteHop) : List UInt8 :=
  hop.publicKey.toList ++ hop.nodeId.toList

def serializeRequest (req : ChunkRequest) : List UInt8 :=
  [MSG_CHUNK_REQUEST]
    ++ (req.chunkId.toList
    ++ (beBytes 4 req.returnRoute.hops.length
    ++ ((req.returnRoute.hops.map serializeHop).flatten
    ++ (req.returnRoute.destination.toList
    ++ match req.surb with
      | none => []
      | some surb => [1] ++ (beBytes 4 surb.length ++ surb)))))

/-- The hop loop: `n` hops from `rest`, at this offset in `len` bytes. -/
def readHops (len : Nat) : Nat → Nat → List UInt8 →
    Except StorageError (List RouteHop × Nat × List UInt8)
  | 0, offset, rest => .ok ([], offset, rest)
  | n + 1, offset, rest =>
      if rest.length < 48 then
        .error (.invalidChunkSize (offset + 48) len)
      else
        let hop : RouteHop :=
          ⟨Bytes.ofList 32 (rest.take 32),
            Bytes.ofList 16 ((rest.drop 32).take 16)⟩
        match readHops len n (offset + 48) (rest.drop 48) with
        | .error e => .error e
        | .ok (hops, offset, rest) => .ok (hop :: hops, offset, rest)

/-- The optional block at the end of a request: an all-zero tail is
padding. -/
def readSurb (len offset : Nat) (rest : List UInt8) :
    Except StorageError (Option (List UInt8)) :=
  if rest.any (fun b => b ≠ 0) then
    if rest.length < 5 ∨ rest.getD 0 0 ≠ 1 then
      .error (.invalidChunkSize (offset + 5) len)
    else
      let surbLen := ofBeBytes (slice rest 1 4)
      if MAX_SERIALIZED_SURB_SIZE < surbLen
          ∨ rest.length < 5 + surbLen then
        .error (.invalidChunkSize MAX_SERIALIZED_SURB_SIZE surbLen)
      else .ok (some (slice rest 5 surbLen))
  else .ok none

def deserializeRequest (data : List UInt8) :
    Except StorageError ChunkRequest :=
  if data.length = 0 then .error (.invalidChunkSize 1 0)
  else if data.getD 0 0 ≠ MSG_CHUNK_REQUEST then
    .error (.invalidChunkSize MSG_CHUNK_REQUEST.toNat
      (data.getD 0 0).toNat)
  else
    let rest := data.drop 1
    if rest.length < 32 then .error (.invalidChunkSize 33 data.length)
    else
      let chunkId := Bytes.ofList 32 (rest.take 32)
      let rest := rest.drop 32
      if rest.length < 4 then .error (.invalidChunkSize 37 data.length)
      else
        let hopCount := ofBeBytes (rest.take 4)
        let rest := rest.drop 4
        if MAX_RETRIEVAL_ROUTE_HOPS < hopCount then
          .error (.invalidChunkSize MAX_RETRIEVAL_ROUTE_HOPS hopCount)
        else
          match readHops data.length hopCount 37 rest with
          | .error e => .error e
          | .ok (hops, offset, rest) =>
              if rest.length < 16 then
                .error (.invalidChunkSize (offset + 16) data.length)
              else
                let destination := Bytes.ofList 16 (rest.take 16)
                match readSurb data.length (offset + 16)
                    (rest.drop 16) with
                | .error e => .error e
                | .ok surb => .ok ⟨chunkId, ⟨hops, destination⟩, surb⟩

def serializeResponse (resp : ChunkResponse) : List UInt8 :=
  [MSG_CHUNK_RESPONSE]
    ++ (resp.chunkId.toList
    ++ ([if resp.found then 1 else 0]
    ++ (beBytes 4 resp.chunkData.length ++ resp.chunkData)))

def deserializeResponse (data : List UInt8) :
    Except StorageError ChunkResponse :=
  if data.length = 0 then .error (.invalidChunkSize 1 0)
  else if data.getD 0 0 ≠ MSG_CHUNK_RESPONSE then
    .error (.invalidChunkSize MSG_CHUNK_RESPONSE.toNat
      (data.getD 0 0).toNat)
  else
    let rest := data.drop 1
    if rest.length < 32 then .error (.invalidChunkSize 33 data.length)
    else
      let chunkId := Bytes.ofList 32 (rest.take 32)
      let rest := rest.drop 32
      if rest.length < 1 then .error (.invalidChunkSize 34 data.length)
      else
        let found := rest.getD 0 0 = 1
        let rest := rest.drop 1
        if rest.length < 4 then .error (.invalidChunkSize 38 data.length)
        else
          let dataLen := ofBeBytes (rest.take 4)
          let rest := rest.drop 4
          if rest.length < dataLen then
            .error (.invalidChunkSize (38 + dataLen) data.length)
          else .ok ⟨chunkId, rest.take dataLen, found⟩

-- ==== the requester's table

inductive RetrievalError
  | sphinxError
  | invalidRequest
  | invalidFragment
  | reassemblyFailed
  | invalidResponse
  | noMatchingRetrieval
deriving DecidableEq

def MAX_PENDING_RETRIEVALS : Nat := 64

structure PendingRetrieval where
  chunkId : ChunkId
  reassembler : Reassembler
  createdAt : Nat

/-- The pending retrievals, and their order for eviction. -/
structure RetrievalManager where
  pending : FMap ChunkId PendingRetrieval
  order : List ChunkId

namespace RetrievalManager

def new : RetrievalManager := ⟨∅, []⟩

def startRetrieval (m : RetrievalManager) (chunkId : ChunkId)
    (now : Nat) : RetrievalManager :=
  if m.pending.contains chunkId then
    { pending := m.pending.modify chunkId fun p =>
        { p with createdAt := now }
      order := m.order.filter (fun id => id ≠ chunkId) ++ [chunkId] }
  else
    let full := MAX_PENDING_RETRIEVALS ≤ m.pending.len
    let kept :=
      match m.order with
      | oldest :: _ => if full then m.pending.erase oldest else m.pending
      | [] => m.pending
    let order := if full then m.order.drop 1 else m.order
    { pending := kept.insert chunkId
        ⟨chunkId, Reassembler.new now, now⟩
      order := order ++ [chunkId] }

/-- Drop one retrieval. -/
def remove (m : RetrievalManager) (id : ChunkId) : RetrievalManager where
  pending := m.pending.erase id
  order := m.order.filter fun kept => kept ≠ id

/-- The end of `process_fragment`: the target's reassembler has taken
the fragment; a complete one yields its response. -/
def finish (m : RetrievalManager) (target : ChunkId)
    (r : Reassembler) :
    Except RetrievalError (Option ChunkResponse) × RetrievalManager :=
  if r.isComplete then
    match r.reassemble with
    | .error _ => (.error .reassemblyFailed, m)
    | .ok data =>
        match deserializeResponse data with
        | .error _ => (.error .invalidResponse, m)
        | .ok response =>
            let m := m.remove response.chunkId
            (.ok (some response),
              if response.chunkId ≠ target then m.remove target else m)
  else (.ok none, m)

/-- `process_fragment`: the first session, in the table's order, that can
accept the fragment gets it. -/
def processFragment (m : RetrievalManager) (o : IterOrder ChunkId)
    (body : List UInt8) :
    Except RetrievalError (Option ChunkResponse) × RetrievalManager :=
  match deserializeFragment body with
  | .error _ => (.error .invalidFragment, m)
  | .ok f =>
      if f.totalFragments = 0
          ∨ MAX_FRAGMENTS_PER_MESSAGE < f.totalFragments
          ∨ f.totalFragments ≤ f.fragmentId then
        (.error .invalidFragment, m)
      else
        match o.find m.pending fun _ p => p.reassembler.canAccept f with
        | none => (.error .noMatchingRetrieval, m)
        | some (target, p) =>
            let added := p.reassembler.addFragment f
            let m := { m with
              pending := m.pending.insert target
                { p with reassembler := added.2 } }
            if added.1 then m.finish target added.2
            else (.error .noMatchingRetrieval, m)

end RetrievalManager

-- ======== the holder

structure SurbReplyPackets where
  firstPacket : SphinxPacket
  sessionReplies : List SessionReply
  firstHop : NodeId
deriving DecidableEq

/-- The AEAD nonce of a session reply: the first 12 bytes of its
nonce. -/
def replyAeadNonce (nonce : Bytes 32) : NonceBytes :=
  Bytes.ofList 12 (nonce.toList.take 12)

/-- One session reply: sealed for the requester, wrapped for the hops. -/
def sessionReply (P : Prims) (surb : Surb) (nonce : Bytes 32)
    (f : Fragment) : SessionReply where
  sessionId := surb.sessionId
  nonce := nonce
  body := wrapBody P surb.bodyKeys
    (P.encryptAad surb.bodyAeadKey (replyAeadNonce nonce)
      (serializeFragment f) surb.aadDestination.toList)

/-- `build_session_replies`: a fresh nonce for every fragment. -/
def buildSessionReplies (P : Prims) (surb : Surb) (nonces : Nat → Bytes 32)
    (fragments : List Fragment) : List SessionReply :=
  fragments.mapIdx fun i f => sessionReply P surb (nonces i) f

/-- What a holder answers about a chunk. -/
def chunkResponse (chunkId : ChunkId) (chunkData : Option (List UInt8)) :
    ChunkResponse :=
  ⟨chunkId, chunkData.getD [], chunkData.isSome⟩

def handleRetrievalRequestWithSurb (P : Prims) (nonces : Nat → Bytes 32)
    (requestBody : List UInt8) (chunkData : Option (List UInt8)) :
    Except RetrievalError SurbReplyPackets :=
  match deserializeRequest requestBody with
  | .error _ => .error .invalidRequest
  | .ok request =>
      match request.surb with
      | none => .error .invalidRequest
      | some surbBytes =>
          match Surb.deserialize surbBytes with
          | .error _ => .error .sphinxError
          | .ok surb =>
              let fragments := fragmentPayload (serializeResponse
                (chunkResponse request.chunkId chunkData))
              match fragments with
              | [] => .error .sphinxError
              | first :: rest =>
                  match wrapWithSurbHybrid P surb
                      (serializeFragment first) with
                  | .error _ => .error .sphinxError
                  | .ok firstPacket =>
                      .ok
                        { firstPacket := firstPacket
                          sessionReplies :=
                            buildSessionReplies P surb nonces rest
                          firstHop := surb.firstHop }

def decryptSessionReplyBody (P : Prims) (reply : SessionReply)
    (bodyAeadKey : SymmetricKey) (aadDestination : NodeId) :
    Except RetrievalError (List UInt8) :=
  match P.decryptAad bodyAeadKey (replyAeadNonce reply.nonce) reply.body
      aadDestination.toList with
  | some plaintext => .ok plaintext
  | none => .error .sphinxError

/-- The request `create_surb_request_packets` sends. -/
def surbRequest (chunkId : ChunkId) (surb : Surb) : ChunkRequest :=
  ⟨chunkId, ⟨[], surb.aadDestination⟩, some surb.serialize⟩

-- ======= round trips

theorem readHops_serialize (len offset : Nat) (hops : List RouteHop)
    (tail : List UInt8) :
    readHops len hops.length offset ((hops.map serializeHop).flatten ++ tail)
      = .ok (hops, offset + 48 * hops.length, tail) := by
  induction hops generalizing offset with
  | nil => rfl
  | cons hop hops ih =>
      have hcat : ((hop :: hops).map serializeHop).flatten ++ tail
          = hop.publicKey.toList ++ (hop.nodeId.toList
            ++ ((hops.map serializeHop).flatten ++ tail)) := by
        rw [List.map_cons, List.flatten_cons, serializeHop,
          List.append_assoc, List.append_assoc]
      have hdrop : ∀ rest : List UInt8,
          (hop.publicKey.toList ++ (hop.nodeId.toList ++ rest)).drop 48
            = rest := by
        intro rest
        rw [show 48 = 32 + 16 from rfl, ← List.drop_drop,
          List.drop_left' hop.publicKey.length_toList,
          List.drop_left' hop.nodeId.length_toList]
      rw [hcat, List.length_cons, readHops, if_neg (by simp; omega)]
      simp only [hdrop, ih, List.take_left' hop.publicKey.length_toList,
        List.drop_left' hop.publicKey.length_toList,
        List.take_left' hop.nodeId.length_toList, Bytes.ofList_toList]
      congr 3
      omega

theorem readSurb_nil (len offset : Nat) :
    readSurb len offset [] = .ok none := rfl

theorem readSurb_serialize (len offset : Nat) {surb : List UInt8}
    (h : surb.length ≤ MAX_SERIALIZED_SURB_SIZE) :
    readSurb len offset ([1] ++ (beBytes 4 surb.length ++ surb))
      = .ok (some surb) := by
  have hlen : ofBeBytes (beBytes 4 surb.length) = surb.length :=
    ofBeBytes_beBytes_of_lt (Nat.lt_of_le_of_lt h (by decide))
  have hsize : slice ([1] ++ (beBytes 4 surb.length ++ surb)) 1 4
      = beBytes 4 surb.length := by
    rw [slice_skip (by simp), List.length_singleton, Nat.sub_self,
      slice_here (length_beBytes _ _)]
  have hdata : slice ([1] ++ (beBytes 4 surb.length ++ surb)) 5
      surb.length = surb := by
    rw [slice_skip (by simp), List.length_singleton,
      slice_skip (by rw [length_beBytes]), length_beBytes, Nat.sub_self,
      slice_all rfl]
  rw [readSurb, if_pos (by simp), if_neg (by simp)]
  simp only [hsize, hlen, hdata]
  rw [if_neg]
  simp only [List.length_append, List.length_singleton, length_beBytes]
  omega

/-- A request within the decoder's bounds survives its encoding. -/
theorem deserializeRequest_serialize {req : ChunkRequest}
    (hhops : req.returnRoute.hops.length ≤ MAX_RETRIEVAL_ROUTE_HOPS)
    (hsurb : ∀ surb, req.surb = some surb →
      surb.length ≤ MAX_SERIALIZED_SURB_SIZE) :
    deserializeRequest (serializeRequest req) = .ok req := by
  obtain ⟨chunkId, ⟨hops, destination⟩, surb⟩ := req
  have hcount : ofBeBytes (beBytes 4 hops.length) = hops.length :=
    ofBeBytes_beBytes_of_lt (Nat.lt_of_le_of_lt hhops (by decide))
  simp only [serializeRequest, deserializeRequest, List.singleton_append,
    List.length_cons, Nat.add_eq_zero_iff, Nat.one_ne_zero, and_false,
    if_false, List.getD_cons_zero, ne_eq, not_true_eq_false,
    List.drop_succ_cons, List.drop_zero,
    List.take_left' chunkId.length_toList,
    List.drop_left' chunkId.length_toList,
    List.take_left' (length_beBytes 4 hops.length),
    List.drop_left' (length_beBytes 4 hops.length), hcount,
    readHops_serialize, List.take_left' destination.length_toList,
    List.drop_left' destination.length_toList, Bytes.ofList_toList]
  rw [if_neg (by simp), if_neg (by simp), if_neg (by simpa using hhops),
    if_neg (by simp)]
  cases surb with
  | none => simp only [readSurb_nil]
  | some surb =>
      have hread : ∀ len offset,
          readSurb len offset (1 :: (beBytes 4 surb.length ++ surb))
            = .ok (some surb) := fun len offset =>
        readSurb_serialize len offset (hsurb surb rfl)
      simp only [hread]

theorem deserializeResponse_serialize {resp : ChunkResponse}
    (h : resp.chunkData.length < 2 ^ 32) :
    deserializeResponse (serializeResponse resp) = .ok resp := by
  obtain ⟨chunkId, chunkData, found⟩ := resp
  have hlen : ofBeBytes (beBytes 4 chunkData.length) = chunkData.length :=
    ofBeBytes_beBytes_of_lt h
  simp only [serializeResponse, deserializeResponse,
    List.singleton_append, List.length_cons, Nat.add_eq_zero_iff,
    Nat.one_ne_zero, and_false, if_false, List.getD_cons_zero, ne_eq,
    not_true_eq_false, List.drop_succ_cons, List.drop_zero,
    List.take_left' chunkId.length_toList,
    List.drop_left' chunkId.length_toList,
    List.take_left' (length_beBytes 4 chunkData.length),
    List.drop_left' (length_beBytes 4 chunkData.length), hlen,
    Bytes.ofList_toList, List.take_length]
  rw [if_neg (by simp), if_neg (by simp), if_neg (by simp),
    if_neg (by simp)]
  cases found <;> rfl

end StaticNet
