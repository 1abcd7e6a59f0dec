/-
A chunk request on its way to a holder (`static-mesh/src/retrieval.rs`,
`fragment.rs` and `transport.rs`).

A request carries a whole reply block, so it is cut into bodies of its
own format: a type byte, the block's session id and a fragment. The
holder collects them in one session for each session id, which is not
one for each request: requests that share a reply block share the
session. They differ only in the chunk id, and the chunk id is in the
first piece (`surbRequest_pieces`), so whatever such a session collects
is always part of one of them (`Asked`).
-/
import StaticNet.Retrieval.Basic

namespace StaticNet

def MSG_SURB_CHUNK_REQUEST : UInt8 := 0x03

/-- What is left of a body after type, session id and fragment header. -/
def SURB_REQUEST_CHUNK_SIZE : Nat := BODY_SIZE - 1 - 32 - 12

def SURB_REQUEST_TIMEOUT_SECS : Nat := 120

def MAX_REASSEMBLER_MESSAGES : Nat := 64

-- ======== reassembly

/-- Sessions by message id, and their insertion order for eviction. -/
structure ReassemblyManager where
  sessions : FMap Nat Reassembler
  order : List Nat

namespace ReassemblyManager

def new : ReassemblyManager := ⟨∅, []⟩

/-- `get_or_create`: the table once the session exists. -/
def getOrCreate (m : ReassemblyManager) (id now : Nat) :
    ReassemblyManager :=
  if m.sessions.contains id then m
  else
    let full := MAX_REASSEMBLER_MESSAGES ≤ m.sessions.len
    let kept :=
      match m.order with
      | oldest :: _ => if full then m.sessions.erase oldest else m.sessions
      | [] => m.sessions
    let order := if full then m.order.drop 1 else m.order
    { sessions := kept.insert id (Reassembler.new now)
      order := order ++ [id] }

def addFragment (m : ReassemblyManager) (id : Nat) (f : Fragment)
    (now : Nat) : Bool × ReassemblyManager :=
  if f.totalFragments = 0
      ∨ MAX_FRAGMENTS_PER_MESSAGE < f.totalFragments
      ∨ f.totalFragments ≤ f.fragmentId then (false, m)
  else
    let m := m.getOrCreate id now
    match m.sessions.get id with
    | none => (false, m)
    | some r =>
        let added := r.addFragment f
        (added.1, { m with sessions := m.sessions.insert id added.2 })

/-- `remove`, and whether there was a session. -/
def remove (m : ReassemblyManager) (id : Nat) : Bool × ReassemblyManager :=
  if m.sessions.contains id then
    (true,
      { sessions := m.sessions.erase id
        order := m.order.filter fun kept => kept ≠ id })
  else (false, m)

/-- Is there a session under this id, and has it run out of time? -/
def expired (m : ReassemblyManager) (now timeoutSecs id : Nat) : Bool :=
  (m.sessions.get id).any fun r => r.isExpired now timeoutSecs

/-- `cleanup_expired`: the expired sessions go from the map and from the
order. -/
def cleanupExpired (m : ReassemblyManager) (now timeoutSecs : Nat) :
    ReassemblyManager where
  sessions := m.sessions.retain fun _ r => !r.isExpired now timeoutSecs
  order := m.order.filter fun id => !m.expired now timeoutSecs id

end ReassemblyManager

-- ========== requests

/-- The pieces of a request. -/
def surbRequestFragments (requestBytes : List UInt8) : List Fragment :=
  let total := max ((requestBytes.length + SURB_REQUEST_CHUNK_SIZE - 1)
    / SURB_REQUEST_CHUNK_SIZE) 1
  (List.range total).map fun i =>
    { fragmentId := i
      totalFragments := total
      data := (requestBytes.drop (i * SURB_REQUEST_CHUNK_SIZE)).take
        SURB_REQUEST_CHUNK_SIZE }

/-- One body: type, session id, compact fragment. -/
def surbRequestBody (sessionId : SessionId) (f : Fragment) : List UInt8 :=
  MSG_SURB_CHUNK_REQUEST :: (sessionId.toList
    ++ (beBytes 4 f.fragmentId
    ++ (beBytes 4 f.totalFragments
    ++ (beBytes 4 f.data.length ++ f.data))))

/-- `build_surb_request_bodies`. -/
def buildSurbRequestBodies (requestBytes : List UInt8)
    (sessionId : SessionId) : List (List UInt8) :=
  (surbRequestFragments requestBytes).map (surbRequestBody sessionId)

/-- The key a holder collects under: the first eight bytes of the session
id. -/
def requestKey (sessionId : SessionId) : Nat :=
  ofBeBytes (sessionId.toList.take 8)

/-- `try_feed_surb_request_fragment`: not a request's body, a piece that
leaves the request incomplete, or the whole request. -/
def tryFeedSurbRequestFragment (m : ReassemblyManager) (body : List UInt8)
    (now : Nat) : Option (Option (List UInt8)) × ReassemblyManager :=
  if body.length < 1 + 32 + FRAGMENT_HEADER_SIZE then (none, m)
  else if body.getD 0 0 ≠ MSG_SURB_CHUNK_REQUEST then (none, m)
  else
    match deserializeFragment (body.drop (1 + 32)) with
    | .error _ => (none, m)
    | .ok f =>
        let key := ofBeBytes (slice body 1 8)
        let m := m.cleanupExpired now SURB_REQUEST_TIMEOUT_SECS
        let added := m.addFragment key f now
        if !added.1 then (some none, added.2)
        else
          match added.2.sessions.get key with
          | none => (none, added.2)
          | some r =>
              if !r.isComplete then (some none, added.2)
              else
                match r.reassemble with
                | .error _ => (none, added.2)
                | .ok data => (some (some data), (added.2.remove key).2)

/-- A body that reaches a holder: a request of one body is served at
once, a piece of a longer one when it is the last. -/
def requestOf (m : ReassemblyManager) (body : List UInt8) (now : Nat) :
    Option (List UInt8) × ReassemblyManager :=
  match deserializeRequest body with
  | .ok _ => (some body, m)
  | .error _ =>
      let fed := tryFeedSurbRequestFragment m body now
      (fed.1.getD none, fed.2)

/-- `serve_chunk_request` on the session-based path: the packets of the
answer, or nothing for what does not parse. -/
def serveChunkRequest (P : Prims) (nonces : Nat → Bytes 32)
    (chunks : ChunkId → Option (List UInt8)) (requestBody : List UInt8) :
    Option SurbReplyPackets :=
  match deserializeRequest requestBody with
  | .error _ => none
  | .ok request =>
      if request.surb.isSome then
        (handleRetrievalRequestWithSurb P nonces requestBody
          (chunks request.chunkId)).toOption
      else none

-- ======== the pieces

/-- The pieces of a request for a chunk, to be answered with `surb`. -/
def requestPieces (surb : Surb) (chunkId : ChunkId) : List Fragment :=
  surbRequestFragments (serializeRequest (surbRequest chunkId surb))

section Pieces

variable {surb : Surb} {c c' : ChunkId} {f : Fragment}

/-- What follows the chunk id in a request. -/
def requestTail (surb : Surb) : List UInt8 :=
  beBytes 4 0 ++ (surb.aadDestination.toList
    ++ ([1] ++ (beBytes 4 surb.serialize.length ++ surb.serialize)))

theorem serializeRequest_surb (surb : Surb) (c : ChunkId) :
    serializeRequest (surbRequest c surb)
      = (MSG_CHUNK_REQUEST :: c.toList) ++ requestTail surb := rfl

theorem length_requestHead (c : ChunkId) :
    (MSG_CHUNK_REQUEST :: c.toList).length = 33 := by
  rw [List.length_cons, c.length_toList]

theorem length_serializeRequest (surb : Surb) (c : ChunkId) :
    (serializeRequest (surbRequest c surb)).length
      = 58 + surb.serialize.length := by
  rw [serializeRequest_surb, List.length_append, length_requestHead]
  simp only [requestTail, List.length_append, length_beBytes,
    Bytes.length_toList, List.length_singleton]
  omega

theorem requestPieces_fragmentation (hwf : surb.WellFormed)
    (c : ChunkId) :
    Fragmentation (requestPieces surb c)
      (serializeRequest (surbRequest c surb)) := by
  have hlen := length_serializeRequest surb c
  have hfits := Surb.length_serialize_le hwf
  unfold requestPieces
  generalize serializeRequest (surbRequest c surb) = bytes at hlen
  have hm : SURB_REQUEST_CHUNK_SIZE = 979 := rfl
  have hcover := le_ceil_mul (by decide : 0 < SURB_REQUEST_CHUNK_SIZE)
    bytes.length
  refine fragmentation_windows (m := SURB_REQUEST_CHUNK_SIZE) ?_ ?_
    (by decide) ?_
  · exact Nat.lt_of_lt_of_le Nat.one_pos (Nat.le_max_right _ _)
  · have hx : MAX_FRAGMENTS_PER_MESSAGE = 2048 := rfl
    rw [hm, hx]
    omega
  · have hceil : (SURB_REQUEST_CHUNK_SIZE - 1 + bytes.length)
        = bytes.length + SURB_REQUEST_CHUNK_SIZE - 1 := by
      rw [hm]
      omega
    rw [hceil] at hcover
    exact Nat.le_trans hcover
      (Nat.mul_le_mul_right _ (Nat.le_max_left _ _))

/-- Requests with one reply block have as many pieces, and the same ones
after the first. -/
theorem requestPieces_shared (surb : Surb) (c c' : ChunkId) :
    (requestPieces surb c).length = (requestPieces surb c').length
      ∧ ∀ i, 0 < i →
        (requestPieces surb c)[i]? = (requestPieces surb c')[i]? := by
  have hlen : (serializeRequest (surbRequest c surb)).length
      = (serializeRequest (surbRequest c' surb)).length := by
    rw [length_serializeRequest, length_serializeRequest]
  have hdrop : ∀ (c : ChunkId) (n : Nat), 33 ≤ n →
      (serializeRequest (surbRequest c surb)).drop n
        = (requestTail surb).drop (n - 33) := by
    intro c n hn
    rw [serializeRequest_surb, List.drop_append, length_requestHead,
      List.drop_eq_nil_of_le (by rw [length_requestHead]; exact hn),
      List.nil_append]
  unfold requestPieces surbRequestFragments
  rw [hlen]
  refine ⟨by simp only [List.length_map], ?_⟩
  intro i hi
  have hfar : 33 ≤ i * SURB_REQUEST_CHUNK_SIZE := by
    have hm : SURB_REQUEST_CHUNK_SIZE = 979 := rfl
    rw [hm]
    omega
  rw [List.getElem?_map, List.getElem?_map]
  refine Option.map_congr ?_
  intro j hj
  obtain ⟨hlt, hget⟩ := List.getElem?_eq_some_iff.1 hj
  obtain rfl : i = j := by rw [← hget, List.getElem_range]
  rw [hdrop c _ hfar, hdrop c' _ hfar]

/-- A piece's body, as it reaches the holder, is not a request of one
body. -/
theorem deserializeRequest_piece (sessionId : SessionId) (f : Fragment) :
    ∃ e, deserializeRequest
      (padTo BODY_SIZE (surbRequestBody sessionId f)) = .error e := by
  refine ⟨.invalidChunkSize MSG_CHUNK_REQUEST.toNat
    MSG_SURB_CHUNK_REQUEST.toNat, ?_⟩
  have hne : MSG_SURB_CHUNK_REQUEST ≠ MSG_CHUNK_REQUEST := by decide
  simp only [deserializeRequest, padTo, surbRequestBody, List.cons_append,
    List.length_cons, Nat.succ_ne_zero, if_false, List.getD_cons_zero,
    hne, ne_eq, not_false_eq_true, if_true]

end Pieces

-- ======== collecting

namespace ReassemblyManager

variable {m : ReassemblyManager} {id now : Nat} {f : Fragment}

/-- The session a fragment is added to: the one there is, or a new
one. -/
def sessionFor (m : ReassemblyManager) (id now : Nat) : Reassembler :=
  (m.sessions.get id).getD (Reassembler.new now)

/-- No session under this id has run out of time. -/
def Live (m : ReassemblyManager) (id now : Nat) : Prop :=
  ∀ r, m.sessions.get id = some r →
    now - r.createdAt < SURB_REQUEST_TIMEOUT_SECS

theorem get_getOrCreate (m : ReassemblyManager) (id now : Nat) :
    (m.getOrCreate id now).sessions.get id
      = some (m.sessionFor id now) := by
  unfold getOrCreate sessionFor
  cases hget : m.sessions.get id with
  | none =>
      rw [FMap.contains, hget, Option.isSome_none, if_neg (by decide)]
      exact FMap.get_insert_self _ _ _
  | some r =>
      rw [FMap.contains, hget, Option.isSome_some, if_pos rfl, hget]
      rfl

theorem get_cleanupExpired (hlive : m.Live id now) :
    (m.cleanupExpired now SURB_REQUEST_TIMEOUT_SECS).sessions.get id
      = m.sessions.get id := by
  unfold cleanupExpired
  rw [FMap.get_retain]
  cases hget : m.sessions.get id with
  | none => rfl
  | some r =>
      have hage := hlive r hget
      have hkept : r.isExpired now SURB_REQUEST_TIMEOUT_SECS = false := by
        rw [Reassembler.isExpired, decide_eq_false_iff_not]
        omega
      rw [Option.filter_some, hkept]
      rfl

theorem get_remove_self (m : ReassemblyManager) (id : Nat) :
    (m.remove id).2.sessions.get id = none := by
  unfold remove
  by_cases hheld : m.sessions.contains id = true
  · rw [if_pos hheld]
    exact FMap.get_erase_self _ _
  · rw [if_neg hheld]
    exact Option.isNone_iff_eq_none.1
      (Option.isSome_eq_false_iff.1 (Bool.eq_false_iff.2 hheld))

/-- Adding a valid fragment is adding it to its session. -/
theorem addFragment_valid (m : ReassemblyManager) (id now : Nat)
    (hf : f.Valid) :
    ∃ m', m.addFragment id f now
        = (((m.sessionFor id now).addFragment f).1, m')
      ∧ m'.sessions.get id
        = some ((m.sessionFor id now).addFragment f).2 := by
  obtain ⟨hpos, hmax, hid, -⟩ := hf
  unfold addFragment
  rw [if_neg (by omega)]
  simp only [get_getOrCreate]
  exact ⟨_, rfl, FMap.get_insert_self _ _ _⟩

end ReassemblyManager

section Feeding

variable {m : ReassemblyManager} {now : Nat} {f : Fragment}
  {sessionId : SessionId}

/-- What the holder reads off a piece's body. -/
theorem piece_fields (hf : f.Valid) (sessionId : SessionId) :
    let body := padTo BODY_SIZE (surbRequestBody sessionId f)
    1 + 32 + FRAGMENT_HEADER_SIZE ≤ body.length
      ∧ body.getD 0 0 = MSG_SURB_CHUNK_REQUEST
      ∧ deserializeFragment (body.drop (1 + 32)) = .ok f
      ∧ ofBeBytes (slice body 1 8) = requestKey sessionId := by
  have hsid := sessionId.length_toList
  intro body
  obtain ⟨pad, hbody⟩ : ∃ pad, body = MSG_SURB_CHUNK_REQUEST
      :: (sessionId.toList ++ (beBytes 4 f.fragmentId
        ++ (beBytes 4 f.totalFragments
        ++ (beBytes 4 f.data.length ++ (f.data ++ pad))))) := by
    refine ⟨List.replicate
      (BODY_SIZE - (surbRequestBody sessionId f).length) 0, ?_⟩
    simp only [body, padTo, surbRequestBody, List.cons_append,
      List.append_assoc]
  rw [hbody]
  refine ⟨?_, rfl, ?_, ?_⟩
  · simp only [List.length_cons, List.length_append, length_beBytes,
      FRAGMENT_HEADER_SIZE]
    omega
  · rw [show (1 + 32 : Nat) = 32 + 1 from rfl, List.drop_succ_cons,
      List.drop_left' hsid, deserializeFragment_append hf]
  · rw [slice, List.drop_succ_cons, List.drop_zero,
      List.take_append_of_le_length (by omega)]
    rfl

/-- A piece goes to the session of its block; a complete session yields
its request and is gone. -/
theorem tryFeed_piece (hf : f.Valid)
    (hlive : m.Live (requestKey sessionId) now) :
    ∃ m', m'.sessions.get (requestKey sessionId)
        = some ((m.sessionFor (requestKey sessionId) now).addFragment f).2
      ∧ tryFeedSurbRequestFragment m
          (padTo BODY_SIZE (surbRequestBody sessionId f)) now
        = match (m.sessionFor (requestKey sessionId) now).addFragment f with
          | (false, _) => (some none, m')
          | (true, r) =>
              if !r.isComplete then (some none, m')
              else
                match r.reassemble with
                | .error _ => (none, m')
                | .ok data =>
                    (some (some data),
                      (m'.remove (requestKey sessionId)).2) := by
  obtain ⟨hlong, htype, hfrag, hkey⟩ := piece_fields hf sessionId
  generalize padTo BODY_SIZE (surbRequestBody sessionId f) = body
    at hlong htype hfrag hkey
  have hsame : (m.cleanupExpired now SURB_REQUEST_TIMEOUT_SECS).sessionFor
      (requestKey sessionId) now
      = m.sessionFor (requestKey sessionId) now := by
    unfold ReassemblyManager.sessionFor
    rw [ReassemblyManager.get_cleanupExpired hlive]
  obtain ⟨m', hadd, hget⟩ := ReassemblyManager.addFragment_valid
    (m.cleanupExpired now SURB_REQUEST_TIMEOUT_SECS)
    (requestKey sessionId) now hf
  rw [hsame] at hadd hget
  refine ⟨m', hget, ?_⟩
  unfold tryFeedSurbRequestFragment
  rw [if_neg (by omega), if_neg (not_not.2 htype), hfrag]
  simp only [hkey, hadd]
  generalize (m.sessionFor (requestKey sessionId) now).addFragment f
    = added at hget
  obtain ⟨ok, r⟩ := added
  cases ok with
  | false => rfl
  | true =>
      simp only [hget]
      cases hc : r.isComplete with
      | false => rfl
      | true =>
          cases hr : r.reassemble with
          | error e => rfl
          | ok data => rfl

/-- So a piece that reaches the holder is no request of one body. -/
theorem requestOf_piece (hf : f.Valid)
    (hlive : m.Live (requestKey sessionId) now) :
    ∃ m', m'.sessions.get (requestKey sessionId)
        = some ((m.sessionFor (requestKey sessionId) now).addFragment f).2
      ∧ requestOf m (padTo BODY_SIZE (surbRequestBody sessionId f)) now
        = match (m.sessionFor (requestKey sessionId) now).addFragment f with
          | (false, _) => (none, m')
          | (true, r) =>
              if !r.isComplete then (none, m')
              else
                match r.reassemble with
                | .error _ => (none, m')
                | .ok data =>
                    (some data, (m'.remove (requestKey sessionId)).2) := by
  obtain ⟨e, hone⟩ := deserializeRequest_piece sessionId f
  obtain ⟨m', hget, hfed⟩ := tryFeed_piece hf hlive
  refine ⟨m', hget, ?_⟩
  unfold requestOf
  rw [hone]
  dsimp only
  rw [hfed]
  generalize (m.sessionFor (requestKey sessionId) now).addFragment f
    = added
  obtain ⟨ok, r⟩ := added
  cases ok with
  | false => rfl
  | true =>
      dsimp only
      cases r.isComplete with
      | false => rfl
      | true =>
          cases r.reassemble with
          | error e => rfl
          | ok data => rfl

end Feeding

-- ==== one session, many requests

/-- The pieces with these indices, of one of the requests `cs` that share
a block. Only the first piece tells which. -/
def Asked (surb : Surb) (cs : List ChunkId) (ids : Finset Nat)
    (r : Reassembler) : Prop :=
  ∃ c ∈ cs, Collected (requestPieces surb c) ids r

/-- What a holder's table holds under the block's key. -/
def Asks (surb : Surb) (cs : List ChunkId) (ids : Finset Nat)
    (m : ReassemblyManager) : Prop :=
  match m.sessions.get (requestKey surb.sessionId) with
  | none => ids = ∅
  | some r => Asked surb cs ids r

section Asked

variable {surb : Surb} {cs : List ChunkId} {c : ChunkId}
  {ids : Finset Nat} {r : Reassembler} {m : ReassemblyManager}
  {f : Fragment} {i now : Nat}

/-- A reassembler that lacks the first piece holds pieces of every one of
the requests. -/
theorem Asked.switch (h : Asked surb cs ids r) (hnot : 0 ∉ ids)
    (c' : ChunkId) : Collected (requestPieces surb c') ids r := by
  obtain ⟨c, -, htotal, hheld, hbound⟩ := h
  obtain ⟨hlen, hsame⟩ := requestPieces_shared surb c c'
  refine ⟨by rw [htotal, hlen], ?_, fun j hj => hlen ▸ hbound j hj⟩
  intro j
  rw [hheld]
  by_cases hj : j ∈ ids
  · rw [if_pos hj, if_pos hj, hsame j]
    exact Nat.pos_of_ne_zero fun hzero => hnot (hzero ▸ hj)
  · rw [if_neg hj, if_neg hj]

/-- A piece of one of the requests is one of the request the session is
collecting, unless it is the first and missing. -/
theorem Asked.of_piece (h : Asked surb cs ids r) (hc : c ∈ cs)
    (hf : (requestPieces surb c)[i]? = some f) (hi : i ∉ ids) :
    ∃ c' ∈ cs, Collected (requestPieces surb c') ids r
      ∧ f ∈ requestPieces surb c' := by
  by_cases hzero : 0 ∈ ids
  · obtain ⟨c', hc', hcol⟩ := h
    have hpos : 0 < i := Nat.pos_of_ne_zero fun h => hi (h ▸ hzero)
    rw [(requestPieces_shared surb c c').2 i hpos] at hf
    exact ⟨c', hc', hcol, List.mem_of_getElem? hf⟩
  · exact ⟨c, hc, h.switch hzero c, List.mem_of_getElem? hf⟩

/-- A piece the session has is refused. -/
theorem Asked.duplicate (hwf : surb.WellFormed) (h : Asked surb cs ids r)
    (hf : (requestPieces surb c)[i]? = some f) (hi : i ∈ ids) :
    r.addFragment f = (false, r) := by
  obtain ⟨c', -, htotal, hheld, hbound⟩ := h
  have hfrag := requestPieces_fragmentation hwf c
  obtain ⟨hid, hft, -⟩ := hfrag.piece i f hf
  obtain ⟨hpos, hmax, hlt, hdata⟩ := hfrag.valid (List.mem_of_getElem? hf)
  have hne : ids ≠ ∅ := fun h => Finset.notMem_empty i (h ▸ hi)
  rw [if_neg hne, (requestPieces_shared surb c' c).1, ← hft] at htotal
  have hin : r.fragments.contains f.fragmentId = true := by
    rw [FMap.contains, hid, hheld, if_pos hi,
      List.getElem?_eq_getElem (hbound i hi)]
    rfl
  rw [Reassembler.addFragment, if_neg (by omega), if_neg (by omega),
    if_neg (by omega), htotal]
  simp only [ne_eq, not_true_eq_false, if_false, Reassembler.store, hin,
    if_true]

/-- A piece of one of the requests reaches the holder: it is known, it is
one more, or it completes one of them. -/
theorem requestOf_asked (hwf : surb.WellFormed) (h : Asks surb cs ids m)
    (hlive : m.Live (requestKey surb.sessionId) now) (hc : c ∈ cs)
    (hf : (requestPieces surb c)[i]? = some f) :
    let out := requestOf m
      (padTo BODY_SIZE (surbRequestBody surb.sessionId f)) now
    (i ∈ ids ∧ out.1 = none ∧ Asks surb cs ids out.2)
      ∨ (i ∉ ids ∧ insert i ids ≠ Finset.range (requestPieces surb c).length
        ∧ out.1 = none ∧ Asks surb cs (insert i ids) out.2)
      ∨ (i ∉ ids ∧ insert i ids = Finset.range (requestPieces surb c).length
        ∧ (∃ c' ∈ cs,
          out.1 = some (serializeRequest (surbRequest c' surb)))
        ∧ Asks surb cs ∅ out.2) := by
  have hfrag := requestPieces_fragmentation hwf c
  have hid := (hfrag.piece i f hf).1
  obtain ⟨m', hget, hout⟩ := requestOf_piece
    (hfrag.valid (List.mem_of_getElem? hf)) hlive
  have hr : Asked surb cs ids
      (m.sessionFor (requestKey surb.sessionId) now) := by
    unfold Asks at h
    unfold ReassemblyManager.sessionFor
    cases hses : m.sessions.get (requestKey surb.sessionId) with
    | none =>
        rw [hses] at h
        subst h
        exact ⟨c, hc, Collected.new _ _⟩
    | some r =>
        rw [hses] at h
        exact h
  generalize m.sessionFor (requestKey surb.sessionId) now = r
    at hget hout hr
  have hasks : ∀ ids, Asked surb cs ids (r.addFragment f).2 →
      Asks surb cs ids m' := by
    intro ids hasked
    unfold Asks
    rw [hget]
    exact hasked
  intro out
  by_cases hi : i ∈ ids
  · rw [hr.duplicate hwf hf hi] at hasks
    have hout : out = (none, m') := by
      rw [hr.duplicate hwf hf hi] at hout
      exact hout
    rw [hout]
    exact Or.inl ⟨hi, rfl, hasks ids hr⟩
  · obtain ⟨c', hc', hcol, hmem⟩ := hr.of_piece hc hf hi
    have hfrag' := requestPieces_fragmentation hwf c'
    obtain ⟨-, r', hadd, hcol'⟩ := hcol.add hfrag' hmem (by rw [hid]; exact hi)
    have hout : out = (if !r'.isComplete then (none, m')
        else
          match r'.reassemble with
          | .error _ => (none, m')
          | .ok data =>
              (some data, (m'.remove (requestKey surb.sessionId)).2)) := by
      rw [hadd] at hout
      exact hout
    rw [hid] at hcol'
    rw [hadd] at hasks
    have hlen := (requestPieces_shared surb c' c).1
    have hiff := hcol'.isComplete_iff hfrag'.pos
    rw [hlen] at hiff
    cases hcomplete : r'.isComplete with
    | false =>
        rw [hcomplete] at hout hiff
        rw [hout]
        refine Or.inr (Or.inl ⟨hi, ?_, rfl, hasks _ ⟨c', hc', hcol'⟩⟩)
        exact fun heq => Bool.false_ne_true (hiff.2 heq)
    | true =>
        have hall := hiff.1 hcomplete
        rw [hall, ← hlen] at hcol'
        rw [hcomplete, hcol'.reassemble hfrag'] at hout
        rw [hout]
        refine Or.inr (Or.inr ⟨hi, hall, ⟨c', hc', rfl⟩, ?_⟩)
        unfold Asks
        simp only [Bool.not_true, Bool.false_eq_true, if_false,
          ReassemblyManager.get_remove_self]

end Asked

end StaticNet
