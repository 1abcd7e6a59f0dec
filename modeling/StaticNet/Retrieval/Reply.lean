/-
One request, one answer: whatever the order of the moves, the pieces of
an answer cross the return route and the requester puts them together.

The run invariant is `Answer.Sound` (ReplyNet.lean). Here it is
established for the packets a holder builds (`built_answer`,
`sound_start`), turned into arrival by counting moves
(`run_first_length`, `run_reply_length`), and handed to the retrieval
table (`feed_pieces`).
-/
import StaticNet.Retrieval.ReplyNet

namespace StaticNet

variable {P : Prims}

-- ========== progress

namespace Answer

variable {a : Answer} {kem : NodeId → List UInt8} {net : ReplyNet}

/-- A move of the packet takes it one hop further, until it arrives. -/
theorem Sound.first_length (h : a.Sound P kem net) (mv : Move) :
    (net.move P kem mv).first.path.length
      = min a.layers.length
        (net.first.path.length + if mv.isFirst then 1 else 0) := by
  obtain ⟨passed, rest, hsplit, hpath, hat⟩ := h.first
  have hlen : a.layers.length = net.first.path.length + rest.length := by
    rw [hsplit, hpath, List.length_append, List.length_map]
  cases mv with
  | first d =>
      cases rest with
      | nil =>
          simp only [FirstAt] at hat
          simp only [ReplyNet.move, ReplyNet.moveFirst, hat, Move.isFirst]
          simp only [List.length_nil, if_true] at hlen ⊢
          omega
      | cons l rest =>
          obtain ⟨packet, hplace, -⟩ := hat
          simp only [ReplyNet.move, ReplyNet.moveFirst, hplace,
            Move.isFirst, List.length_append, List.length_singleton]
          simp only [List.length_cons, if_true] at hlen ⊢
          omega
  | reply k now =>
      have hkeep : (net.move P kem (.reply k now)).first = net.first := by
        simp only [ReplyNet.move, ReplyNet.moveReply]
        split <;> rfl
      rw [hkeep]
      simp only [Move.isFirst, Bool.false_eq_true, if_false]
      omega
  | other id node =>
      simp only [ReplyNet.move, Move.isFirst, Bool.false_eq_true,
        if_false]
      omega

/-- How far a reply has come. -/
def replyLength (net : ReplyNet) (k : Nat) : Nat :=
  ((net.replies[k]?).map fun t => t.path.length).getD 0

theorem Sound.reply_length (hb : a.Built P) (h : a.Sound P kem net)
    (mv : Move) {k : Nat} (hk : k < a.nonces.length) :
    replyLength (net.move P kem mv) k
      = min a.layers.length
        (replyLength net k + if mv.isReply k then 1 else 0) := by
  have hrlt : k < net.replies.length := by rw [h.length_eq]; exact hk
  have hblt : k < a.bodies.length := by rw [hb.bodies_length]; exact hk
  have ht := List.getElem?_eq_getElem hrlt
  generalize net.replies[k] = t at ht
  obtain ⟨passed, rest, hsplit, hpath, hat⟩ := h.replies k t _ _ ht
    (List.getElem?_eq_getElem hk) (List.getElem?_eq_getElem hblt)
  have hlen : a.layers.length = t.path.length + rest.length := by
    rw [hsplit, hpath, List.length_append, List.length_map]
  have hold : replyLength net k = t.path.length := by
    rw [replyLength, ht]
    rfl
  cases mv with
  | first d =>
      have hkeep : (net.move P kem (.first d)).replies = net.replies := by
        simp only [ReplyNet.move, ReplyNet.moveFirst]
        split <;> rfl
      rw [replyLength, hkeep, ← replyLength, hold]
      simp only [Move.isReply, Bool.false_eq_true, if_false]
      omega
  | other id node =>
      have hkeep : (net.move P kem (.other id node)).replies
          = net.replies := rfl
      rw [replyLength, hkeep, ← replyLength, hold]
      simp only [Move.isReply, Bool.false_eq_true, if_false]
      omega
  | reply j now =>
      by_cases hjk : j = k
      · subst hjk
        obtain ⟨path, place⟩ := t
        cases rest with
        | nil =>
            simp only [ReplyAt] at hat
            rw [replyLength]
            simp only [ReplyNet.move, ReplyNet.moveReply, ht, hat]
            simp only [Move.isReply, decide_true, if_true,
              List.length_nil] at hlen ⊢
            rw [hold]
            simp only [Option.map_some, Option.getD_some]
            omega
        | cons l rest =>
            simp only [ReplyAt] at hat
            rw [replyLength]
            simp only [ReplyNet.move, ReplyNet.moveReply, ht, hat,
              List.getElem?_set_self hrlt, Option.map_some,
              Option.getD_some, List.length_append,
              List.length_singleton]
            simp only [Move.isReply, decide_true, if_true,
              List.length_cons] at hlen hold ⊢
            omega
      · have hkeep : (net.move P kem (.reply j now)).replies[k]?
            = net.replies[k]? := by
          simp only [ReplyNet.move, ReplyNet.moveReply]
          split
          · exact List.getElem?_set_ne hjk
          · rfl
        rw [replyLength, hkeep, ← replyLength, hold]
        simp only [Move.isReply, hjk, decide_false, Bool.false_eq_true,
          if_false]
        omega

theorem replyLength_start (nodes : NodeId → MixNode)
    (packets : SurbReplyPackets) (k : Nat) :
    replyLength (ReplyNet.start nodes packets) k = 0 := by
  unfold replyLength ReplyNet.start
  rw [List.getElem?_map]
  cases packets.sessionReplies[k]? <;> rfl

section Runs

variable {tags : List Mac} {moves : List Move}

theorem run_first_length (hb : a.Built P)
    (htags : ∀ l ∈ a.layers, (l.keys P).tag ∈ tags)
    (h : a.Sound P kem net)
    (hall : ReplyNet.AllAllowed P kem a.sessionId tags net moves) :
    min a.layers.length
        (net.first.path.length + moves.countP Move.isFirst)
      ≤ (net.run P kem moves).first.path.length := by
  induction moves generalizing net with
  | nil => exact Nat.min_le_right _ _
  | cons mv moves ih =>
      have hstep := h.first_length mv
      have hnext : a.Sound P kem (net.move P kem mv) :=
        h.move hb htags hall.1
      have hrec := ih hnext hall.2
      rw [List.countP_cons]
      rw [ReplyNet.run]
      omega

theorem run_reply_length (hb : a.Built P)
    (htags : ∀ l ∈ a.layers, (l.keys P).tag ∈ tags)
    (h : a.Sound P kem net)
    (hall : ReplyNet.AllAllowed P kem a.sessionId tags net moves)
    {k : Nat} (hk : k < a.nonces.length) :
    min a.layers.length
        (replyLength net k + moves.countP (Move.isReply k))
      ≤ replyLength (net.run P kem moves) k := by
  induction moves generalizing net with
  | nil => exact Nat.min_le_right _ _
  | cons mv moves ih =>
      have hstep := h.reply_length hb mv hk
      have hnext : a.Sound P kem (net.move P kem mv) :=
        h.move hb htags hall.1
      have hrec := ih hnext hall.2
      rw [List.countP_cons]
      rw [ReplyNet.run]
      omega

end Runs

/-- A packet that has crossed every layer has arrived. -/
theorem Sound.first_arrived (h : a.Sound P kem net)
    (hlen : a.layers.length ≤ net.first.path.length) :
    net.first.place = .arrived a.plaintext := by
  obtain ⟨passed, rest, hsplit, hpath, hat⟩ := h.first
  cases rest with
  | nil => exact hat
  | cons l rest =>
      rw [hsplit, hpath, List.length_append, List.length_map,
        List.length_cons] at hlen
      omega

theorem Sound.reply_arrived (h : a.Sound P kem net) {k : Nat}
    {t : Transit SessionReply SessionReply} {nonce : Bytes 32}
    {sealed : List UInt8} (ht : net.replies[k]? = some t)
    (hnonce : a.nonces[k]? = some nonce)
    (hbody : a.bodies[k]? = some sealed)
    (hlen : a.layers.length ≤ replyLength net k) :
    t.place = .arrived ⟨a.sessionId, nonce, sealed⟩ := by
  obtain ⟨passed, rest, hsplit, hpath, hat⟩ :=
    h.replies k t nonce sealed ht hnonce hbody
  rw [replyLength, ht] at hlen
  cases rest with
  | nil => exact hat
  | cons l rest =>
      simp only [Option.map_some, Option.getD_some, hsplit, hpath,
        List.length_append, List.length_map, List.length_cons] at hlen
      omega

end Answer

-- ======== the answer

/-- The node with this id, as a packet meets it. -/
def stopAt (nodes : NodeId → MixNode) (kem : NodeId → List UInt8)
    (d : MixDraws) (id : NodeId) : Stop := ⟨nodes id, kem id, d⟩

/-- The sealed bodies of the session replies. -/
def sealedBodies (P : Prims) (layers : List Layer) (destination : NodeId)
    (nonces : Nat → Bytes 32) (fragments : List Fragment) :
    List (List UInt8) :=
  fragments.mapIdx fun i f =>
    P.encryptAad (bodyAeadKey P (lastShared layers))
      (replyAeadNonce (nonces i)) (serializeFragment f) destination.toList

/-- The answer a holder builds from these fragments. -/
def builtAnswer (P : Prims) (d : PacketDraws) (layers : List Layer)
    (destination : NodeId) (nonces : Nat → Bytes 32) (first : Fragment)
    (rest : List Fragment) : Answer where
  layers := layers
  sessionId := d.sessionId
  destination := destination
  inner := innerBody P layers destination (serializeFragment first)
  plaintext := serializeFragment first
  nonces := rest.mapIdx fun i _ => nonces i
  bodies := sealedBodies P layers destination nonces rest

/-- The packets of that answer. -/
def replyPackets (P : Prims) (d : PacketDraws) (layers : List Layer)
    (destination : NodeId) (nonces : Nat → Bytes 32) (first : Fragment)
    (rest : List Fragment) : SurbReplyPackets where
  firstPacket :=
    { header := (hybridSurb P d destination layers).header
      kemCiphertexts := kemBlock d layers
      body := onion P (innerBody P layers destination
        (serializeFragment first)) layers }
  sessionReplies :=
    buildSessionReplies P (hybridSurb P d destination layers) nonces rest
  firstHop := (hybridSurb P d destination layers).firstHop

/-- The slot a hop of the return route reads. -/
def returnSlot (P : Prims) (d : PacketDraws) (destination : NodeId)
    (l : Layer) (rest : List Layer) : List UInt8 :=
  headSlot P SPHINX_VERSION_HYBRID d.sessionId destination
    (fun _ => placeholder) l rest

/-- The MAC tells these bodies from the placeholder, at every hop and with
the slot it reads. -/
def MacSeparates (P : Prims) (d : PacketDraws) (destination : NodeId)
    (inner : List UInt8) (layers : List Layer) : Prop :=
  ∀ l rest, l :: rest <:+ layers →
    computeMac P (l.keys P).macKey SPHINX_VERSION_HYBRID l.alpha
        d.sessionId (returnSlot P d destination l rest)
        (onion P inner (l :: rest))
      = computeMac P (l.keys P).macKey SPHINX_VERSION_HYBRID l.alpha
        d.sessionId (returnSlot P d destination l rest) placeholder →
    onion P inner (l :: rest) = placeholder

/-- No hop sees the placeholder itself. -/
def NoPlaceholder (P : Prims) (inner : List UInt8)
    (layers : List Layer) : Prop :=
  ∀ l rest, l :: rest <:+ layers → onion P inner (l :: rest) ≠ placeholder

/-- A reply block's packet is accepted through the fallback. -/
theorem matchMac_surb {d : PacketDraws} {destination : NodeId}
    {inner : List UInt8} {layers : List Layer}
    (hmac : MacSeparates P d destination inner layers)
    (hno : NoPlaceholder P inner layers) {l : Layer} {rest : List Layer}
    {packet : SphinxPacket} (hsuf : l :: rest <:+ layers)
    (h : InFlight P SPHINX_VERSION_HYBRID d.sessionId destination
      (fun _ => placeholder) inner KEM_BLOCK_SIZE (l :: rest) packet) :
    matchMac P (l.keys P) packet = .ok true := by
  have hmatch := h.mac_expected
  rw [matchMac, if_neg, if_pos hmatch]
  intro heq
  rw [hmatch, expectedMac, expectedMac, h.version_eq, h.session_eq,
    h.alpha_eq l rfl, h.body_eq, h.take_slot] at heq
  exact hno l rest hsuf (hmac l rest hsuf heq.symm)

theorem padTo_full {n : Nat} {l : List UInt8} (h : l.length = n) :
    padTo n l = l := by
  rw [padTo, h, Nat.sub_self]
  simp

theorem nodup_mapIdx {α β : Type} {f : Nat → β} {l : List α}
    (h : Set.InjOn f (Set.Iio l.length)) :
    (l.mapIdx fun i _ => f i).Nodup := by
  rw [List.nodup_iff_injective_getElem]
  rintro ⟨i, hi⟩ ⟨j, hj⟩ heq
  simp only [List.length_mapIdx] at hi hj
  simp only [List.getElem_mapIdx] at heq
  exact Fin.ext (h hi hj heq)

section Built

variable {d : PacketDraws} {layers : List Layer} {destination : NodeId}
  {nonces : Nat → Bytes 32} {first : Fragment} {rest : List Fragment}

theorem built_answer (haead : P.AeadCorrect) (hchain : Chained P layers)
    (hdistinct : (layers.map Layer.nodeId).Nodup)
    (hnonces : Set.InjOn nonces (Set.Iio rest.length))
    (hmac : MacSeparates P d destination
      (innerBody P layers destination (serializeFragment first)) layers)
    (hno : NoPlaceholder P
      (innerBody P layers destination (serializeFragment first)) layers) :
    (builtAnswer P d layers destination nonces first rest).Built P := by
  have hfull := length_serializeFragment first
  refine ⟨hchain, hdistinct, innerBody_length haead (Nat.le_of_eq hfull),
    ?_, fun l rest' packet hsuf h => matchMac_surb hmac hno hsuf h,
    nodup_mapIdx hnonces, ?_, ?_⟩
  · intro l hl
    have hopen : aeadDecryptBody P (bodyAeadKey P l.shared)
        (innerBody P layers destination (serializeFragment first))
        destination = .ok (padTo BODY_SIZE (serializeFragment first)) :=
      innerBody_opens haead (Nat.le_of_eq hfull) hl
    rw [padTo_full hfull] at hopen
    exact hopen
  · simp [builtAnswer, sealedBodies]
  · intro sealed hmem
    obtain ⟨i, hi, rfl⟩ := List.mem_mapIdx.1 hmem
    rw [Prims.encryptAad, haead.length_seal, length_serializeFragment,
      WIRE_BODY_SIZE, Nat.add_comm]

theorem sound_start {nodes : NodeId → MixNode} {kem : NodeId → List UInt8}
    (hpos : 0 < layers.length)
    (hopens : ∀ l ∈ layers, ∀ d,
      OpensHybrid P ⟨nodes l.nodeId, kem l.nodeId, d⟩ l)
    (hfresh : ∀ l ∈ layers, (l.keys P).tag ∉ (nodes l.nodeId).seenTags)
    (hmax : layers.length ≤ MAX_HOPS)
    (hkem : (kemBlock d layers).length = KEM_BLOCK_SIZE) :
    (builtAnswer P d layers destination nonces first rest).Sound P kem
      (ReplyNet.start nodes
        (replyPackets P d layers destination nonces first rest)) := by
  have hfly := InFlight.built (P := P) SPHINX_VERSION_HYBRID d destination
    (fun _ => placeholder)
    (innerBody P layers destination (serializeFragment first)) hmax
    (rfl : kemBlock d layers = _)
  rw [hkem] at hfly
  obtain ⟨l, tail, rfl⟩ := List.exists_cons_of_length_pos hpos
  refine ⟨hopens, ⟨[], l :: tail, rfl, rfl, _, rfl, hfly⟩,
    fun l' hl' _ => hfresh l' hl', ?_, ?_, ?_⟩
  · intro passed l' rest' _ hin
    cases hin
  · simp [ReplyNet.start, replyPackets, buildSessionReplies, builtAnswer]
  · intro k t nonce sealed ht hnonce hbody
    refine ⟨[], l :: tail, rfl, ?_⟩
    simp only [ReplyNet.start, replyPackets, buildSessionReplies,
      List.getElem?_map, List.getElem?_mapIdx] at ht
    simp only [builtAnswer, sealedBodies, List.getElem?_mapIdx]
      at hnonce hbody
    obtain ⟨f, hf, rfl⟩ := Option.map_eq_some_iff.1 hnonce
    rw [hf] at ht hbody
    rw [← Option.some.inj ht, ← Option.some.inj hbody]
    refine ⟨rfl, ?_⟩
    simp only [Answer.ReplyAt, sessionReply, hybridSurb, wrapBody_layers]
    rfl

end Built

-- =========== feeding

theorem Fragmentation.ids {frags : List Fragment} {payload : List UInt8}
    (h : Fragmentation frags payload) :
    frags.map Fragment.fragmentId = List.range frags.length := by
  apply List.ext_getElem
  · simp
  · intro i hi hi'
    rw [List.length_map] at hi
    simp only [List.getElem_map, List.getElem_range]
    exact (h.piece i _ (List.getElem?_eq_getElem hi)).1

/-- Bodies in any order are fragments in that order. -/
theorem fed_of_perm {frags : List Fragment}
    {inputs : List (IterOrder ChunkId × List UInt8)}
    (h : (inputs.map Prod.snd).Perm (frags.map serializeFragment)) :
    ∃ fed : List (IterOrder ChunkId × Fragment),
      inputs = fed.map (fun x => (x.1, serializeFragment x.2))
        ∧ (fed.map Prod.snd).Perm frags := by
  have hrel : List.Forall₂ (fun body f => body = serializeFragment f)
      (frags.map serializeFragment) frags := by
    rw [List.forall₂_map_left_iff, List.forall₂_same]
    exact fun _ _ => rfl
  obtain ⟨pieces, hpieces, hperm⟩ := List.perm_comp_forall₂ h hrel
  clear h hrel
  suffices hzip : ∃ fed : List (IterOrder ChunkId × Fragment),
      inputs = fed.map (fun x => (x.1, serializeFragment x.2))
        ∧ fed.map Prod.snd = pieces by
    obtain ⟨fed, heq, hsnd⟩ := hzip
    exact ⟨fed, heq, by rw [hsnd]; exact hperm⟩
  clear hperm
  induction inputs generalizing pieces with
  | nil =>
      cases hpieces
      exact ⟨[], rfl, rfl⟩
  | cons x inputs ih =>
      cases hpieces with
      | cons hx hpieces =>
          rename_i f pieces
          obtain ⟨fed, rfl, rfl⟩ := ih pieces hpieces
          exact ⟨(x.1, f) :: fed, by rw [List.map_cons, ← hx], rfl⟩

/-- A table with one fresh retrieval returns the response with the last
piece, and nothing before. -/
theorem feed_pieces {frags : List Fragment} {resp : ChunkResponse}
    (hfrag : Fragmentation frags (serializeResponse resp))
    (hsize : resp.chunkData.length < 2 ^ 32) (key : ChunkId) (now : Nat)
    {inputs : List (IterOrder ChunkId × List UInt8)}
    (h : (inputs.map Prod.snd).Perm (frags.map serializeFragment)) :
    ((RetrievalManager.new.startRetrieval key now).feed inputs).1
      = List.replicate (inputs.length - 1) (Except.ok none)
        ++ [Except.ok (some resp)] := by
  obtain ⟨fed, rfl, hperm⟩ := fed_of_perm h
  have hids : (fed.map fun x => x.2.fragmentId)
      = (fed.map Prod.snd).map Fragment.fragmentId := by
    rw [List.map_map]
    rfl
  have hidsPerm : (fed.map fun x => x.2.fragmentId).Perm
      (List.range frags.length) := by
    rw [hids, ← hfrag.ids]
    exact hperm.map _
  have hstart : RetrievalManager.new.startRetrieval key now
      = ⟨(∅ : FMap ChunkId PendingRetrieval).insert key
          ⟨key, Reassembler.new now, now⟩, [key]⟩ := rfl
  rw [hstart, RetrievalManager.feed_sole hfrag hsize key [key]
    (Collected.new frags now)]
  · rw [List.length_map]
  · rintro rfl
    have hlen := hperm.length_eq
    have hpos := hfrag.pos
    rw [List.map_nil, List.length_nil] at hlen
    omega
  · intro x hx
    exact hperm.subset (List.mem_map_of_mem hx)
  · intro x _
    exact Finset.notMem_empty _
  · exact hidsPerm.nodup_iff.2 List.nodup_range
  · rw [Finset.empty_union, List.toFinset_eq_of_perm _ _ hidsPerm,
      List.toFinset_range]

-- ====== over a route

/-- A return route of distinct honest nodes that ends at the requester
and has not seen this block. -/
structure ReturnPath (P : Prims) (d : PacketDraws) (route : HybridRoute)
    (nodes : NodeId → MixNode) (kem : NodeId → List UInt8) : Prop where
  pos : 0 < route.hops.length
  at_most : route.hops.length ≤ MAX_HOPS
  distinct : (route.hops.map HybridRouteHop.nodeId).Nodup
  ends : (route.hops.getLast?).map HybridRouteHop.nodeId
    = some route.destination
  honest : ∀ hop ∈ route.hops, ∀ draws,
    HonestHybrid P (stopAt nodes kem draws hop.nodeId) hop
  fresh : ∀ layers, hybridLayers P d route.hops = .ok layers →
    ∀ l ∈ layers, (l.keys P).tag ∉ (nodes l.nodeId).seenTags

/-- A message that has kept to the route: its path is the start of the
route, it is on its way to the next hop, and it arrives at the end. -/
structure OnRoute {α β : Type} (ids : List NodeId) (t : Transit α β) :
    Prop where
  path : t.path <+: ids
  next : ∀ id msg, t.place = .at id msg → t.path ++ [id] <+: ids
  arrives : ∀ out, t.place = .arrived out → t.path = ids
  kept : t.place ≠ .lost

section Route

variable {a : Answer} {kem : NodeId → List UInt8} {net : ReplyNet}

theorem Answer.Sound.first_onRoute (h : a.Sound P kem net) :
    OnRoute (a.layers.map Layer.nodeId) net.first := by
  obtain ⟨passed, rest, hsplit, hpath, hat⟩ := h.first
  rw [hsplit, List.map_append]
  cases rest with
  | nil =>
      simp only [Answer.FirstAt] at hat
      refine ⟨⟨_, by rw [hpath]⟩, ?_, ?_, ?_⟩ <;> simp [hat, hpath]
  | cons l rest =>
      obtain ⟨packet, hplace, -⟩ := hat
      refine ⟨⟨_, by rw [hpath]⟩, ?_, ?_, ?_⟩ <;> simp [hplace, hpath]

theorem Answer.Sound.reply_onRoute (hb : a.Built P)
    (h : a.Sound P kem net) {t : Transit SessionReply SessionReply}
    (ht : t ∈ net.replies) :
    OnRoute (a.layers.map Layer.nodeId) t := by
  obtain ⟨k, hk, hget⟩ := List.mem_iff_getElem.1 ht
  have hnlt : k < a.nonces.length := by rw [← h.length_eq]; exact hk
  have hblt : k < a.bodies.length := by rw [hb.bodies_length]; exact hnlt
  obtain ⟨passed, rest, hsplit, hpath, hat⟩ := h.replies k t _ _
    (by rw [List.getElem?_eq_getElem hk, hget])
    (List.getElem?_eq_getElem hnlt) (List.getElem?_eq_getElem hblt)
  rw [hsplit, List.map_append]
  cases rest with
  | nil =>
      simp only [Answer.ReplyAt] at hat
      refine ⟨⟨_, by rw [hpath]⟩, ?_, ?_, ?_⟩ <;> simp [hat, hpath]
  | cons l rest =>
      simp only [Answer.ReplyAt] at hat
      refine ⟨⟨_, by rw [hpath]⟩, ?_, ?_, ?_⟩ <;> simp [hat, hpath]

/-- A reply moves, at the start of time, where the packet has been. -/
theorem Answer.Sound.reply_allowed (hb : a.Built P) (h : a.Sound P kem net)
    {tags : List Mac} {k : Nat}
    (hbehind : Answer.replyLength net k < a.layers.length →
      Answer.replyLength net k < net.first.path.length) :
    net.Allowed a.sessionId tags (.reply k 0) := by
  intro path id reply hget
  have hroute := h.reply_onRoute hb (List.mem_of_getElem? hget)
  have hnext : path ++ [id] <+: a.layers.map Layer.nodeId :=
    hroute.next id reply rfl
  have hlength : Answer.replyLength net k = path.length := by
    rw [Answer.replyLength, hget]
    rfl
  have hshort := hnext.length_le
  rw [List.length_map, List.length_append, List.length_singleton] at hshort
  have hpassed : path.length < net.first.path.length := by omega
  refine ⟨?_, fun s _ => ?_⟩
  · have hle : (path ++ [id]).length ≤ net.first.path.length := by
      rw [List.length_append]
      exact hpassed
    exact (List.prefix_of_prefix_length_le hnext h.first_onRoute.path
      hle).subset (List.mem_append_right _ (List.mem_singleton_self _))
  · rw [Nat.zero_sub]
    decide

/-- The packet a hop ahead of the one reply, round after round. -/
def following (rounds : List MixDraws) : List Move :=
  rounds.flatMap fun d => [.first d, .reply 0 0]

/-- The reply may follow the packet so. -/
theorem Answer.Sound.allAllowed_following (hb : a.Built P)
    (h : a.Sound P kem net) {tags : List Mac}
    (htags : ∀ l ∈ a.layers, (l.keys P).tag ∈ tags)
    (hone : 0 < a.nonces.length)
    (hbeside : Answer.replyLength net 0 = net.first.path.length)
    (rounds : List MixDraws) :
    ReplyNet.AllAllowed P kem a.sessionId tags net (following rounds) := by
  induction rounds generalizing net with
  | nil => trivial
  | cons d rounds ih =>
      have hfirst : a.Sound P kem (net.move P kem (.first d)) :=
        h.move hb htags trivial
      have hahead := h.first_length (.first d)
      have hstill := h.reply_length hb (.first d) hone
      simp only [Move.isFirst, Move.isReply, if_true, Bool.false_eq_true,
        if_false] at hahead hstill
      have hallowed : (net.move P kem (.first d)).Allowed a.sessionId tags
          (.reply 0 0) := hfirst.reply_allowed hb (by omega)
      have hnext := hfirst.move hb htags hallowed
      have hahead' := hfirst.first_length (.reply 0 0)
      have hafter := hfirst.reply_length hb (.reply 0 0) hone
      simp only [Move.isFirst, Move.isReply, decide_true, if_true,
        Bool.false_eq_true, if_false] at hahead' hafter
      exact ⟨trivial, hallowed, ih hnext (by omega)⟩

end Route

/-- Honest hops give a chain of layers that their nodes open. -/
theorem ReturnPath.layers (hdh : P.DhCommutes) {d : PacketDraws}
    {route : HybridRoute} {nodes : NodeId → MixNode}
    {kem : NodeId → List UInt8} (h : ReturnPath P d route nodes kem) :
    ∃ layers, hybridLayers P d route.hops = .ok layers
      ∧ Chained P layers
      ∧ layers.map Layer.nodeId = route.hops.map HybridRouteHop.nodeId
      ∧ (∀ l ∈ layers, ∀ draws,
        OpensHybrid P ⟨nodes l.nodeId, kem l.nodeId, draws⟩ l)
      ∧ (route.hops.any fun h =>
          h.kemPublicKey.length ≠ KEM_PUBLIC_KEY_SIZE) = false
      ∧ (hybridSurb P d route.destination layers).WellFormed := by
  have hhonest : ∀ draws, List.Forall₂ (HonestHybrid P)
      (route.hops.map fun hop => stopAt nodes kem draws hop.nodeId)
      route.hops := by
    intro draws
    rw [List.forall₂_map_left_iff, List.forall₂_same]
    exact fun hop hmem => h.honest hop hmem draws
  let draws : MixDraws := ⟨fun _ => 0, fun _ => 0, 0⟩
  obtain ⟨layers, hlayers, hchain, hopens, hids⟩ :=
    hybridLayers_honest hdh (d := d) (hhonest draws)
  have hlen : layers.length = route.hops.length := by
    rw [← hopens.length_eq, List.length_map]
  refine ⟨layers, hlayers, hchain, hids, ?_, kemKeys_ok (hhonest draws),
    hybridSurb_wellFormed hopens (by rw [hlen]; exact h.pos)
      (by rw [hlen]; exact h.at_most)⟩
  intro l hl draws'
  obtain ⟨i, hi, rfl⟩ := List.mem_iff_getElem.1 hl
  have hi' : i < route.hops.length := by rw [← hlen]; exact hi
  have hid : layers[i].nodeId = route.hops[i].nodeId := by
    have hget := congrArg (fun ids => ids[i]?) hids
    simpa [List.getElem?_eq_getElem hi, List.getElem?_eq_getElem hi']
      using hget
  have hopen := hopens.get (by rw [List.length_map]; exact hi') hi
  simp only [List.get_eq_getElem, List.getElem_map, stopAt] at hopen
  rw [hid]
  exact hopen

/-- The packets of an answer to a request for `chunkId`. -/
theorem handleRequest_ok {d : PacketDraws} {destination : NodeId}
    {layers : List Layer} {nonces : Nat → Bytes 32} {chunkId : ChunkId}
    {chunkData : Option (List UInt8)} {first : Fragment}
    {rest : List Fragment}
    (hwf : (hybridSurb P d destination layers).WellFormed)
    (hfrags : fragmentPayload (serializeResponse
      (chunkResponse chunkId chunkData)) = first :: rest) :
    handleRetrievalRequestWithSurb P nonces
        (serializeRequest
          (surbRequest chunkId (hybridSurb P d destination layers)))
        chunkData
      = .ok (replyPackets P d layers destination nonces first rest) := by
  have hreq : deserializeRequest (serializeRequest
        (surbRequest chunkId (hybridSurb P d destination layers)))
      = .ok (surbRequest chunkId (hybridSurb P d destination layers)) := by
    refine deserializeRequest_serialize (Nat.zero_le _) fun surb hsurb => ?_
    rw [← Option.some.inj hsurb]
    exact Surb.length_serialize_le hwf
  have hsmall : ¬ BODY_SIZE < (serializeFragment first).length := by
    rw [length_serializeFragment]
    omega
  simp only [handleRetrievalRequestWithSurb, hreq]
  simp only [surbRequest, Surb.deserialize_serialize hwf, hfrags,
    wrapWithSurbHybrid, hwf.version_eq, ne_eq, not_true_eq_false, if_false,
    hsmall]
  simp only [replyPackets, hybridSurb, wrapBody_layers, innerBody]

/-- What has arrived is what was sealed. -/
theorem finalBodies_arrived (haead : P.AeadCorrect) {d : PacketDraws}
    {layers : List Layer} {destination : NodeId}
    {nonces : Nat → Bytes 32} {first : Fragment} {rest : List Fragment}
    {kem : NodeId → List UInt8} {net : ReplyNet}
    (h : (builtAnswer P d layers destination nonces first rest).Sound P
      kem net)
    (hfirst : layers.length ≤ net.first.path.length)
    (hreplies : ∀ k, k < rest.length →
      layers.length ≤ Answer.replyLength net k) :
    net.finalBodies P (hybridSurb P d destination layers)
      = (first :: rest).map fun f => some (serializeFragment f) := by
  have hlen : net.replies.length = rest.length := by
    rw [h.length_eq]
    simp [builtAnswer]
  rw [ReplyNet.finalBodies, h.first_arrived hfirst, List.map_cons]
  congr 1
  apply List.ext_getElem
  · rw [List.length_map, List.length_map, hlen]
  · intro k hk hk'
    rw [List.length_map] at hk hk'
    have hplace : net.replies[k].place
        = .arrived ⟨d.sessionId, nonces k,
          P.encryptAad (bodyAeadKey P (lastShared layers))
            (replyAeadNonce (nonces k)) (serializeFragment rest[k])
            destination.toList⟩ := by
      refine h.reply_arrived (List.getElem?_eq_getElem hk) ?_ ?_
        (hreplies k hk')
      · simp [builtAnswer, List.getElem?_eq_getElem hk']
      · simp only [builtAnswer, sealedBodies, List.getElem?_mapIdx,
          List.getElem?_eq_getElem hk', Option.map_some]
    simp only [List.getElem_map, hplace, decryptSessionReplyBody,
      hybridSurb, Prims.decryptAad, Prims.encryptAad, haead.open_seal]
    rfl

/-- A request over a return route and the packets that answer it, sent and
at the first hop. -/
structure Answering (P : Prims) (d : PacketDraws) (route : HybridRoute)
    (nodes : NodeId → MixNode) (kem : NodeId → List UInt8)
    (chunkId : ChunkId) (chunkData : Option (List UInt8))
    (nonces : Nat → Bytes 32) (layers : List Layer) (first : Fragment)
    (rest : List Fragment) : Prop where
  layers_eq : hybridLayers P d route.hops = .ok layers
  ids : layers.map Layer.nodeId = route.hops.map HybridRouteHop.nodeId
  pieces : fragmentPayload (serializeResponse
    (chunkResponse chunkId chunkData)) = first :: rest
  surb : createSurbHybrid P d route
    = .ok (hybridSurb P d route.destination layers,
      ⟨0, route.hops.length⟩)
  packets : handleRetrievalRequestWithSurb P nonces
      (serializeRequest (surbRequest chunkId
        (hybridSurb P d route.destination layers))) chunkData
    = .ok (replyPackets P d layers route.destination nonces first rest)
  built : (builtAnswer P d layers route.destination nonces first
    rest).Built P
  sound : (builtAnswer P d layers route.destination nonces first
    rest).Sound P kem (ReplyNet.start nodes
      (replyPackets P d layers route.destination nonces first rest))

/-- The request over an honest route is answered so. -/
theorem ReturnPath.answering (hdh : P.DhCommutes) (haead : P.AeadCorrect)
    {d : PacketDraws} {route : HybridRoute} {nodes : NodeId → MixNode}
    {kem : NodeId → List UInt8} (hroute : ReturnPath P d route nodes kem)
    {chunkId : ChunkId} {chunkData : Option (List UInt8)}
    {nonces : Nat → Bytes 32}
    (hfits : (serializeResponse (chunkResponse chunkId chunkData)).length
      ≤ MAX_FRAGMENTS_PER_MESSAGE * MAX_FRAGMENT_DATA)
    (hnonces : Set.InjOn nonces (Set.Iio MAX_FRAGMENTS_PER_MESSAGE))
    (hmac : ∀ layers first, hybridLayers P d route.hops = .ok layers →
      (fragmentPayload (serializeResponse
        (chunkResponse chunkId chunkData))).head? = some first →
      MacSeparates P d route.destination
        (innerBody P layers route.destination (serializeFragment first))
        layers)
    (hno : ∀ layers first, hybridLayers P d route.hops = .ok layers →
      (fragmentPayload (serializeResponse
        (chunkResponse chunkId chunkData))).head? = some first →
      NoPlaceholder P (innerBody P layers route.destination
        (serializeFragment first)) layers) :
    ∃ layers first rest, Answering P d route nodes kem chunkId chunkData
      nonces layers first rest := by
  obtain ⟨layers, hlayers, hchain, hids, hopens, hkeys, hwf⟩ :=
    hroute.layers hdh
  have hfrag := fragmentPayload_fragmentation hfits
  have hpos := hroute.pos
  have hlen : layers.length = route.hops.length := by
    rw [← List.length_map (f := Layer.nodeId), hids, List.length_map]
  obtain ⟨first, rest, hfrags⟩ := List.exists_cons_of_length_pos hfrag.pos
  have hhead : (fragmentPayload (serializeResponse
      (chunkResponse chunkId chunkData))).head? = some first := by
    rw [hfrags]
    rfl
  have hdistinct : (layers.map Layer.nodeId).Nodup := by
    rw [hids]
    exact hroute.distinct
  have hinj : Set.InjOn nonces (Set.Iio rest.length) := by
    refine hnonces.mono (Set.Iio_subset_Iio ?_)
    have := hfrag.at_most
    rw [hfrags, List.length_cons] at this
    omega
  refine ⟨layers, first, rest, ⟨hlayers, hids, hfrags, ?_,
    handleRequest_ok hwf hfrags, ?_, ?_⟩⟩
  · simp only [createSurbHybrid, hkeys, hlayers]
    rw [if_neg (by have := hroute.at_most; omega)]
    rfl
  · exact built_answer haead hchain hdistinct hinj
      (hmac layers first hlayers hhead) (hno layers first hlayers hhead)
  · exact sound_start (by omega) hopens (hroute.fresh layers hlayers)
      (by rw [hlen]; exact hroute.at_most) hwf.kem_length

/-- The pieces of an answer cross the return route in any order the
session allows, the requester recovers each of them, and its retrieval
table puts the response together. -/
theorem single_reply_correct (P : Prims) (hdh : P.DhCommutes)
    (haead : P.AeadCorrect) (d : PacketDraws) (route : HybridRoute)
    (nodes : NodeId → MixNode) (kem : NodeId → List UInt8)
    (hroute : ReturnPath P d route nodes kem) (chunkId : ChunkId)
    (chunkData : Option (List UInt8)) (nonces : Nat → Bytes 32)
    (hfits : (serializeResponse (chunkResponse chunkId chunkData)).length
      ≤ MAX_FRAGMENTS_PER_MESSAGE * MAX_FRAGMENT_DATA)
    (hnonces : Set.InjOn nonces (Set.Iio MAX_FRAGMENTS_PER_MESSAGE))
    (hmac : ∀ layers first, hybridLayers P d route.hops = .ok layers →
      (fragmentPayload (serializeResponse
        (chunkResponse chunkId chunkData))).head? = some first →
      MacSeparates P d route.destination
        (innerBody P layers route.destination (serializeFragment first))
        layers)
    (hno : ∀ layers first, hybridLayers P d route.hops = .ok layers →
      (fragmentPayload (serializeResponse
        (chunkResponse chunkId chunkData))).head? = some first →
      NoPlaceholder P (innerBody P layers route.destination
        (serializeFragment first)) layers) :
    ∃ surb secret packets layers,
      createSurbHybrid P d route = .ok (surb, secret)
      ∧ handleRetrievalRequestWithSurb P nonces
          (serializeRequest (surbRequest chunkId surb)) chunkData
        = .ok packets
      ∧ hybridLayers P d route.hops = .ok layers
      ∧ (∀ moves,
        ReplyNet.AllAllowed P kem surb.sessionId
          (layers.map fun l => (l.keys P).tag)
          (ReplyNet.start nodes packets) moves →
        let net := (ReplyNet.start nodes packets).run P kem moves
        let ids := route.hops.map HybridRouteHop.nodeId
        OnRoute ids net.first
          ∧ (∀ t ∈ net.replies, OnRoute ids t)
          ∧ (ids.length ≤ moves.countP Move.isFirst →
            (∀ k, k < packets.sessionReplies.length →
              ids.length ≤ moves.countP (Move.isReply k)) →
            net.finalBodies P surb
              = (fragmentPayload (serializeResponse
                  (chunkResponse chunkId chunkData))).map
                fun f => some (serializeFragment f)))
      ∧ ∀ key now (inputs : List (IterOrder ChunkId × List UInt8)),
        (inputs.map Prod.snd).Perm
          ((fragmentPayload (serializeResponse
            (chunkResponse chunkId chunkData))).map serializeFragment) →
        ((RetrievalManager.new.startRetrieval key now).feed inputs).1
          = List.replicate (inputs.length - 1) (.ok none)
            ++ [.ok (some (chunkResponse chunkId chunkData))] := by
  obtain ⟨layers, first, rest, hans⟩ :=
    hroute.answering hdh haead hfits hnonces hmac hno
  have hids := hans.ids
  have hfrags := hans.pieces
  have hlen : layers.length = route.hops.length := by
    rw [← List.length_map (f := Layer.nodeId), hids, List.length_map]
  refine ⟨_, _, _, layers, hans.surb, hans.packets, hans.layers_eq, ?_, ?_⟩
  · intro moves hall
    have htags : ∀ l ∈ layers, (l.keys P).tag
        ∈ layers.map fun l => (l.keys P).tag :=
      fun l hl => List.mem_map_of_mem hl
    have hsound := hans.sound.run hans.built htags hall
    have hroutes := hsound.first_onRoute
    have hreplies := fun t ht => hsound.reply_onRoute hans.built (t := t) ht
    simp only [builtAnswer, hids] at hroutes hreplies
    refine ⟨hroutes, hreplies, fun hfirst hrest => ?_⟩
    rw [List.length_map, ← hlen] at hfirst hrest
    rw [hfrags]
    apply finalBodies_arrived haead hsound
    · have := Answer.run_first_length hans.built htags hans.sound hall
      simp only [builtAnswer] at this
      omega
    · intro k hk
      have := Answer.run_reply_length hans.built htags hans.sound hall
        (k := k) (by simpa [builtAnswer] using hk)
      have hcount := hrest k (by
        simpa [replyPackets, buildSessionReplies] using hk)
      simp only [builtAnswer] at this
      omega
  · intro key now inputs hperm
    exact feed_pieces (fragmentPayload_fragmentation hfits)
      (response_size hfits) key now hperm

-- ===== a short route

/-- A transparent instance whose derived keys are zero and whose MAC is
the start of the body it covers. -/
def Prims.still : Prims :=
  { Prims.plain with
    hkdf := fun _ _ => Bytes.zero 32
    blake3Keyed := fun _ m => Bytes.ofList 32 (m.drop 98) }

theorem still_dhCommutes : Prims.still.DhCommutes := plain_dhCommutes

theorem still_aeadCorrect : Prims.still.AeadCorrect :=
  ⟨Prims.plain_aeadCorrect.open_seal, Prims.plain_aeadCorrect.length_seal⟩

/-- A stream of zeros changes nothing. -/
theorem xorBytes_zeros (data : List UInt8) :
    xorBytes (List.replicate data.length 0) data = data := by
  induction data with
  | nil => rfl
  | cons b data ih =>
      rw [List.length_cons, List.replicate_succ, xorBytes,
        List.zipWith_cons_cons, UInt8.xor_zero]
      exact congrArg _ ih

theorem still_xorBody (key : SymmetricKey) (body : List UInt8) :
    xorBody .still key body = body := by
  have hzeros : bodyKeystream .still key body.length
      = List.replicate body.length 0 := by
    rw [List.eq_replicate_iff]
    refine ⟨length_bodyKeystream key _, fun b hb => ?_⟩
    obtain ⟨i, -, hbi⟩ := List.mem_flatMap.1 (List.mem_of_mem_take hb)
    exact (List.mem_replicate.1 hbi).2
  rw [xorBody, hzeros, xorBytes_zeros]

theorem still_onion (inner : List UInt8) (layers : List Layer) :
    onion .still inner layers = inner := by
  induction layers with
  | nil => rfl
  | cons l rest ih => rw [onion, still_xorBody, ih]

theorem still_computeMac (macKey : SymmetricKey) (version : UInt8)
    (alpha sessionId : Bytes 32) {slot body : List UInt8}
    (hslot : slot.length = SLOT_SIZE) (hbody : 32 ≤ body.length) :
    (computeMac .still macKey version alpha sessionId slot body).toList
      = body.take 16 := by
  have hlen : (version :: (alpha.toList ++ sessionId.toList ++ slot)).length
      = 98 := by
    simp [hslot, SLOT_SIZE, NODE_ID_SIZE, FLAG_SIZE, MAC_SIZE]
  have hdrop : (version :: (alpha.toList ++ sessionId.toList ++ slot
      ++ body)).drop 98 = body := by
    rw [← List.cons_append, List.drop_left' hlen]
  have hhash : Prims.still.blake3Keyed
      (Prims.still.derive macKey "sphinx/mac/compute")
      (version :: (alpha.toList ++ sessionId.toList ++ slot ++ body))
        = Bytes.ofList 32 body := congrArg (Bytes.ofList 32) hdrop
  rw [computeMac, hhash]
  have htake : (Bytes.ofList 32 body).toList.take 16 = body.take 16 := by
    rw [Bytes.ofList]
    simp only
    rw [List.take_take, List.take_append_of_le_length (by omega)]
    rfl
  rw [htake, Bytes.toList_ofList (by rw [List.length_take]; omega)]

/-- A fragment's header shows in the first bytes of its sealed body. -/
theorem still_inner_ne {layers : List Layer} {destination : NodeId}
    {f : Fragment} (hf : f.Valid) :
    (innerBody .still layers destination (serializeFragment f)).take 16
      ≠ placeholder.take 16 := by
  intro heq
  obtain ⟨hpos, hmax, -, -⟩ := hf
  have hinner : ∃ tail, innerBody .still layers destination
        (serializeFragment f)
      = beBytes 4 f.fragmentId ++ (beBytes 4 f.totalFragments ++ tail) := by
    rw [innerBody, padTo_full (length_serializeFragment f)]
    exact ⟨_, by
      simp only [aeadEncryptBody, Prims.encryptAad, Prims.still,
        Prims.plain, serializeFragment, padTo, List.append_assoc]
      rfl⟩
  obtain ⟨tail, htail⟩ := hinner
  have hslice : slice (innerBody .still layers destination
      (serializeFragment f)) 4 4 = beBytes 4 f.totalFragments := by
    rw [htail, slice_skip (by rw [length_beBytes]), length_beBytes,
      Nat.sub_self, slice_here (length_beBytes _ _)]
  have hcut : ∀ data : List UInt8,
      slice data 4 4 = slice (data.take 16) 4 4 := by
    intro data
    simp [slice, List.drop_take, List.take_take]
  rw [hcut, heq, ← hcut] at hslice
  have hzero : slice placeholder 4 4 = List.replicate 4 0 := by
    rw [slice, placeholder, List.drop_replicate, List.take_replicate]
    rfl
  have hvalue : ofBeBytes (beBytes 4 f.totalFragments)
      = f.totalFragments :=
    ofBeBytes_beBytes_of_lt (Nat.lt_of_le_of_lt hmax (by decide))
  rw [← hslice, hzero] at hvalue
  have : ofBeBytes (List.replicate 4 0) = 0 := by decide
  omega

theorem length_still_inner (layers : List Layer) (destination : NodeId)
    (f : Fragment) : 32 ≤ (innerBody .still layers destination
      (serializeFragment f)).length := by
  rw [innerBody_length still_aeadCorrect
    (Nat.le_of_eq (length_serializeFragment f))]
  decide

theorem still_macSeparates {d : PacketDraws} {layers : List Layer}
    {destination : NodeId} {f : Fragment} (hf : f.Valid) :
    MacSeparates .still d destination
      (innerBody .still layers destination (serializeFragment f)) layers := by
  intro l rest _ heq
  have hslot : (returnSlot .still d destination l rest).length = SLOT_SIZE :=
    length_headSlot ..
  rw [still_onion] at heq
  have hmacs := congrArg Bytes.toList heq
  rw [still_computeMac _ _ _ _ hslot (length_still_inner ..),
    still_computeMac _ _ _ _ hslot
      (by rw [placeholder, List.length_replicate]; decide)] at hmacs
  exact absurd hmacs (still_inner_ne hf)

theorem still_noPlaceholder {layers : List Layer} {destination : NodeId}
    {f : Fragment} (hf : f.Valid) :
    NoPlaceholder .still
      (innerBody .still layers destination (serializeFragment f)) layers := by
  intro l rest _ heq
  rw [still_onion] at heq
  exact still_inner_ne hf (by rw [heq])

/-- Every node of the network, by its id. -/
def quietNode (id : NodeId) : MixNode := MixNode.new ((3 : Nat) : Scalar) id

def quietKem (_ : NodeId) : List UInt8 := List.replicate 2400 0

/-- A route over two of them, to the second. -/
def quietReturn : HybridRoute where
  hops := [Bytes.fill 16 1, Bytes.fill 16 2].map fun id =>
    ⟨id, (quietNode id).publicKey .still, List.replicate 1184 0⟩
  destination := Bytes.fill 16 2

def countingNonce (i : Nat) : Bytes 32 := Bytes.ofList 32 (leBytes 32 i)

theorem countingNonce_injOn :
    Set.InjOn countingNonce (Set.Iio MAX_FRAGMENTS_PER_MESSAGE) := by
  intro i hi j hj heq
  have hlist := congrArg Bytes.toList heq
  rw [countingNonce, countingNonce, Bytes.toList_ofList (length_leBytes ..),
    Bytes.toList_ofList (length_leBytes ..)] at hlist
  have hbound : MAX_FRAGMENTS_PER_MESSAGE < 256 ^ 32 := by decide
  exact leBytes_inj (Nat.lt_trans hi hbound) (Nat.lt_trans hj hbound) hlist

theorem quietReturn_path :
    ReturnPath .still quietDraws quietReturn quietNode quietKem := by
  refine ⟨by decide, by decide, ?_, rfl, ?_, ?_⟩
  · decide
  · intro hop hmem draws
    simp only [quietReturn, List.mem_map] at hmem
    obtain ⟨id, -, rfl⟩ := hmem
    have hpair : Prims.plain.KemPair (List.replicate 1184 0)
        (quietKem id) :=
      Prims.plain_kemPair List.length_replicate List.length_replicate
    exact ⟨rfl, rfl, hpair.public_length, hpair.inverts⟩
  · intro layers _ l _
    exact List.not_mem_nil

/-- Two pieces of an answer over two hops: the reply follows the packet,
the requester recovers both, and the table returns the chunk. -/
theorem single_reply_correct_quiet :
    ∃ surb secret packets,
      createSurbHybrid .still quietDraws quietReturn = .ok (surb, secret)
      ∧ handleRetrievalRequestWithSurb .still countingNonce
          (serializeRequest (surbRequest (Bytes.fill 32 9) surb))
          (some (List.replicate 1500 7)) = .ok packets
      ∧ (∀ d d', ((ReplyNet.start quietNode packets).run .still quietKem
          (following [d, d'])).finalBodies .still surb
        = (fragmentPayload (serializeResponse (chunkResponse
            (Bytes.fill 32 9) (some (List.replicate 1500 7))))).map
              fun f => some (serializeFragment f))
      ∧ ∀ key now (inputs : List (IterOrder ChunkId × List UInt8)),
        (inputs.map Prod.snd).Perm
          ((fragmentPayload (serializeResponse (chunkResponse
            (Bytes.fill 32 9) (some (List.replicate 1500 7))))).map
              serializeFragment) →
        ((RetrievalManager.new.startRetrieval key now).feed inputs).1
          = List.replicate (inputs.length - 1) (.ok none)
            ++ [.ok (some (chunkResponse (Bytes.fill 32 9)
              (some (List.replicate 1500 7))))] := by
  have hlength : (serializeResponse (chunkResponse (Bytes.fill 32 9)
      (some (List.replicate 1500 7)))).length = 1538 := by
    simp only [serializeResponse, chunkResponse, Option.getD_some,
      List.length_append, List.length_replicate, Bytes.length_toList,
      length_beBytes, List.length_singleton]
  have hfits : (serializeResponse (chunkResponse (Bytes.fill 32 9)
      (some (List.replicate 1500 7)))).length
        ≤ MAX_FRAGMENTS_PER_MESSAGE * MAX_FRAGMENT_DATA := by
    rw [hlength]
    decide
  have htwo : (fragmentPayload (serializeResponse (chunkResponse
      (Bytes.fill 32 9) (some (List.replicate 1500 7))))).length = 2 := by
    unfold fragmentPayload
    rw [hlength]
    rfl
  have hvalid := fun f hf =>
    (fragmentPayload_fragmentation hfits).valid (f := f)
      (List.mem_of_mem_head? hf)
  obtain ⟨layers, first, rest, hans⟩ := quietReturn_path.answering
    still_dhCommutes still_aeadCorrect hfits countingNonce_injOn
    (fun _ _ _ hfirst => still_macSeparates (hvalid _ hfirst))
    (fun _ _ _ hfirst => still_noPlaceholder (hvalid _ hfirst))
  obtain ⟨surb, secret, packets, layers', hsurb, hpackets, hlayers, hnet,
      hfeed⟩ :=
    single_reply_correct .still still_dhCommutes still_aeadCorrect
      quietDraws quietReturn quietNode quietKem quietReturn_path
      (Bytes.fill 32 9) (some (List.replicate 1500 7)) countingNonce hfits
      countingNonce_injOn
      (fun _ _ _ hfirst => still_macSeparates (hvalid _ hfirst))
      (fun _ _ _ hfirst => still_noPlaceholder (hvalid _ hfirst))
  -- the theorem's packets are the ones of the answer
  obtain ⟨rfl, -⟩ := Prod.mk.inj
    (Except.ok.inj (hans.surb.symm.trans hsurb))
  obtain rfl := Except.ok.inj (hans.packets.symm.trans hpackets)
  obtain rfl := Except.ok.inj (hans.layers_eq.symm.trans hlayers)
  have hone : rest.length = 1 := by
    rw [hans.pieces, List.length_cons] at htwo
    omega
  refine ⟨_, secret, _, hsurb, hpackets, fun d d' => ?_, hfeed⟩
  have htags : ∀ l ∈ layers, (l.keys .still).tag
      ∈ layers.map fun l => (l.keys .still).tag :=
    fun l hl => List.mem_map_of_mem hl
  have hsent : 0 < (rest.mapIdx fun i _ => countingNonce i).length := by
    rw [List.length_mapIdx, hone]
    exact Nat.one_pos
  have hall := hans.sound.allAllowed_following hans.built htags hsent
    (Answer.replyLength_start _ _ 0) [d, d']
  obtain ⟨-, -, hfinal⟩ := hnet _ hall
  refine hfinal (le_refl 2) fun k hk => ?_
  have hzero : k = 0 := by
    simp only [replyPackets, buildSessionReplies, List.length_mapIdx,
      hone] at hk
    omega
  rw [hzero]
  exact le_refl 2

end StaticNet
