/-
Several requests with one reply block, from their first piece to the
requester's retrieval table.

One response arrives at most, because one first packet does
(`Serving.arrived`), so a requester that shares a block between requests
gets no more than one of its responses. `one_block_iff` says when it gets
all it asked for.
-/
import StaticNet.Retrieval.Asking
import StaticNet.Retrieval.Returned

namespace StaticNet

variable {P : Prims} {d : PacketDraws} {layers : List Layer}
  {destination : NodeId} {kem : NodeId → List UInt8}
  {draws : Nat → Bytes 32}
  {chunks : NodeId → ChunkId → Option (List UInt8)}
  {queries : List Query} {net : SharedNet} {heads rest : List Fragment}
  {ids : NodeId → Finset Nat}

-- ============= start

/-- The requests have been sent with a block that no node knows yet. -/
theorem Serving.start {nodes : NodeId → MixNode}
    {tables : NodeId → ReassemblyManager}
    (hwf : (hybridSurb P d destination layers).WellFormed)
    (hopens : ∀ l ∈ layers, ∀ draw,
      OpensHybrid P ⟨nodes l.nodeId, kem l.nodeId, draw⟩ l)
    (hfresh : ∀ l ∈ layers, (l.keys P).tag ∉ (nodes l.nodeId).seenTags)
    (hunknown : ∀ l ∈ layers,
      (nodes l.nodeId).sessionCache.get d.sessionId = none)
    (htables : ∀ q ∈ queries,
      (tables q.holder).sessions.get (requestKey d.sessionId) = none) :
    Serving P d layers destination kem draws chunks queries
      (SharedNet.start nodes tables (hybridSurb P d destination layers)
        queries) [] [] fun _ => ∅ := by
  refine ⟨⟨⟨[], Loses.refl _, ?_⟩, fun l hl _ => hunknown l hl⟩, ⟨?_, ?_⟩,
    nofun, ?_⟩
  · exact ⟨nofun, nofun, fun _ => rfl, rfl,
      Or.inl ⟨hopens, hfresh, rfl, rfl⟩⟩
  · intro q hq
    have hget : ((SharedNet.start nodes tables
        (hybridSurb P d destination layers) queries).tables
          q.holder).sessions.get
        (requestKey (hybridSurb P d destination layers).sessionId) = none :=
      htables q hq
    unfold Asks
    rw [hget]
  · intro p hp
    obtain ⟨q, hq, hin⟩ := List.mem_flatMap.1 hp
    rw [Query.pieces_eq] at hin
    obtain ⟨f, hf, rfl⟩ := List.mem_map.1 hin
    exact ⟨q, hq, f, hf, rfl⟩
  · rintro q rfl
    have hfrag := requestPieces_fragmentation hwf q.chunkId
    have hask : Sole (hybridSurb P d destination layers) chunks q _ _ []
        [] :=
      .asking (requestPieces (hybridSurb P d destination layers) q.chunkId)
        (List.ne_nil_of_length_pos hfrag.pos) (fun f hf => hf)
        (by rw [hfrag.ids]; exact List.nodup_range)
    rw [hfrag.ids, List.toFinset_range, Finset.sdiff_self] at hask
    have hpieces : (SharedNet.start nodes tables
        (hybridSurb P d destination layers) [q]).pieces
        = (requestPieces (hybridSurb P d destination layers)
          q.chunkId).map (q.piece (hybridSurb P d destination layers)) := by
      rw [← Query.pieces_eq]
      exact List.append_nil _
    rw [hpieces]
    exact hask

-- =========== arrival

/-- One entry gives something, and the others nothing. -/
theorem filterMap_sole {α β : Type} {f : α → Option β} {l : List α}
    {k : Nat} {a : α} {b : β} (hk : l[k]? = some a) (ha : f a = some b)
    (hothers : ∀ j c, j ≠ k → l[j]? = some c → f c = none) :
    l.filterMap f = [b] := by
  induction l generalizing k with
  | nil => cases hk
  | cons x l ih =>
      cases k with
      | zero =>
          obtain rfl := Option.some.inj hk
          have hnone : l.filterMap f = [] := by
            rw [List.filterMap_eq_nil_iff]
            intro c hc
            obtain ⟨j, hj, hget⟩ := List.mem_iff_getElem.1 hc
            exact hothers (j + 1) c (Nat.succ_ne_zero j) (by
              rw [List.getElem?_cons_succ, List.getElem?_eq_getElem hj,
                hget])
          rw [List.filterMap_cons, ha, hnone]
      | succ k =>
          have hx := hothers 0 x (Nat.succ_ne_zero k).symm rfl
          rw [List.filterMap_cons, hx]
          refine ih hk fun j c hj hc => hothers (j + 1) c ?_ hc
          exact fun h => hj (Nat.succ.inj h)

/-- A session reply that has stopped: it was lost, or it arrived with the
body of this fragment. -/
def Stopped (P : Prims) (surb : Surb)
    (t : Transit SessionReply SessionReply) (f : Fragment) : Prop :=
  t.place = .lost
    ∨ ∃ reply, t.place = .arrived reply
      ∧ decryptSessionReplyBody P reply surb.bodyAeadKey
        surb.aadDestination = .ok (serializeFragment f)

/-- What arrives of replies that have stopped. -/
theorem stopped_bodies {surb : Surb}
    {replies : List (Transit SessionReply SessionReply)}
    (h : List.Forall₂ (Stopped P surb) replies rest) :
    ∃ got, replies.filterMap (fun t => t.place.out.bind fun reply =>
        (decryptSessionReplyBody P reply surb.bodyAeadKey
          surb.aadDestination).toOption) = got.map serializeFragment
      ∧ got.Sublist rest
      ∧ ((∀ t ∈ replies, t.place ≠ .lost) ↔ got = rest) := by
  induction h with
  | nil => exact ⟨[], rfl, List.Sublist.refl _, by simp⟩
  | @cons t f replies rest hstop _ ih =>
      obtain ⟨got, hgot, hsub, hiff⟩ := ih
      rcases hstop with hlost | ⟨reply, harrived, hopen⟩
      · refine ⟨got, ?_, hsub.cons _, ?_⟩
        · rw [List.filterMap_cons, hlost]
          exact hgot
        · refine ⟨fun hall => absurd hlost (hall t List.mem_cons_self),
            fun heq => ?_⟩
          have hlen := hsub.length_le
          rw [heq, List.length_cons] at hlen
          omega
      · refine ⟨f :: got, ?_, hsub.cons_cons _, ?_⟩
        · rw [List.filterMap_cons, harrived]
          simp only [Place.out, Option.bind_some, hopen]
          rw [List.map_cons, ← hgot]
          rfl
        · rw [List.forall_mem_cons, hiff, List.cons.injEq, harrived]
          simp

/-- When nothing moves any more, one answer's first piece and some of the
others have arrived, all if none was lost; or nothing was sent. -/
theorem Serving.arrived
    (hans : Answerable P d layers destination chunks queries)
    (h : Serving P d layers destination kem draws chunks queries net heads
      rest ids) (hquiet : net.Quiet) :
    (heads = [] ∧ net.arrivedBodies P (hybridSurb P d destination layers)
        = [])
      ∨ ∃ head got, head ∈ heads
        ∧ net.arrivedBodies P (hybridSurb P d destination layers)
          = serializeFragment head :: got.map serializeFragment
        ∧ got.Sublist rest ∧ (net.Lossless ↔ got = rest) := by
  obtain ⟨replies, hloses, hshared⟩ := h.crossing.shared
  have hlen := hshared.length_replies
  have hstopped : List.Forall₂
      (Stopped P (hybridSurb P d destination layers)) net.replies rest := by
    rw [List.forall₂_iff_get]
    refine ⟨hloses.length_eq.trans hlen, fun k hk hk' => ?_⟩
    simp only [List.get_eq_getElem]
    have hget := List.getElem?_eq_getElem hk
    have hstill := hquiet.replies _ (List.getElem_mem hk)
    generalize net.replies[k] = u at hget hstill
    obtain ⟨path, place⟩ := u
    cases place with
    | lost => exact Or.inl rfl
    | «at» id reply => cases hstill
    | arrived reply =>
        obtain ⟨f, passed, ahead, hf, -, hat⟩ :=
          hshared.reply_sound hans.returns (hloses.at_moving hget nofun)
        have hat := hat f
        rw [List.getElem?_eq_getElem hk'] at hf
        rw [Option.some.inj hf]
        cases ahead with
        | cons l ahead => cases hat
        | nil =>
            injection hat with hreply
            refine Or.inr ⟨reply, rfl, ?_⟩
            rw [hreply]
            simp only [decryptSessionReplyBody, hybridSurb,
              Prims.decryptAad, Prims.encryptAad,
              hans.returns.aead.open_seal]
  obtain ⟨got, hgot, hsub, hiff⟩ := stopped_bodies hstopped
  rcases hshared.phase with hstart | ⟨k, head, t, hled⟩
  · left
    have hheads : heads = [] := by
      cases hheads : heads with
      | nil => rfl
      | cons head more =>
          have hfirsts : net.firsts = heads.map (sentFirst P d layers
            destination) := hstart.firsts
          rw [hheads] at hfirsts
          have hstill := hquiet.firsts (sentFirst P d layers destination
            head) (by rw [hfirsts]; exact List.mem_cons_self)
          cases hstill
    have hrest := hshared.headed hheads
    have hfirsts : net.firsts = [] := by
      have hfirsts : net.firsts = heads.map (sentFirst P d layers
        destination) := hstart.firsts
      rw [hfirsts, hheads]
      rfl
    rw [hrest, List.sublist_nil] at hsub
    refine ⟨hheads, ?_⟩
    rw [SharedNet.arrivedBodies, hgot, hsub, hfirsts]
    rfl
  · right
    have hleader : net.firsts[k]? = some t := hled.leader
    have harrived : t.place = .arrived (serializeFragment head) := by
      obtain ⟨passed, ahead, -, -, hat⟩ := hled.sound.first
      cases ahead with
      | nil => exact hat
      | cons l ahead =>
          obtain ⟨packet, hplace, -⟩ := hat
          have hstill := hquiet.firsts t (List.mem_of_getElem? hleader)
          rw [show t.place = _ from hplace] at hstill
          cases hstill
    have hfirst : net.firsts.filterMap (fun t => t.place.out)
        = [serializeFragment head] := by
      refine filterMap_sole hleader (by rw [harrived]; rfl) ?_
      intro j u hj hu
      rcases hled.others j u hj hu with ⟨f, -, rfl⟩ | ⟨l, tail, -, rfl⟩
      · cases hquiet.firsts _ (List.mem_of_getElem? hu)
      · rfl
    refine ⟨head, got, List.mem_of_getElem? hled.begins, ?_, hsub, hiff⟩
    rw [SharedNet.arrivedBodies, hgot, hfirst]
    rfl

/-- One first piece arrives at most. -/
theorem Serving.arrived_heads
    (hans : Answerable P d layers destination chunks queries)
    (h : Serving P d layers destination kem draws chunks queries net heads
      rest ids) (hquiet : net.Quiet) :
    (net.arrivedBodies P (hybridSurb P d destination layers)).countP isHead
      ≤ 1 := by
  rcases h.arrived hans hquiet with ⟨-, hnone⟩ | ⟨head, got, -, hgot, hsub, -⟩
  · rw [hnone]
    exact Nat.zero_le _
  · have htail : (got.map serializeFragment).countP isHead = 0 := by
      rw [List.countP_eq_zero]
      intro body hbody
      obtain ⟨f, hf, rfl⟩ := List.mem_map.1 hbody
      obtain ⟨hvalid, hne⟩ := h.tails f (hsub.subset hf)
      rw [isHead, deserializeFragment_serialize hvalid]
      simp [Except.toOption, hne]
    rw [hgot, List.countP_cons, htail, Nat.zero_add]
    cases isHead (serializeFragment head) with
    | true => exact Nat.le_refl _
    | false => exact Nat.zero_le _

-- ========== progress

theorem sum_set_lt {l : List Nat} {k a b : Nat} (hk : l[k]? = some b)
    (h : a < b) : (l.set k a).sum < l.sum := by
  induction l generalizing k with
  | nil => cases hk
  | cons x l ih =>
      cases k with
      | zero =>
          obtain rfl := Option.some.inj hk
          simp only [List.set_cons_zero, List.sum_cons]
          omega
      | succ k =>
          have hrest := ih hk
          simp only [List.set_cons_succ, List.sum_cons]
          omega

/-- A first packet on its way has a layer to cross. -/
theorem Crossing.first_length (hc : Returns P d layers)
    (h : Crossing P d layers destination kem draws net heads rest) {k : Nat}
    {path : List NodeId} {id : NodeId} {packet : SphinxPacket}
    (hk : net.firsts[k]? = some ⟨path, .at id packet⟩) :
    path.length < layers.length := by
  obtain ⟨replies, -, hshared⟩ := h.shared
  have hsent : ∀ f, (⟨path, .at id packet⟩ : Transit SphinxPacket _)
      = sentFirst P d layers destination f → path.length < layers.length := by
    intro f heq
    rw [(Transit.mk.inj heq).1]
    exact hc.pos
  rcases hshared.phase with hstart | ⟨j, head, t, hled⟩
  · have hfirsts : net.firsts = heads.map (sentFirst P d layers
      destination) := hstart.firsts
    rw [hfirsts, List.getElem?_map] at hk
    obtain ⟨f, -, hf⟩ := Option.map_eq_some_iff.1 hk
    exact hsent f hf.symm
  · by_cases hkj : k = j
    · have hleader : net.firsts[j]? = some t := hled.leader
      rw [hkj, hleader] at hk
      obtain rfl := Option.some.inj hk
      obtain ⟨passed, ahead, hsplit, hpath, hat⟩ := hled.sound.first
      cases ahead with
      | nil => cases hat
      | cons l ahead =>
          have hsplit : layers = passed ++ l :: ahead := hsplit
          have hpath : path = passed.map Layer.nodeId := hpath
          rw [hsplit, hpath, List.length_append, List.length_map,
            List.length_cons]
          omega
    · rcases hled.others k _ hkj hk with ⟨f, -, hf⟩ | ⟨l, tail, -, hlost⟩
      · exact hsent f hf
      · cases (Transit.mk.inj hlost).2

/-- How many hops a first packet on its way has left. -/
def hopsLeft (layers : List Layer)
    (t : Transit SphinxPacket (List UInt8)) : Nat :=
  if t.place.moving then layers.length - t.path.length else 0

/-- What the holders can still do, if every response is one piece. -/
theorem Serving.drain
    (hans : Answerable P d layers destination chunks queries)
    (hshort : ∀ q ∈ queries, (q.response chunks).length = 1)
    (tags : List Mac) {n : Nat} (hn : net.pieces.length = n)
    (hreplies : net.replies = [])
    (h : Serving P d layers destination kem draws chunks queries net heads
      rest ids) :
    SharedNet.AllAllowed P kem chunks draws d.sessionId tags net
        (List.replicate n (.piece 0 0))
      ∧ SharedNet.AllFollow P kem chunks draws net
        (List.replicate n (.piece 0 0))
      ∧ (net.run P kem chunks draws (List.replicate n (.piece 0 0))).pieces
        = []
      ∧ (net.run P kem chunks draws (List.replicate n
        (.piece 0 0))).replies = [] := by
  induction n generalizing net heads rest ids with
  | zero =>
      exact ⟨trivial, trivial, List.eq_nil_of_length_eq_zero hn, hreplies⟩
  | succ n ih =>
      obtain ⟨piece, more, hpieces⟩ :=
        List.exists_cons_of_length_pos (by omega : 0 < net.pieces.length)
      have hk : net.pieces[0]? = some piece := by rw [hpieces]; rfl
      obtain ⟨q, hq, f, hf, rfl⟩ :=
        h.holding.pieces piece (List.mem_of_getElem? hk)
      have hlive : (net.tables q.holder).Live (requestKey d.sessionId) 0 := by
        intro r _
        rw [Nat.zero_sub]
        exact Nat.zero_lt_succ _
      have hnext : (net.movePiece P chunks draws 0 0).pieces = more
          ∧ (net.movePiece P chunks draws 0 0).replies = [] := by
        obtain ⟨table, held, -, ⟨hmove, -⟩
          | ⟨-, -, asker, hasker, -, hserve⟩⟩ :=
          h.holding.movePiece draws chunks hans.wellFormed hq hf hk hlive
        · rw [hmove]
          refine ⟨?_, hreplies⟩
          simp only [SharedNet.fed, hpieces, List.eraseIdx_cons_zero]
        · obtain ⟨head, hfrags⟩ :=
            List.length_eq_one_iff.1 (hshort asker hasker)
          rw [hserve head [] hfrags]
          refine ⟨?_, ?_⟩
          · simp only [SharedNet.send, SharedNet.fed, hpieces,
              List.eraseIdx_cons_zero]
          · simp only [SharedNet.send, SharedNet.fed, hreplies,
              replyPackets, buildSessionReplies, List.mapIdx_nil,
              List.map_nil, List.append_nil]
      have hallowed : net.Allowed P chunks draws d.sessionId tags
          (.piece 0 0) := by
        refine ⟨fun piece hpiece => ?_, ?_⟩
        · rw [hk] at hpiece
          rw [← Option.some.inj hpiece]
          exact hlive
        · rw [hnext.2]
          rintro i hi
          exact absurd hi (Nat.not_lt_zero i)
      obtain ⟨⟨heads', rest', ids', hserving⟩, -⟩ :=
        h.movePiece hans hallowed
      obtain ⟨hall, hfollow, hdone, hquiet⟩ := ih (by
        rw [hnext.1]
        rw [hpieces, List.length_cons] at hn
        omega) hnext.2 hserving
      exact ⟨⟨hallowed, hall⟩, ⟨trivial, hfollow⟩, hdone, hquiet⟩

/-- What the first packets can still do. -/
theorem Serving.deliver
    (hans : Answerable P d layers destination chunks queries)
    {tags : List Mac} (htags : ∀ l ∈ layers, (l.keys P).tag ∈ tags)
    (draw : MixDraws) (hpieces : net.pieces = [])
    (hreplies : net.replies = [])
    (h : Serving P d layers destination kem draws chunks queries net heads
      rest ids) :
    ∃ moves, SharedNet.AllAllowed P kem chunks draws d.sessionId tags net
        moves
      ∧ SharedNet.AllFollow P kem chunks draws net moves
      ∧ (net.run P kem chunks draws moves).Quiet := by
  generalize hn : (net.firsts.map (hopsLeft layers)).sum = n
  induction n using Nat.strong_induction_on generalizing net heads rest ids
    with
  | _ n ih =>
      by_cases hmoving : ∃ (k : Nat) (path : List NodeId) (id : NodeId)
          (packet : SphinxPacket),
          net.firsts[k]? = some ⟨path, .at id packet⟩
      · obtain ⟨k, path, id, packet, hk⟩ := hmoving
        have hlength := h.crossing.first_length hans.returns hk
        have hallowed : net.Allowed P chunks draws d.sessionId tags
            (.first k draw) := trivial
        obtain ⟨⟨heads', rest', ids', hnext⟩, -⟩ :=
          h.move hans htags hallowed
        obtain ⟨-, hpieces', hreplies'⟩ :=
          net.moveFirst_holders P kem k draw
        have hless : ((net.moveFirst P kem k draw).firsts.map
            (hopsLeft layers)).sum < n := by
          rw [← hn]
          simp only [SharedNet.moveFirst, hk, List.map_set]
          refine sum_set_lt (b := layers.length - path.length) ?_ ?_
          · rw [List.getElem?_map, hk]
            rfl
          · rw [hopsLeft]
            simp only [List.length_append, List.length_singleton]
            generalize Place.moving _ = moving
            cases moving with
            | true => rw [if_pos rfl]; omega
            | false => rw [if_neg (by decide)]; omega
        obtain ⟨moves, hall, hfollow, hquiet⟩ := ih _ hless
          (hpieces'.trans hpieces) (hreplies'.trans hreplies) hnext rfl
        exact ⟨.first k draw :: moves, ⟨trivial, hall⟩,
          ⟨trivial, hfollow⟩, hquiet⟩
      · refine ⟨[], trivial, trivial, hpieces, fun t ht => ?_, ?_⟩
        · have ht : t ∈ net.firsts := ht
          obtain ⟨k, hlt, hget⟩ := List.mem_iff_getElem.1 ht
          obtain ⟨path, place⟩ := t
          cases place with
          | arrived out => rfl
          | lost => rfl
          | «at» id packet =>
              exact absurd ⟨k, path, id, packet, by
                rw [List.getElem?_eq_getElem hlt, hget]⟩ hmoving
        · have hnone : (net.run P kem chunks draws []).replies = [] :=
            hreplies
          rw [hnone]
          intro t ht
          cases ht

/-- A run, and then another. -/
theorem SharedNet.run_append {sessionId : SessionId} {tags : List Mac}
    {before after : List SharedMove}
    (hall : AllAllowed P kem chunks draws sessionId tags net before)
    (hfollow : AllFollow P kem chunks draws net before)
    (hall' : AllAllowed P kem chunks draws sessionId tags
      (net.run P kem chunks draws before) after)
    (hfollow' : AllFollow P kem chunks draws
      (net.run P kem chunks draws before) after) :
    AllAllowed P kem chunks draws sessionId tags net (before ++ after)
      ∧ AllFollow P kem chunks draws net (before ++ after)
      ∧ net.run P kem chunks draws (before ++ after)
        = (net.run P kem chunks draws before).run P kem chunks draws
          after := by
  induction before generalizing net with
  | nil => exact ⟨hall', hfollow', rfl⟩
  | cons mv before ih =>
      obtain ⟨hall'', hfollow'', hrun⟩ :=
        ih hall.2 hfollow.2 hall' hfollow'
      exact ⟨⟨hall.1, hall''⟩, ⟨hfollow.1, hfollow''⟩, hrun⟩

/-- A network in which every response is one piece can always come to
rest. -/
theorem Serving.finish
    (hans : Answerable P d layers destination chunks queries)
    (hshort : ∀ q ∈ queries, (q.response chunks).length = 1)
    {tags : List Mac} (htags : ∀ l ∈ layers, (l.keys P).tag ∈ tags)
    (draw : MixDraws) (hreplies : net.replies = [])
    (h : Serving P d layers destination kem draws chunks queries net heads
      rest ids) :
    ∃ moves, SharedNet.AllAllowed P kem chunks draws d.sessionId tags net
        moves
      ∧ SharedNet.AllFollow P kem chunks draws net moves
      ∧ (net.run P kem chunks draws moves).Quiet := by
  obtain ⟨hall, hfollow, hpieces, hnone⟩ :=
    h.drain hans hshort tags rfl hreplies
  obtain ⟨⟨heads', rest', ids', hnext⟩, -⟩ := h.run hans htags hall
  obtain ⟨moves, hall', hfollow', hquiet⟩ :=
    hnext.deliver hans htags draw hpieces hnone
  obtain ⟨hall, hfollow, hrun⟩ :=
    SharedNet.run_append hall hfollow hall' hfollow'
  exact ⟨_, hall, hfollow, by rw [hrun]; exact hquiet⟩

-- ======= one request

/-- A block for this route is new to its nodes and to the holders, and
carries their answers. -/
theorem ReturnPath.serving (hdh : P.DhCommutes) (haead : P.AeadCorrect)
    {route : HybridRoute} {nodes : NodeId → MixNode}
    (hroute : ReturnPath P d route nodes kem)
    (hlayers : hybridLayers P d route.hops = .ok layers) {surb : Surb}
    {secret : SurbSecret}
    (hsurb : createSurbHybrid P d route = .ok (surb, secret))
    (hunknown : ∀ hop ∈ route.hops,
      (nodes hop.nodeId).sessionCache.get surb.sessionId = none)
    {tables : NodeId → ReassemblyManager}
    (htables : ∀ q ∈ queries,
      (tables q.holder).sessions.get (requestKey surb.sessionId) = none)
    (hfits : ∀ q ∈ queries, (serializeResponse (q.expected chunks)).length
      ≤ MAX_FRAGMENTS_PER_MESSAGE * MAX_FRAGMENT_DATA)
    (hmac : ∀ q ∈ queries, ∀ head,
      (q.response chunks).head? = some head →
      MacSeparates P d route.destination
        (innerBody P layers route.destination (serializeFragment head))
        layers)
    (hno : ∀ q ∈ queries, ∀ head,
      (q.response chunks).head? = some head →
      NoPlaceholder P (innerBody P layers route.destination
        (serializeFragment head)) layers) :
    hybridSurb P d route.destination layers = surb
      ∧ Answerable P d layers route.destination chunks queries
      ∧ Serving P d layers route.destination kem draws chunks queries
        (SharedNet.start nodes tables surb queries) [] [] fun _ => ∅ := by
  obtain ⟨layers', hlayers', hchain, hids, hopen, hkeys, hwf⟩ :=
    hroute.layers hdh
  obtain rfl : layers' = layers :=
    Except.ok.inj (hlayers'.symm.trans hlayers)
  have hlen : layers'.length = route.hops.length := by
    rw [← List.length_map (f := Layer.nodeId), hids, List.length_map]
  have hpos := hroute.pos
  have hmost := hroute.at_most
  obtain rfl : hybridSurb P d route.destination layers' = surb := by
    simp only [createSurbHybrid, hkeys, hlayers] at hsurb
    rw [if_neg (by omega)] at hsurb
    exact (Prod.mk.inj (Except.ok.inj hsurb)).1
  have hans : Answerable P d layers' route.destination chunks queries := by
    refine ⟨⟨haead, by omega, by omega, hchain, ?_, hwf.kem_length⟩, hwf,
      hfits, fun q hq head more hfrags => ?_⟩
    · rw [hids]
      exact hroute.distinct
    · have hhead : (q.response chunks).head? = some head := by
        rw [hfrags]
        rfl
      exact ⟨hmac q hq head hhead, hno q hq head hhead⟩
  have hnew : ∀ l ∈ layers',
      (nodes l.nodeId).sessionCache.get d.sessionId = none := by
    intro l hl
    have hmem : l.nodeId ∈ route.hops.map HybridRouteHop.nodeId := by
      rw [← hids]
      exact List.mem_map_of_mem hl
    obtain ⟨hop, hhop, hid⟩ := List.mem_map.1 hmem
    rw [← hid]
    exact hunknown hop hhop
  exact ⟨rfl, hans,
    Serving.start hwf hopen (hroute.fresh layers' hlayers) hnew htables⟩

/-- A requester that shares a reply block between its requests gets what
it asked for exactly when it has one request, opens a session before the
first body arrives, and no session reply overtakes the packet that starts
the answer. -/
theorem one_block_iff (P : Prims) (hdh : P.DhCommutes)
    (haead : P.AeadCorrect) (d : PacketDraws) (route : HybridRoute)
    (nodes : NodeId → MixNode) (kem : NodeId → List UInt8)
    (hroute : ReturnPath P d route nodes kem) {layers : List Layer}
    (hlayers : hybridLayers P d route.hops = .ok layers) {surb : Surb}
    {secret : SurbSecret}
    (hsurb : createSurbHybrid P d route = .ok (surb, secret))
    (hunknown : ∀ hop ∈ route.hops,
      (nodes hop.nodeId).sessionCache.get surb.sessionId = none)
    (chunks : NodeId → ChunkId → Option (List UInt8))
    (tables : NodeId → ReassemblyManager) (queries : List Query)
    (hne : queries ≠ [])
    (htables : ∀ q ∈ queries,
      (tables q.holder).sessions.get (requestKey surb.sessionId) = none)
    (hfits : ∀ q ∈ queries, (serializeResponse (q.expected chunks)).length
      ≤ MAX_FRAGMENTS_PER_MESSAGE * MAX_FRAGMENT_DATA)
    (hmac : ∀ q ∈ queries, ∀ head,
      (q.response chunks).head? = some head →
      MacSeparates P d route.destination
        (innerBody P layers route.destination (serializeFragment head))
        layers)
    (hno : ∀ q ∈ queries, ∀ head,
      (q.response chunks).head? = some head →
      NoPlaceholder P (innerBody P layers route.destination
        (serializeFragment head)) layers)
    (draws : Nat → Bytes 32) (moves : List SharedMove)
    (hall : SharedNet.AllAllowed P kem chunks draws surb.sessionId
      (layers.map fun l => (l.keys P).tag)
      (SharedNet.start nodes tables surb queries) moves)
    (hquiet : ((SharedNet.start nodes tables surb queries).run P kem chunks
      draws moves).Quiet)
    (events : List RetrievalEvent)
    (hopens : events.countP RetrievalEvent.isOpened ≤ queries.length)
    (hbodies : (events.filterMap RetrievalEvent.bytes?).Perm
      (((SharedNet.start nodes tables surb queries).run P kem chunks draws
        moves).arrivedBodies P surb)) :
    (RetrievalManager.new.take events).1.Perm
        (queries.map (Query.expected chunks))
      ↔ queries.length = 1
        ∧ (events.head?).any RetrievalEvent.isOpened = true
        ∧ SharedNet.AllFollow P kem chunks draws
          (SharedNet.start nodes tables surb queries) moves := by
  obtain ⟨rfl, hans, hstart⟩ := hroute.serving hdh haead hlayers hsurb
    hunknown htables hfits hmac hno
  have htags : ∀ l ∈ layers, (l.keys P).tag
      ∈ layers.map fun l => (l.keys P).tag :=
    fun l hl => List.mem_map_of_mem hl
  obtain ⟨⟨heads, rest, ids, hend⟩, hlossless⟩ :=
    hstart.run hans htags hall
  rw [and_iff_right nofun] at hlossless
  rw [← hlossless]
  by_cases hone : queries.length = 1
  · obtain ⟨q, rfl⟩ := List.length_eq_one_iff.1 hone
    have hq := List.mem_singleton_self q
    have hfrag : Fragmentation (q.response chunks) _ :=
      fragmentPayload_fragmentation (hfits q hq)
    -- every piece of the request has been used, so it was answered
    have hsole := hend.sole q rfl
    rw [hquiet.pieces] at hsole
    obtain ⟨head, rfl, hfrags⟩ := hsole.answer
    rcases hend.arrived hans hquiet with ⟨hnil, -⟩
      | ⟨head', got, hmem, hgot, hsub, hiff⟩
    · cases hnil
    · obtain rfl := List.mem_singleton.1 hmem
      obtain ⟨missing, hperm⟩ := hsub.exists_perm_append
      have htake := take_once hfrag (response_size (hfits q hq))
        (missing.map serializeFragment) hopens (by
          refine (hbodies.append_right _).trans ?_
          rw [hgot, hfrags, List.cons_append, List.map_cons,
            ← List.map_append]
          exact (hperm.symm.map _).cons _)
      have hmissing : (missing.map serializeFragment = [])
          ↔ got = rest := by
        rw [List.map_eq_nil_iff]
        refine ⟨fun hnil => ?_, fun heq => ?_⟩
        · rw [hnil, List.append_nil] at hperm
          exact hsub.eq_of_length hperm.length_eq.symm
        · have hlen := hperm.length_eq
          rw [heq, List.length_append] at hlen
          exact List.eq_nil_of_length_eq_zero (by omega)
      rw [htake, List.map_singleton, hiff, ← hmissing]
      by_cases hcond : missing.map serializeFragment = []
          ∧ (events.head?).any RetrievalEvent.isOpened = true
      · rw [if_pos hcond]
        exact ⟨fun _ => ⟨rfl, hcond.2, hcond.1⟩, fun _ => List.Perm.refl _⟩
      · rw [if_neg hcond]
        refine ⟨fun h => ?_, fun h => absurd ⟨h.2.2, h.2.1⟩ hcond⟩
        exact absurd h.length_eq (by simp)
  · refine iff_of_false (fun h => ?_) fun h => hone h.1
    have hheads := hend.arrived_heads hans hquiet
    rw [← hbodies.countP_eq] at hheads
    have htake := RetrievalManager.take_heads RetrievalManager.new events
    have hzero : RetrievalManager.new.heads = 0 := rfl
    have hlength := h.length_eq
    have hsome := List.length_pos_of_ne_nil hne
    rw [List.length_map] at hlength
    omega

-- ==== two small requests

/-- A chunk that its holder does not have. -/
def askedOf (n : UInt8) : Query := ⟨Bytes.fill 32 n, Bytes.fill 16 n⟩

def noChunk (_ : NodeId) (_ : ChunkId) : Option (List UInt8) := none

def noSession (_ : NodeId) : ReassemblyManager := ⟨∅, []⟩

/-- An answer that a chunk is absent fits one piece. -/
theorem noChunk_response (q : Query) :
    (serializeResponse (q.expected noChunk)).length
        ≤ MAX_FRAGMENTS_PER_MESSAGE * MAX_FRAGMENT_DATA
      ∧ (q.response noChunk).length = 1 := by
  have hlen : (serializeResponse (q.expected noChunk)).length = 38 := by
    simp only [serializeResponse, Query.expected, noChunk, chunkResponse,
      Option.getD_none, List.length_append, Bytes.length_toList,
      length_beBytes, List.length_singleton, List.length_nil]
  refine ⟨by rw [hlen]; decide, ?_⟩
  rw [Query.response, fragmentPayload, List.length_map, List.length_range,
    hlen]
  decide

/-- Requests for it with one block, over the short route. -/
theorem noChunk_serving (queries : List Query) :
    ∃ layers surb secret,
      hybridLayers .still quietDraws quietReturn.hops = .ok layers
      ∧ createSurbHybrid .still quietDraws quietReturn = .ok (surb, secret)
      ∧ hybridSurb .still quietDraws quietReturn.destination layers = surb
      ∧ Answerable .still quietDraws layers quietReturn.destination noChunk
        queries
      ∧ Serving .still quietDraws layers quietReturn.destination quietKem
        countingNonce noChunk queries
        (SharedNet.start quietNode noSession surb queries) [] []
        fun _ => ∅ := by
  obtain ⟨layers, hlayers, -, -, -, hkeys, -⟩ :=
    quietReturn_path.layers still_dhCommutes
  have hsurb : createSurbHybrid .still quietDraws quietReturn
      = .ok (hybridSurb .still quietDraws quietReturn.destination layers,
        ⟨0, quietReturn.hops.length⟩) := by
    simp only [createSurbHybrid, hkeys, hlayers]
    rw [if_neg (by decide)]
    rfl
  have hvalid : ∀ q ∈ queries, ∀ head,
      (q.response noChunk).head? = some head → head.Valid :=
    fun q _ head hhead => (fragmentPayload_fragmentation
      (noChunk_response q).1).valid (List.mem_of_mem_head? hhead)
  refine ⟨layers, _, _, hlayers, hsurb, ?_⟩
  exact quietReturn_path.serving still_dhCommutes still_aeadCorrect hlayers
    hsurb (fun _ _ => rfl) (fun _ _ => rfl)
    (fun q _ => (noChunk_response q).1)
    (fun q hq head hhead => still_macSeparates (hvalid q hq head hhead))
    (fun q hq head hhead => still_noPlaceholder (hvalid q hq head hhead))

/-- What a run needs besides. -/
def noDraws : MixDraws := ⟨fun _ => 0, fun _ => 0, 0⟩

theorem one_block_iff_alone :
    ∃ surb secret moves,
      createSurbHybrid .still quietDraws quietReturn = .ok (surb, secret)
      ∧ ((SharedNet.start quietNode noSession surb [askedOf 7]).run .still
        quietKem noChunk countingNonce moves).Quiet
      ∧ (RetrievalManager.new.take
        (.opened (Bytes.fill 32 7) 0
          :: (((SharedNet.start quietNode noSession surb [askedOf 7]).run
            .still quietKem noChunk countingNonce moves).arrivedBodies .still
              surb).map (.body IterOrder.bytewise))).1.Perm
          [(askedOf 7).expected noChunk] := by
  obtain ⟨layers, surb, secret, hlayers, hsurb, hsame, hans, hstart⟩ :=
    noChunk_serving [askedOf 7]
  have htags : ∀ l ∈ layers, (l.keys .still).tag
      ∈ layers.map fun l => (l.keys .still).tag :=
    fun l hl => List.mem_map_of_mem hl
  obtain ⟨moves, hall, hfollow, hquiet⟩ := hstart.finish hans
    (fun q _ => (noChunk_response q).2) htags noDraws rfl
  refine ⟨surb, secret, moves, hsurb, hquiet, ?_⟩
  have hvalid : ∀ q ∈ [askedOf 7], ∀ head,
      (q.response noChunk).head? = some head → head.Valid :=
    fun q _ head hhead => (fragmentPayload_fragmentation
      (noChunk_response q).1).valid (List.mem_of_mem_head? hhead)
  refine (one_block_iff .still still_dhCommutes still_aeadCorrect
    quietDraws quietReturn quietNode quietKem quietReturn_path hlayers hsurb
    (fun _ _ => rfl) noChunk noSession [askedOf 7] (List.cons_ne_nil _ _)
    (fun _ _ => rfl) (fun q _ => (noChunk_response q).1)
    (fun q hq head hhead => still_macSeparates (hvalid q hq head hhead))
    (fun q hq head hhead => still_noPlaceholder (hvalid q hq head hhead))
    countingNonce moves ?_ hquiet _ ?_ ?_).2 ⟨rfl, rfl, hfollow⟩
  · rw [← hsame]
    rw [← hsame] at hall
    exact hall
  · have hnone : List.countP RetrievalEvent.isOpened
        ((((SharedNet.start quietNode noSession surb [askedOf 7]).run .still
          quietKem noChunk countingNonce moves).arrivedBodies .still
            surb).map (RetrievalEvent.body IterOrder.bytewise)) = 0 := by
      rw [List.countP_eq_zero]
      intro event hevent
      obtain ⟨body, -, rfl⟩ := List.mem_map.1 hevent
      exact Bool.false_ne_true
    rw [List.countP_cons, hnone]
    exact Nat.le_refl _
  · rw [List.filterMap_cons]
    simp only [RetrievalEvent.bytes?, List.filterMap_map,
      Function.comp_def, List.filterMap_some]
    exact List.Perm.refl _

/-- Two requests, to two holders: when everything has come to rest, the
requester does not get both answers. -/
theorem one_block_starves :
    ∃ layers surb secret moves,
      hybridLayers .still quietDraws quietReturn.hops = .ok layers
      ∧ createSurbHybrid .still quietDraws quietReturn = .ok (surb, secret)
      ∧ SharedNet.AllAllowed .still quietKem noChunk countingNonce
        surb.sessionId (layers.map fun l => (l.keys .still).tag)
        (SharedNet.start quietNode noSession surb [askedOf 7, askedOf 8])
        moves
      ∧ SharedNet.AllFollow .still quietKem noChunk countingNonce
        (SharedNet.start quietNode noSession surb [askedOf 7, askedOf 8])
        moves
      ∧ ((SharedNet.start quietNode noSession surb
        [askedOf 7, askedOf 8]).run .still quietKem noChunk countingNonce
          moves).Quiet
      ∧ ∀ events : List RetrievalEvent,
        (events.filterMap RetrievalEvent.bytes?).Perm
          (((SharedNet.start quietNode noSession surb
            [askedOf 7, askedOf 8]).run .still quietKem noChunk
              countingNonce moves).arrivedBodies .still surb) →
        ¬ (RetrievalManager.new.take events).1.Perm
          ([askedOf 7, askedOf 8].map (Query.expected noChunk)) := by
  obtain ⟨layers, surb, secret, hlayers, hsurb, hsame, hans, hstart⟩ :=
    noChunk_serving [askedOf 7, askedOf 8]
  have htags : ∀ l ∈ layers, (l.keys .still).tag
      ∈ layers.map fun l => (l.keys .still).tag :=
    fun l hl => List.mem_map_of_mem hl
  obtain ⟨moves, hall, hfollow, hquiet⟩ := hstart.finish hans
    (fun q _ => (noChunk_response q).2) htags noDraws rfl
  obtain ⟨⟨heads, rest, ids, hend⟩, -⟩ := hstart.run hans htags hall
  refine ⟨layers, surb, secret, moves, hlayers, hsurb, ?_, hfollow, hquiet,
    fun events hbodies hperm => ?_⟩
  · rw [← hsame]
    rw [← hsame] at hall
    exact hall
  · have hheads := hend.arrived_heads hans hquiet
    rw [hsame, ← hbodies.countP_eq] at hheads
    have htake := RetrievalManager.take_heads RetrievalManager.new events
    have hzero : RetrievalManager.new.heads = 0 := rfl
    have hlength := hperm.length_eq
    rw [List.length_map, List.length_cons, List.length_singleton] at hlength
    omega

end StaticNet
