/-
One delivery of a packet of a shipment, and the invariant it keeps.

Every letter is one of the packets with some layers still on
(`Shipment.At`), and which bodies have come out is told by the tags: a
body has come out exactly when the node of its last layer has seen that
layer's tag. A letter delivered again meets its own tag and goes no
further. So no body comes out twice, none that was not sent, and none
anywhere but at the last node. What that node makes of the bodies is not
fixed here: the invariant carries a predicate that one more body must
keep (`Collects`).

That nothing is missing at the end needs connections along the route:
`Kept` says that a layer whose tag was seen has its successor among the
letters.
-/
import StaticNet.Node.MixNet
import StaticNet.Retrieval.ReplyNet

namespace StaticNet

-- ====== one delivery

/-- The node has accepted the packet of a layer. -/
def MessageState.accepted (P : Prims) (s : MessageState) (l : Layer) :
    MessageState :=
  { s with mixNode := s.mixNode.insertSeenTag (l.keys P).tag }

section Delivery

variable {P : Prims} {sessionId : SessionId} {destination : NodeId}
  {inner : List UInt8} {l next : Layer} {rest : List Layer}
  {packet : SphinxPacket} {s : MessageState}

/-- The hop reaches the layer, and peels it. -/
theorem processed_eq_peel (hinner : inner.length = WIRE_BODY_SIZE)
    (r : Reading)
    (hopens : OpensHybrid P ⟨s.mixNode, s.kemSecret, r.draws⟩ l)
    (h : InFlight P SPHINX_VERSION_HYBRID sessionId destination
      (onion P inner) inner KEM_BLOCK_SIZE (l :: rest) packet) :
    ∃ kemRest,
      processPacketHybridWithKeys P s.mixNode s.kemSecret packet r.draws
        = peel P s.mixNode l.shared packet kemRest r.draws
      ∧ (∃ pad, kemRest = (rest.map Layer.ciphertext).flatten ++ pad)
      ∧ kemRest.length = KEM_BLOCK_SIZE :=
  processHybrid_eq_peel hinner ⟨s.mixNode, s.kemSecret, r.draws⟩ l rest
    packet hopens h

/-- Seen before, it is a replay. -/
theorem handleSphinx_seen (hinner : inner.length = WIRE_BODY_SIZE)
    (sender : NodeId) (r : Reading)
    (hopens : OpensHybrid P ⟨s.mixNode, s.kemSecret, r.draws⟩ l)
    (h : InFlight P SPHINX_VERSION_HYBRID sessionId destination
      (onion P inner) inner KEM_BLOCK_SIZE (l :: rest) packet)
    (hseen : (l.keys P).tag ∈ s.mixNode.seenTags) :
    handleSphinx P s sender r packet = (.error .replayDetected, s) := by
  obtain ⟨kemRest, heq, -, -⟩ := processed_eq_peel hinner r hopens h
  have hmatch := matchMac_body h
  have hpeel : peel P s.mixNode l.shared packet kemRest r.draws
      = (.error .replayDetected, s.mixNode) := by
    simp only [Layer.keys] at hmatch hseen
    simp only [peel, hmatch, hseen, if_true]
  unfold handleSphinx
  rw [h.version_eq, if_neg (not_not.2 rfl), heq, hpeel]

/-- Under the last layer is the body. -/
theorem handleSphinx_last {body : List UInt8}
    (hinner : inner.length = WIRE_BODY_SIZE) (sender : NodeId) (r : Reading)
    (hopens : OpensHybrid P ⟨s.mixNode, s.kemSecret, r.draws⟩ l)
    (h : InFlight P SPHINX_VERSION_HYBRID sessionId destination
      (onion P inner) inner KEM_BLOCK_SIZE [l] packet)
    (hfresh : (l.keys P).tag ∉ s.mixNode.seenTags)
    (hbody : aeadDecryptBody P (bodyAeadKey P l.shared) inner destination
      = .ok body) :
    handleSphinx P s sender r packet
      = (.ok (handleBody (s.accepted P l) sender body r.requestAt).1,
        (handleBody (s.accepted P l) sender body r.requestAt).2) := by
  obtain ⟨kemRest, heq, -, -⟩ := processed_eq_peel hinner r hopens h
  rw [peel_destination h (matchMac_body h) hfresh hbody] at heq
  unfold handleSphinx
  rw [h.version_eq, if_neg (not_not.2 rfl), heq]
  rfl

/-- Under another layer is the packet for the next hop. -/
theorem handleSphinx_forward (hinner : inner.length = WIRE_BODY_SIZE)
    (sender : NodeId) (r : Reading)
    (hopens : OpensHybrid P ⟨s.mixNode, s.kemSecret, r.draws⟩ l)
    (h : InFlight P SPHINX_VERSION_HYBRID sessionId destination
      (onion P inner) inner KEM_BLOCK_SIZE (l :: next :: rest) packet)
    (hchain : Chained P (l :: next :: rest))
    (hfresh : (l.keys P).tag ∉ s.mixNode.seenTags) :
    ∃ fwd, InFlight P SPHINX_VERSION_HYBRID sessionId destination
        (onion P inner) inner KEM_BLOCK_SIZE (next :: rest) fwd
      ∧ handleSphinx P s sender r packet
        = (.ok ((s.accepted P l).forward next.nodeId (.sphinx fwd)),
          s.accepted P l) := by
  obtain ⟨kemRest, heq, hkem, hkemLen⟩ :=
    processed_eq_peel hinner r hopens h
  obtain ⟨fwd, hpeel, hfwd⟩ := peel_forward (d := r.draws) h hchain
    (matchMac_body h) hfresh hkem hkemLen
  refine ⟨fwd, hfwd, ?_⟩
  unfold handleSphinx
  rw [h.version_eq, if_neg (not_not.2 rfl), heq, hpeel]
  rfl

/-- A body changes nothing but the collected requests. -/
theorem handleBody_state (s : MessageState) (sender : NodeId)
    (body : List UInt8) (now : Nat) :
    ∃ requests, (handleBody s sender body now).2
      = { s with pendingRequests := requests } := by
  unfold handleBody
  cases deserializeRequest body with
  | ok _ => exact ⟨s.pendingRequests, rfl⟩
  | error _ => exact ⟨_, rfl⟩

/-- A body is not sent on. -/
theorem handleBody_stays (s : MessageState) (sender id : NodeId)
    (body : List UInt8) (now : Nat) :
    (handleBody s sender body now).1.filterMap (Outcome.letter id) = []
      ∧ (handleBody s sender body now).1.filter Outcome.stays
        = (handleBody s sender body now).1 := by
  unfold handleBody
  cases deserializeRequest body with
  | ok _ => exact ⟨rfl, rfl⟩
  | error _ =>
      dsimp only
      rcases (tryFeedSurbRequestFragment s.pendingRequests body now).1
        with _ | _ | _
      · exact ⟨rfl, rfl⟩
      · exact ⟨rfl, rfl⟩
      · exact ⟨rfl, rfl⟩

end Delivery

-- ===== the invariant

namespace Shipment

/-- What a shipment that was built is like. -/
structure Built (P : Prims) (S : Shipment) : Prop where
  inner_length : ∀ k < S.bodies.length,
    (S.inner P k).length = WIRE_BODY_SIZE
  opens_inner : ∀ k < S.bodies.length, ∀ l,
    (S.layers P k).getLast? = some l →
      aeadDecryptBody P (bodyAeadKey P l.shared) (S.inner P k)
        S.route.destination = .ok (S.body k)
  chained : ∀ k < S.bodies.length, Chained P (S.layers P k)
  ids : ∀ k < S.bodies.length, (S.layers P k).map Layer.nodeId
    = S.route.hops.map HybridRouteHop.nodeId
  hops : S.route.hops ≠ []
  apart : (S.stamps P).Nodup

/-- One more body keeps the predicate, and so does what the last node
does meanwhile. -/
structure Collects (S : Shipment)
    (J : List Nat → ReassemblyManager → List Outcome → Prop)
    (timely : Reading → Prop)
    (quiet : ReassemblyManager → ReassemblyManager → Prop) : Prop where
  body : ∀ ks k s out sender r, J ks s.pendingRequests out → k ∉ ks →
    k < S.bodies.length → timely r →
    J (ks ++ [k])
      (handleBody s sender (S.body k) r.requestAt).2.pendingRequests
      (out ++ (handleBody s sender (S.body k) r.requestAt).1)
  quiet : ∀ ks m m' out, J ks m out → quiet m m' → J ks m' out

/-- The letters are legs; those delivered are crossed; the bodies `ks`
have come out, in this order, at the last node and nowhere else. -/
structure Sound (P : Prims) (S : Shipment)
    (J : List Nat → ReassemblyManager → List Outcome → Prop) (net : MixNet)
    (ks : List Nat) (legs : List Leg) : Prop where
  opens : ∀ k < S.bodies.length, ∀ l ∈ S.layers P k, ∀ d, OpensHybrid P
    ⟨(net.nodes l.nodeId).mixNode, (net.nodes l.nodeId).kemSecret, d⟩ l
  sent : List.Forall₂ (S.At P) legs net.sent
  valid : ∀ leg ∈ legs, S.HasLeg P leg
  crossed : ∀ i ∈ net.delivered, ∃ leg, legs[i]? = some leg
    ∧ Seen P net.nodes leg.layer
  once : ks.Nodup
  arrived : ∀ k, k ∈ ks ↔ k < S.bodies.length
    ∧ ∀ l, (S.layers P k).getLast? = some l → Seen P net.nodes l
  collected : J ks (net.nodes S.last).pendingRequests (net.handed S.last)
  elsewhere : ∀ id, id ≠ S.last → net.handed id = []

/-- Nothing was dropped: behind a layer that was crossed is the next. -/
structure Kept (P : Prims) (S : Shipment) (nodes : NodeId → MessageState)
    (legs : List Leg) : Prop where
  started : ∀ k < S.bodies.length, ∀ l rest,
    S.layers P k = l :: rest → ⟨k, l, rest⟩ ∈ legs
  passed : ∀ k < S.bodies.length, ∀ l next rest,
    l :: next :: rest <:+ S.layers P k → Seen P nodes l →
      ⟨k, next, rest⟩ ∈ legs

variable {P : Prims} {S : Shipment} {k k' : Nat} {l l' : Layer}
  {rest : List Layer} {nodes : NodeId → MessageState}

theorem mem_stamps (hk : k < S.bodies.length) (hl : l ∈ S.layers P k) :
    stamp P l ∈ S.stamps P :=
  List.mem_flatMap.2 ⟨k, List.mem_range.2 hk, List.mem_map_of_mem hl⟩

/-- A stamp is left by one layer of one packet. -/
theorem Built.stamp_inj (hb : S.Built P) (hk : k < S.bodies.length)
    (hk' : k' < S.bodies.length) (hl : l ∈ S.layers P k)
    (hl' : l' ∈ S.layers P k') (h : stamp P l = stamp P l') :
    k = k' ∧ l = l' := by
  have hnd := hb.apart
  unfold stamps at hnd
  rw [List.nodup_flatMap] at hnd
  obtain ⟨hinner, hpair⟩ := hnd
  have hkk : k = k' := by
    by_contra hne
    have hsymm : Std.Symm (Function.onFun List.Disjoint
        fun k => (S.layers P k).map (stamp P)) := ⟨fun _ _ hd => hd.symm⟩
    have hdisj := hpair.forall (List.mem_range.2 hk) (List.mem_range.2 hk')
      hne
    refine hdisj (List.mem_map_of_mem hl) ?_
    rw [h]
    exact List.mem_map_of_mem hl'
  subst hkk
  exact ⟨rfl, List.inj_on_of_nodup_map (hinner k (List.mem_range.2 hk)) hl
    hl' h⟩

theorem Built.layers_nodup (hb : S.Built P) (hk : k < S.bodies.length) :
    (S.layers P k).Nodup := by
  have hall := hb.apart
  unfold stamps at hall
  rw [List.nodup_flatMap] at hall
  exact (hall.1 k (List.mem_range.2 hk)).of_map

/-- A layer has one place in its packet. -/
theorem Built.suffix_eq (hb : S.Built P) (hk : k < S.bodies.length)
    {rest' : List Layer} (hsuf : l :: rest <:+ S.layers P k)
    (hsuf' : l :: rest' <:+ S.layers P k) : rest = rest' := by
  obtain ⟨passed, hsplit⟩ := hsuf
  obtain ⟨passed', hsplit'⟩ := hsuf'
  have hnot : ∀ {p r : List Layer}, p ++ l :: r = S.layers P k →
      l ∉ p ∧ l ∉ r := by
    intro p r h
    have hnd := hb.layers_nodup hk
    rw [← h] at hnd
    exact ⟨fun hmem => (List.nodup_append.1 hnd).2.2 _ hmem _
      List.mem_cons_self rfl, (List.nodup_cons.1 hnd.of_append_right).1⟩
  exact ((List.append_cons_inj_of_notMem (hnot hsplit').1
    (hnot hsplit').2).1 (hsplit'.trans hsplit.symm)).2.2.symm

/-- The last layer has nothing behind it. -/
theorem Built.rest_nil (hb : S.Built P) (hk : k < S.bodies.length)
    (hsuf : l :: rest <:+ S.layers P k)
    (hlast : (S.layers P k).getLast? = some l) : rest = [] :=
  hb.suffix_eq hk hsuf
    ⟨_, List.dropLast_append_getLast? l hlast⟩

/-- The last layer is for the last node. -/
theorem Built.last_id (hb : S.Built P) (hk : k < S.bodies.length)
    (hlast : (S.layers P k).getLast? = some l) : l.nodeId = S.last := by
  have hmap := congrArg List.getLast? (hb.ids k hk)
  rw [List.getLast?_map, List.getLast?_map, hlast] at hmap
  unfold last
  rw [← hmap]
  rfl

theorem getLast?_of_suffix {layers : List Layer} (h : [l] <:+ layers) :
    layers.getLast? = some l := by
  obtain ⟨passed, rfl⟩ := h
  exact List.getLast?_concat

/-- Accepting a layer is seeing its tag, and no other of the shipment. -/
theorem seen_accepted (hb : S.Built P) (hk : k < S.bodies.length)
    (hl : l ∈ S.layers P k)
    (hrem : S.Remembers P (nodes l.nodeId).mixNode l.nodeId)
    {s : MessageState}
    (hs : s.mixNode = (nodes l.nodeId).mixNode.insertSeenTag (l.keys P).tag)
    (hk' : k' < S.bodies.length) (hl' : l' ∈ S.layers P k') :
    Seen P (Function.update nodes l.nodeId s) l'
      ↔ Seen P nodes l' ∨ (k' = k ∧ l' = l) := by
  unfold Seen
  by_cases hid : l'.nodeId = l.nodeId
  · rw [hid, Function.update_self, hs]
    constructor
    · intro h
      rcases Fifo.mem_of_mem_push h with h | h
      · exact .inl h
      · exact .inr (hb.stamp_inj hk' hk hl' hl (Prod.ext hid h))
    · rintro (h | ⟨-, rfl⟩)
      · refine Fifo.mem_push_of_mem h fun hfull => ?_
        exact hrem _ (mem_stamps hk' hl') hid hfull
      · exact Fifo.mem_push_self
  · rw [Function.update_of_ne hid]
    exact ⟨.inl, fun h => h.resolve_right fun h => hid (by rw [h.2])⟩

end Shipment

-- ======== deliveries

section Steps

variable {P : Prims} {S : Shipment}
  {J : List Nat → ReassemblyManager → List Outcome → Prop} {net : MixNet}
  {ks : List Nat} {legs : List Leg} {timely : Reading → Prop}
  {quiet : ReassemblyManager → ReassemblyManager → Prop}

theorem MixNet.deliver_eq {i : Nat} {r : Reading} {letter : Letter}
    {out : Except SphinxError (List Outcome)} {s : MessageState}
    (hget : net.sent[i]? = some letter)
    (hout : handleMessage P (net.nodes letter.receiver) letter.sender r
      letter.msg = (out, s)) :
    net.deliver P i r =
      { nodes := Function.update net.nodes letter.receiver s
        sent := net.sent ++ (out.toOption.getD []).filterMap
          (Outcome.letter letter.receiver)
        delivered := net.delivered ++ [i]
        handed := Function.update net.handed letter.receiver
          (net.handed letter.receiver
            ++ (out.toOption.getD []).filter Outcome.stays) } := by
  unfold MixNet.deliver
  simp only [hget, hout]

namespace Shipment

/-- What a node does of its own leaves the tags as they are. -/
theorem seen_unrelated {id : NodeId} {s : MessageState} {k : Nat}
    {l : Layer} (hs : S.Unrelated P id (net.nodes id) s)
    (hk : k < S.bodies.length) (hl : l ∈ S.layers P k) :
    Seen P (Function.update net.nodes id s) l ↔ Seen P net.nodes l := by
  unfold Seen
  by_cases hid : l.nodeId = id
  · subst hid
    rw [Function.update_self]
    exact hs.tags _ (mem_stamps hk hl) rfl
  · rw [Function.update_of_ne hid]

/-- A node that keeps its keys still opens its layers. -/
theorem opens_update {id : NodeId} {s : MessageState} {l : Layer}
    {d : MixDraws}
    (hkey : s.mixNode.privateKey = (net.nodes id).mixNode.privateKey)
    (hkem : s.kemSecret = (net.nodes id).kemSecret)
    (h : OpensHybrid P ⟨(net.nodes l.nodeId).mixNode,
      (net.nodes l.nodeId).kemSecret, d⟩ l) :
    OpensHybrid P ⟨(Function.update net.nodes id s l.nodeId).mixNode,
      (Function.update net.nodes id s l.nodeId).kemSecret, d⟩ l := by
  by_cases hid : l.nodeId = id
  · rw [hid, Function.update_self, hkem]
    rw [hid] at h
    exact Answer.opens_congr hkey h
  · rw [Function.update_of_ne hid]
    exact h

theorem Built.last_mem (hb : S.Built P) {k : Nat}
    (hk : k < S.bodies.length) :
    ∃ l, (S.layers P k).getLast? = some l ∧ l ∈ S.layers P k := by
  cases hlast : (S.layers P k).getLast? with
  | none =>
      have hids := hb.ids k hk
      rw [List.getLast?_eq_none_iff.1 hlast] at hids
      exact absurd (List.map_eq_nil_iff.1 hids.symm) hb.hops
  | some l => exact ⟨l, rfl, List.mem_of_getLast? hlast⟩

theorem HasLeg.mem {leg : Leg} (h : S.HasLeg P leg) :
    leg.layer ∈ S.layers P leg.index :=
  h.suffix.subset List.mem_cons_self

/-- Between deliveries. -/
theorem Sound.unrelated (h : Sound P S J net ks legs) {id : NodeId}
    {s : MessageState} (hs : S.Unrelated P id (net.nodes id) s)
    (hJ : id = S.last → J ks s.pendingRequests (net.handed S.last)) :
    Sound P S J { net with nodes := Function.update net.nodes id s } ks
      legs where
  opens k hk l hl d :=
    opens_update hs.private_key hs.kem_secret (h.opens k hk l hl d)
  sent := h.sent
  valid := h.valid
  crossed i hi := by
    obtain ⟨leg, hleg, hseen⟩ := h.crossed i hi
    have hvalid := h.valid leg (List.mem_of_getElem? hleg)
    exact ⟨leg, hleg, (seen_unrelated hs hvalid.index_lt
      hvalid.mem).2 hseen⟩
  once := h.once
  arrived k := by
    rw [h.arrived]
    refine and_congr_right fun hk => forall_congr' fun l =>
      imp_congr_right fun hlast => ?_
    exact (seen_unrelated hs hk (List.mem_of_getLast? hlast)).symm
  collected := by
    show J ks (Function.update net.nodes id s S.last).pendingRequests
      (net.handed S.last)
    by_cases hid : id = S.last
    · subst hid
      rw [Function.update_self]
      exact hJ rfl
    · rw [Function.update_of_ne (Ne.symm hid)]
      exact h.collected
  elsewhere := h.elsewhere

/-- A letter delivered again. -/
theorem Sound.again (h : Sound P S J net ks legs) {i : Nat} {leg : Leg}
    (hleg : legs[i]? = some leg) (hseen : Seen P net.nodes leg.layer) :
    Sound P S J { net with delivered := net.delivered ++ [i] } ks legs where
  opens := h.opens
  sent := h.sent
  valid := h.valid
  crossed j hj := by
    rcases List.mem_append.1 hj with hj | hj
    · exact h.crossed j hj
    · rw [List.mem_singleton.1 hj]
      exact ⟨leg, hleg, hseen⟩
  once := h.once
  arrived := h.arrived
  collected := h.collected
  elsewhere := h.elsewhere

/-- What taking a leg for the first time leaves of the invariant,
whatever comes of it. -/
theorem Sound.taken (hb : S.Built P) (h : Sound P S J net ks legs) {i : Nat}
    {leg : Leg} {s : MessageState} (hleg : legs[i]? = some leg)
    (hrem : S.Remembers P (net.nodes leg.layer.nodeId).mixNode
      leg.layer.nodeId)
    (hmix : s.mixNode = (net.nodes leg.layer.nodeId).mixNode.insertSeenTag
      (leg.layer.keys P).tag)
    (hkem : s.kemSecret = (net.nodes leg.layer.nodeId).kemSecret)
    (new : List Leg) :
    (∀ k < S.bodies.length, ∀ l ∈ S.layers P k, ∀ d, OpensHybrid P
      ⟨(Function.update net.nodes leg.layer.nodeId s l.nodeId).mixNode,
        (Function.update net.nodes leg.layer.nodeId s
          l.nodeId).kemSecret, d⟩ l)
      ∧ ∀ j ∈ net.delivered ++ [i], ∃ leg', (legs ++ new)[j]? = some leg'
        ∧ Seen P (Function.update net.nodes leg.layer.nodeId s)
          leg'.layer := by
  have hvalid := h.valid leg (List.mem_of_getElem? hleg)
  have hold : ∀ {j : Nat} {leg' : Leg}, legs[j]? = some leg' →
      (legs ++ new)[j]? = some leg' := by
    intro j leg' hj
    rw [List.getElem?_append_left (List.getElem?_eq_some_iff.1 hj).1]
    exact hj
  refine ⟨fun k hk l hl d => opens_update ?_ hkem (h.opens k hk l hl d),
    fun j hj => ?_⟩
  · rw [hmix]
    rfl
  · rcases List.mem_append.1 hj with hj | hj
    · obtain ⟨leg', hleg', hseen⟩ := h.crossed j hj
      have hvalid' := h.valid leg' (List.mem_of_getElem? hleg')
      exact ⟨leg', hold hleg', (seen_accepted hb hvalid.index_lt
        hvalid.mem hrem hmix hvalid'.index_lt
        hvalid'.mem).2 (.inl hseen)⟩
    · rw [List.mem_singleton.1 hj]
      exact ⟨leg, hold hleg, (seen_accepted hb hvalid.index_lt
        hvalid.mem hrem hmix hvalid.index_lt
        hvalid.mem).2 (.inr ⟨rfl, rfl⟩)⟩

/-- The last leg: the body comes out. -/
theorem Sound.takeLast (hb : S.Built P) (h : Sound P S J net ks legs)
    {i k : Nat} {l : Layer} {s : MessageState} {out : List Outcome}
    (hleg : legs[i]? = some ⟨k, l, []⟩) (hfresh : ¬Seen P net.nodes l)
    (hrem : S.Remembers P (net.nodes l.nodeId).mixNode l.nodeId)
    (hmix : s.mixNode
      = (net.nodes l.nodeId).mixNode.insertSeenTag (l.keys P).tag)
    (hkem : s.kemSecret = (net.nodes l.nodeId).kemSecret)
    (hJ : k ∉ ks → J (ks ++ [k]) s.pendingRequests
      (net.handed S.last ++ out)) :
    Sound P S J
      { nodes := Function.update net.nodes l.nodeId s
        sent := net.sent
        delivered := net.delivered ++ [i]
        handed := Function.update net.handed l.nodeId
          (net.handed l.nodeId ++ out) } (ks ++ [k]) legs := by
  have hvalid := h.valid _ (List.mem_of_getElem? hleg)
  have hk : k < S.bodies.length := hvalid.index_lt
  have hl : l ∈ S.layers P k := hvalid.mem
  have hlast : (S.layers P k).getLast? = some l :=
    getLast?_of_suffix hvalid.suffix
  have hid := hb.last_id hk hlast
  have hnot : k ∉ ks := fun hmem => hfresh (((h.arrived k).1 hmem).2 l hlast)
  obtain ⟨hopens, hcrossed⟩ := h.taken hb hleg hrem hmix hkem []
  rw [List.append_nil] at hcrossed
  refine ⟨hopens, h.sent, h.valid, hcrossed, ?_, ?_, ?_, ?_⟩
  · rw [← List.concat_eq_append]
    exact h.once.concat hnot
  · intro k'
    rw [List.mem_append, List.mem_singleton, h.arrived]
    constructor
    · rintro (⟨hk', hall⟩ | rfl)
      · refine ⟨hk', fun l' hl' => ?_⟩
        exact (seen_accepted hb hk hl hrem hmix hk'
          (List.mem_of_getLast? hl')).2 (.inl (hall l' hl'))
      · refine ⟨hk, fun l' hl' => ?_⟩
        rw [hlast] at hl'
        obtain rfl := Option.some.inj hl'
        exact (seen_accepted hb hk hl hrem hmix hk hl).2 (.inr ⟨rfl, rfl⟩)
    · rintro ⟨hk', hall⟩
      obtain ⟨l', hl', hmem⟩ := hb.last_mem hk'
      rcases (seen_accepted hb hk hl hrem hmix hk' hmem).1 (hall l' hl')
        with hseen | ⟨rfl, -⟩
      · refine .inl ⟨hk', fun l'' hl'' => ?_⟩
        rw [hl'] at hl''
        rwa [← Option.some.inj hl'']
      · exact .inr rfl
  · show J (ks ++ [k])
      (Function.update net.nodes l.nodeId s S.last).pendingRequests
      (Function.update net.handed l.nodeId (net.handed l.nodeId ++ out)
        S.last)
    rw [hid, Function.update_self, Function.update_self]
    exact hJ hnot
  · intro id hne
    show Function.update net.handed l.nodeId (net.handed l.nodeId ++ out) id
      = []
    rw [Function.update_of_ne (by rwa [hid])]
    exact h.elsewhere id hne

/-- Any other leg: what is sent on is the next one. -/
theorem Sound.takeNext (hb : S.Built P) (h : Sound P S J net ks legs)
    {i k : Nat} {l next : Layer} {rest : List Layer} {s : MessageState}
    {new : List Leg} {letters : List Letter}
    (hleg : legs[i]? = some ⟨k, l, next :: rest⟩)
    (hrem : S.Remembers P (net.nodes l.nodeId).mixNode l.nodeId)
    (hmix : s.mixNode
      = (net.nodes l.nodeId).mixNode.insertSeenTag (l.keys P).tag)
    (hkem : s.kemSecret = (net.nodes l.nodeId).kemSecret)
    (hrequests : s.pendingRequests = (net.nodes l.nodeId).pendingRequests)
    (hsent : List.Forall₂ (S.At P) new letters)
    (hnew : ∀ leg ∈ new, leg = ⟨k, next, rest⟩) :
    Sound P S J
      { nodes := Function.update net.nodes l.nodeId s
        sent := net.sent ++ letters
        delivered := net.delivered ++ [i]
        handed := net.handed } ks (legs ++ new) := by
  have hvalid := h.valid _ (List.mem_of_getElem? hleg)
  have hk : k < S.bodies.length := hvalid.index_lt
  have hl : l ∈ S.layers P k := hvalid.mem
  have hsuf : l :: next :: rest <:+ S.layers P k := hvalid.suffix
  obtain ⟨hopens, hcrossed⟩ := h.taken hb hleg hrem hmix hkem new
  refine ⟨hopens, List.rel_append h.sent hsent, ?_, hcrossed, h.once, ?_,
    ?_, h.elsewhere⟩
  · intro leg hmem
    rcases List.mem_append.1 hmem with hmem | hmem
    · exact h.valid leg hmem
    · rw [hnew leg hmem]
      exact ⟨hk, (List.suffix_cons _ _).trans hsuf⟩
  · intro k'
    rw [h.arrived]
    refine and_congr_right fun hk' => forall_congr' fun l' =>
      imp_congr_right fun hlast => ?_
    rw [seen_accepted hb hk hl hrem hmix hk' (List.mem_of_getLast? hlast)]
    refine ⟨.inl, fun hor => hor.resolve_right ?_⟩
    rintro ⟨rfl, rfl⟩
    cases hb.rest_nil hk' hsuf hlast
  · show J ks (Function.update net.nodes l.nodeId s S.last).pendingRequests
      (net.handed S.last)
    by_cases hid : S.last = l.nodeId
    · rw [hid, Function.update_self, hrequests, ← hid]
      exact h.collected
    · rw [Function.update_of_ne hid]
      exact h.collected

/-- A connection's traffic is no trace of the shipment. -/
theorem unrelated_note (id sender : NodeId) (now : Nat) :
    S.Unrelated P id (net.nodes id)
      ((net.nodes id).noteActivity sender now) :=
  ⟨rfl, rfl, fun _ _ _ => Iff.rfl⟩

/-- More letters, and a layer more that was crossed. -/
theorem Kept.extend {nodes' : NodeId → MessageState} {legs' : List Leg}
    (h : Kept P S net.nodes legs) (hsub : legs ⊆ legs')
    (hseen : ∀ k < S.bodies.length, ∀ l next rest,
      l :: next :: rest <:+ S.layers P k → Seen P nodes' l →
        Seen P net.nodes l ∨ ⟨k, next, rest⟩ ∈ legs') :
    Kept P S nodes' legs' where
  started k hk l rest hlayers := hsub (h.started k hk l rest hlayers)
  passed k hk l next rest hsuf hl := by
    rcases hseen k hk l next rest hsuf hl with hl | hmem
    · exact hsub (h.passed k hk l next rest hsuf hl)
    · exact hmem

/-- The letter at an index, and the packet in it. -/
theorem Sound.leg (h : Sound P S J net ks legs) {i : Nat} {letter : Letter}
    (hget : net.sent[i]? = some letter) :
    ∃ leg packet, legs[i]? = some leg ∧ S.HasLeg P leg
      ∧ letter.receiver = leg.layer.nodeId ∧ letter.msg = .sphinx packet
      ∧ InFlight P SPHINX_VERSION_HYBRID (S.draws leg.index).sessionId
        S.route.destination (onion P (S.inner P leg.index))
        (S.inner P leg.index) KEM_BLOCK_SIZE (leg.layer :: leg.rest)
        packet := by
  obtain ⟨hi, hletter⟩ := List.getElem?_eq_some_iff.1 hget
  have hilegs : i < legs.length := h.sent.length_eq ▸ hi
  have hleg := List.getElem?_eq_getElem hilegs
  have hat := h.sent.get hilegs hi
  rw [List.get_eq_getElem, List.get_eq_getElem, hletter] at hat
  obtain ⟨hto, packet, hmsg, hfly⟩ := hat
  exact ⟨_, packet, hleg, h.valid _ (List.getElem_mem hilegs), hto, hmsg,
    hfly⟩

/-- The node after it has noted who sent to it. -/
abbrev noted (net : MixNet) (l : Layer) (letter : Letter) (r : Reading) :
    MessageState :=
  (net.nodes l.nodeId).noteActivity letter.sender r.activityAt

theorem handleMessage_sphinx {letter : Letter} {l : Layer} {r : Reading}
    {packet : SphinxPacket} (hto : letter.receiver = l.nodeId)
    (hmsg : letter.msg = .sphinx packet) :
    handleMessage P (net.nodes letter.receiver) letter.sender r letter.msg
      = handleSphinx P (noted net l letter r) letter.sender r packet := by
  rw [hto, hmsg]
  rfl

section Letter

variable {i k : Nat} {r : Reading} {letter : Letter} {l : Layer}
  {packet : SphinxPacket}

/-- Delivered before, it is a replay. -/
theorem Sound.deliverAgain (hb : S.Built P) (h : Sound P S J net ks legs)
    {rest : List Layer} (hget : net.sent[i]? = some letter)
    (hleg : legs[i]? = some ⟨k, l, rest⟩)
    (hto : letter.receiver = l.nodeId) (hmsg : letter.msg = .sphinx packet)
    (hfly : InFlight P SPHINX_VERSION_HYBRID (S.draws k).sessionId
      S.route.destination (onion P (S.inner P k)) (S.inner P k)
      KEM_BLOCK_SIZE (l :: rest) packet)
    (hseen : Seen P net.nodes l) :
    Sound P S J (net.deliver P i r) ks legs
      ∧ (Kept P S net.nodes legs →
        Kept P S (net.deliver P i r).nodes legs) := by
  have hvalid := h.valid _ (List.mem_of_getElem? hleg)
  have hk : k < S.bodies.length := hvalid.index_lt
  have hl : l ∈ S.layers P k := hvalid.mem
  have hnoted : S.Unrelated P l.nodeId (net.nodes l.nodeId)
      ((net.nodes l.nodeId).noteActivity letter.sender r.activityAt) :=
    unrelated_note _ _ _
  have hnet := MixNet.deliver_eq hget ((handleMessage_sphinx hto hmsg).trans
    (handleSphinx_seen (hb.inner_length k hk) letter.sender r
      (h.opens k hk l hl r.draws) hfly hseen))
  simp only [Except.toOption, Option.getD_none, List.filterMap_nil,
    List.filter_nil, List.append_nil, Function.update_eq_self, hto] at hnet
  rw [hnet]
  refine ⟨(h.unrelated hnoted fun hid => ?_).again hleg
    ((seen_unrelated hnoted hk hl).2 hseen), fun hkept => ?_⟩
  · rw [hid]
    exact h.collected
  · refine hkept.extend (List.Subset.refl _) ?_
    intro k' hk' l' next rest' hsuf' hseen'
    exact .inl ((seen_unrelated hnoted hk'
      (hsuf'.subset List.mem_cons_self)).1 hseen')

/-- The last layer comes off. -/
theorem Sound.deliverLast (hb : S.Built P) (hJ : Collects S J timely quiet)
    (h : Sound P S J net ks legs) (htime : timely r)
    (hget : net.sent[i]? = some letter)
    (hleg : legs[i]? = some ⟨k, l, []⟩)
    (hto : letter.receiver = l.nodeId) (hmsg : letter.msg = .sphinx packet)
    (hfly : InFlight P SPHINX_VERSION_HYBRID (S.draws k).sessionId
      S.route.destination (onion P (S.inner P k)) (S.inner P k)
      KEM_BLOCK_SIZE [l] packet)
    (hrem : S.Remembers P (net.nodes l.nodeId).mixNode l.nodeId)
    (hfresh : ¬Seen P net.nodes l) :
    Sound P S J (net.deliver P i r) (ks ++ [k]) legs
      ∧ (Kept P S net.nodes legs →
        Kept P S (net.deliver P i r).nodes legs) := by
  have hvalid := h.valid _ (List.mem_of_getElem? hleg)
  have hk : k < S.bodies.length := hvalid.index_lt
  have hl : l ∈ S.layers P k := hvalid.mem
  have hlast : (S.layers P k).getLast? = some l :=
    getLast?_of_suffix hvalid.suffix
  have hid := hb.last_id hk hlast
  have hnet := MixNet.deliver_eq hget ((handleMessage_sphinx hto hmsg).trans
    (handleSphinx_last (hb.inner_length k hk) letter.sender r
      (h.opens k hk l hl r.draws) hfly hfresh (hb.opens_inner k hk l hlast)))
  obtain ⟨hletters, hstays⟩ := handleBody_stays
    ((noted net l letter r).accepted P l) letter.sender l.nodeId (S.body k)
    r.requestAt
  obtain ⟨requests, hstate⟩ := handleBody_state
    ((noted net l letter r).accepted P l) letter.sender (S.body k)
    r.requestAt
  have hmix : (handleBody ((noted net l letter r).accepted P l)
      letter.sender (S.body k) r.requestAt).2.mixNode
        = (net.nodes l.nodeId).mixNode.insertSeenTag (l.keys P).tag := by
    rw [hstate]
    rfl
  simp only [Except.toOption, Option.getD_some, hto] at hnet
  rw [hletters, hstays, List.append_nil] at hnet
  rw [hnet]
  refine ⟨h.takeLast hb hleg hfresh hrem hmix ?_ ?_, fun hkept => ?_⟩
  · rw [hstate]
    rfl
  · intro hnot
    refine hJ.body ks k _ _ _ r ?_ hnot hk htime
    have hcollected := h.collected
    rw [← hid] at hcollected ⊢
    exact hcollected
  · refine hkept.extend (List.Subset.refl _) ?_
    intro k' hk' l' next rest' hsuf' hseen'
    rcases (seen_accepted hb hk hl hrem hmix hk'
      (hsuf'.subset List.mem_cons_self)).1 hseen' with hold | ⟨rfl, rfl⟩
    · exact .inl hold
    · cases hb.rest_nil hk' hsuf' hlast

/-- The packet goes on to the next hop, if there is a connection. -/
theorem Sound.deliverNext (hb : S.Built P) (h : Sound P S J net ks legs)
    {next : Layer} {rest : List Layer}
    (hget : net.sent[i]? = some letter)
    (hleg : legs[i]? = some ⟨k, l, next :: rest⟩)
    (hto : letter.receiver = l.nodeId) (hmsg : letter.msg = .sphinx packet)
    (hfly : InFlight P SPHINX_VERSION_HYBRID (S.draws k).sessionId
      S.route.destination (onion P (S.inner P k)) (S.inner P k)
      KEM_BLOCK_SIZE (l :: next :: rest) packet)
    (hrem : S.Remembers P (net.nodes l.nodeId).mixNode l.nodeId)
    (hfresh : ¬Seen P net.nodes l) :
    ∃ legs', Sound P S J (net.deliver P i r) ks legs'
      ∧ (S.Linked net.nodes → Kept P S net.nodes legs →
        Kept P S (net.deliver P i r).nodes legs') := by
  have hvalid := h.valid _ (List.mem_of_getElem? hleg)
  have hk : k < S.bodies.length := hvalid.index_lt
  have hl : l ∈ S.layers P k := hvalid.mem
  have hsuf : l :: next :: rest <:+ S.layers P k := hvalid.suffix
  obtain ⟨fwd, hfwd, hout⟩ := handleSphinx_forward
    (s := noted net l letter r) (hb.inner_length k hk) letter.sender r
    (h.opens k hk l hl r.draws) hfly ((hb.chained k hk).suffix hsuf) hfresh
  have hnet := MixNet.deliver_eq hget
    ((handleMessage_sphinx hto hmsg).trans hout)
  simp only [Except.toOption, Option.getD_some, hto] at hnet
  have hmix : ((noted net l letter r).accepted P l).mixNode
      = (net.nodes l.nodeId).mixNode.insertSeenTag (l.keys P).tag := rfl
  by_cases hconn : next.nodeId ∈ (net.nodes l.nodeId).connections
  · have hforward : ((noted net l letter r).accepted P l).forward
        next.nodeId (.sphinx fwd) = [.send next.nodeId (.sphinx fwd)] :=
      if_pos hconn
    rw [hforward] at hnet
    simp only [List.filterMap_cons, Outcome.letter, List.filterMap_nil,
      List.filter_cons, Outcome.stays, Bool.false_eq_true, if_false,
      List.filter_nil, List.append_nil, Function.update_eq_self] at hnet
    rw [hnet]
    refine ⟨legs ++ [⟨k, next, rest⟩], h.takeNext hb hleg hrem hmix rfl rfl
      (.cons ⟨rfl, fwd, rfl, hfwd⟩ .nil)
      (fun leg hmem => List.mem_singleton.1 hmem), fun _ hkept => ?_⟩
    refine hkept.extend (List.subset_append_left _ _) ?_
    intro k' hk' l' next' rest' hsuf' hseen'
    rcases (seen_accepted hb hk hl hrem hmix hk'
      (hsuf'.subset List.mem_cons_self)).1 hseen' with hold | ⟨rfl, rfl⟩
    · exact .inl hold
    · obtain ⟨rfl, rfl⟩ := List.cons.inj (hb.suffix_eq hk' hsuf' hsuf)
      exact .inr (List.mem_append_right _ (List.mem_singleton.2 rfl))
  · have hforward : ((noted net l letter r).accepted P l).forward
        next.nodeId (.sphinx fwd) = [] := if_neg hconn
    rw [hforward] at hnet
    simp only [List.filterMap_nil, List.filter_nil, List.append_nil,
      Function.update_eq_self] at hnet
    rw [hnet]
    refine ⟨legs, ?_, fun hlinked _ => absurd (hlinked _ _ ?_) hconn⟩
    · have htaken := h.takeNext hb hleg hrem hmix rfl rfl
        (.nil : List.Forall₂ (S.At P) [] []) nofun
      rwa [List.append_nil, List.append_nil] at htaken
    · rw [← hb.ids k hk]
      have hpair : [l, next] <:+: S.layers P k := by
        obtain ⟨passed, hsplit⟩ := hsuf
        exact ⟨passed, rest, by rw [← hsplit, List.append_assoc]; rfl⟩
      exact hpair.map Layer.nodeId

end Letter

/-- A delivery keeps the invariant; on a linked route nothing gets
lost. -/
theorem Sound.deliver (hb : S.Built P) (hJ : Collects S J timely quiet)
    (h : Sound P S J net ks legs) {i : Nat} {r : Reading}
    (hallowed : S.Allowed P timely quiet net (.deliver i r)) :
    ∃ ks' legs', Sound P S J (net.deliver P i r) ks' legs'
      ∧ (S.Linked net.nodes → Kept P S net.nodes legs →
        Kept P S (net.deliver P i r).nodes legs') := by
  obtain ⟨htime, hrem⟩ := hallowed
  cases hget : net.sent[i]? with
  | none =>
      have hsame : net.deliver P i r = net := by
        unfold MixNet.deliver
        simp only [hget]
      rw [hsame]
      exact ⟨ks, legs, h, fun _ hkept => hkept⟩
  | some letter =>
      have hrem := hrem letter hget
      obtain ⟨⟨k, l, rest⟩, packet, hleg, -, hto, hmsg, hfly⟩ := h.leg hget
      simp only at hto hfly
      rw [hto] at hrem
      by_cases hseen : Seen P net.nodes l
      · obtain ⟨hsound, hkept⟩ := h.deliverAgain (r := r) hb hget hleg hto
          hmsg hfly hseen
        exact ⟨ks, legs, hsound, fun _ => hkept⟩
      · cases rest with
        | nil =>
            obtain ⟨hsound, hkept⟩ := h.deliverLast hb hJ htime hget hleg
              hto hmsg hfly hrem hseen
            exact ⟨_, legs, hsound, fun _ => hkept⟩
        | cons next rest =>
            obtain ⟨legs', hnext⟩ := h.deliverNext (r := r) hb hget hleg
              hto hmsg hfly hrem hseen
            exact ⟨ks, legs', hnext⟩

end Shipment

end Steps

end StaticNet
