/-
The first packet of a shared reply block to move, and what becomes of
the others.

`Shared` is the run invariant of the return route (SharedNet.lean,
# The invariant). One lemma for each kind of move keeps it: an answer is
sent (`Shared.send`), a first packet moves (`Shared.moveFirst`), a
session reply moves (`Shared.moveReply`), a node does other work
(`Shared.moveOther`).
-/
import StaticNet.Retrieval.SharedNet
import StaticNet.Sphinx.Rejected

namespace StaticNet

-- ======= the packets

/-- A first piece whose packet every hop takes for what it is. -/
structure Sendable (P : Prims) (d : PacketDraws) (layers : List Layer)
    (destination : NodeId) (head : Fragment) : Prop where
  mac : MacSeparates P d destination
    (innerBody P layers destination (serializeFragment head)) layers
  body : NoPlaceholder P
    (innerBody P layers destination (serializeFragment head)) layers

/-- A return route that fits a packet. -/
structure Returns (P : Prims) (d : PacketDraws) (layers : List Layer) :
    Prop where
  aead : P.AeadCorrect
  pos : 0 < layers.length
  at_most : layers.length ≤ MAX_HOPS
  chained : Chained P layers
  distinct : (layers.map Layer.nodeId).Nodup
  kem_length : (kemBlock d layers).length = KEM_BLOCK_SIZE

section Packets

variable {P : Prims} {d : PacketDraws} {layers : List Layer}
  {destination : NodeId} {draws : Nat → Bytes 32} {head : Fragment}
  {rest : List Fragment}

theorem Returns.built (hc : Returns P d layers)
    (hs : Sendable P d layers destination head)
    (hn : Set.InjOn draws (Set.Iio rest.length)) :
    (builtAnswer P d layers destination draws head rest).Built P :=
  built_answer hc.aead hc.chained hc.distinct hn hs.mac hs.body

/-- A packet just sent is at the first hop, with every layer to cross. -/
theorem Returns.sent (hc : Returns P d layers) (destination : NodeId)
    (head : Fragment) :
    ∃ l tail packet, layers = l :: tail
      ∧ sentFirst P d layers destination head = ⟨[], .at l.nodeId packet⟩
      ∧ InFlight P SPHINX_VERSION_HYBRID d.sessionId destination
        (fun _ => placeholder)
        (innerBody P layers destination (serializeFragment head))
        KEM_BLOCK_SIZE (l :: tail) packet := by
  have hfly := InFlight.built (P := P) SPHINX_VERSION_HYBRID d destination
    (fun _ => placeholder)
    (innerBody P layers destination (serializeFragment head)) hc.at_most
    (rfl : kemBlock d layers = _)
  rw [hc.kem_length] at hfly
  obtain ⟨l, tail, rfl⟩ := List.exists_cons_of_length_pos hc.pos
  exact ⟨l, tail, _, rfl, rfl, hfly⟩

/-- A node that remembers the tag of a packet's layer drops it, and is
left as it was. -/
theorem InFlight.replayed {inner : List UInt8} {l : Layer}
    {tail : List Layer} {packet : SphinxPacket} {node : MixNode}
    {secret : List UInt8} {draw : MixDraws}
    (hfly : InFlight P SPHINX_VERSION_HYBRID d.sessionId destination
      (fun _ => placeholder) inner KEM_BLOCK_SIZE (l :: tail) packet)
    (hinner : inner.length = WIRE_BODY_SIZE)
    (hopens : OpensHybrid P ⟨node, secret, draw⟩ l)
    (hmac : matchMac P (l.keys P) packet = .ok true)
    (hseen : (l.keys P).tag ∈ node.seenTags) :
    processPacketHybridWithKeys P node secret packet draw
      = (.error .replayDetected, node) := by
  obtain ⟨kemRest, heq, -, -⟩ := processHybrid_eq_peel hinner
    ⟨node, secret, draw⟩ l tail packet hopens hfly
  rw [Stop.processHybrid] at heq
  rw [heq]
  rcases peel_cases P node l.shared packet kemRest draw with
    ⟨hbad, -⟩ | ⟨surb, -, ⟨-, hpeel⟩ | ⟨hnew, -⟩⟩
  · exact absurd (hmac.symm.trans hbad) (by simp)
  · exact hpeel
  · exact absurd hseen hnew

/-- A node that has taken a packet remembers the tag of its layer. -/
theorem InFlight.remembered {inner : List UInt8} {l : Layer}
    {tail : List Layer} {packet : SphinxPacket} {node : MixNode}
    {secret : List UInt8} {draw : MixDraws}
    (hfly : InFlight P SPHINX_VERSION_HYBRID d.sessionId destination
      (fun _ => placeholder) inner KEM_BLOCK_SIZE (l :: tail) packet)
    (hinner : inner.length = WIRE_BODY_SIZE)
    (hopens : OpensHybrid P ⟨node, secret, draw⟩ l)
    (hmac : matchMac P (l.keys P) packet = .ok true) :
    (l.keys P).tag ∈ (processPacketHybridWithKeys P node secret packet
      draw).2.seenTags := by
  obtain ⟨kemRest, heq, -, -⟩ := processHybrid_eq_peel hinner
    ⟨node, secret, draw⟩ l tail packet hopens hfly
  rw [Stop.processHybrid] at heq
  rw [heq]
  have hver : (MixCall.Opened.mk l.shared packet kemRest draw).verifies P
      = true := by
    have hmac' : matchMac P (deriveHopKeys P l.shared) packet = .ok true :=
      hmac
    simp only [MixCall.Opened.verifies, MixCall.Opened.keys, hmac']
    rfl
  by_cases hseen : (l.keys P).tag ∈ node.seenTags
  · rw [← heq, hfly.replayed hinner hopens hmac hseen]
    exact hseen
  · have hmem := MixCall.tag_mem_peel hver hseen
    exact hmem

end Packets

-- ===== the invariant

section Shared

variable (P : Prims) (d : PacketDraws) (layers : List Layer)
  (destination : NodeId) (kem : NodeId → List UInt8)
  (draws : Nat → Bytes 32)

/-- No first packet has moved. -/
structure AtStart (net : SharedNet) (heads rest : List Fragment) :
    Prop where
  opens : ∀ l ∈ layers, ∀ draw,
    OpensHybrid P ⟨net.nodes l.nodeId, kem l.nodeId, draw⟩ l
  fresh : ∀ l ∈ layers, (l.keys P).tag ∉ (net.nodes l.nodeId).seenTags
  firsts : net.firsts = heads.map (sentFirst P d layers destination)
  replies : net.replies = sentReplies P d layers destination draws rest

/-- The first packet with this number has moved, and no other gets past
the first hop. -/
structure Led (net : SharedNet) (heads rest : List Fragment) (k : Nat)
    (head : Fragment) (t : Transit SphinxPacket (List UInt8)) : Prop where
  begins : heads[k]? = some head
  leader : net.firsts[k]? = some t
  sound : (builtAnswer P d layers destination draws head rest).Sound P kem
    ⟨net.nodes, t, net.replies⟩
  moved : t.path ≠ []
  seen : ∀ l tail, layers = l :: tail →
    (l.keys P).tag ∈ (net.nodes l.nodeId).seenTags
  others : ∀ j u, j ≠ k → net.firsts[j]? = some u →
    (∃ h, heads[j]? = some h ∧ u = sentFirst P d layers destination h)
      ∨ ∃ l tail, layers = l :: tail ∧ u = ⟨[l.nodeId], .lost⟩

/-- The answers sent so far: their first pieces, and the others in the
order of their replies. -/
structure Shared (net : SharedNet) (heads rest : List Fragment) :
    Prop where
  sendable : ∀ h ∈ heads, Sendable P d layers destination h
  distinct : Set.InjOn draws (Set.Iio rest.length)
  headed : heads = [] → rest = []
  length_eq : net.firsts.length = heads.length
  phase : AtStart P d layers destination kem draws net heads rest
    ∨ ∃ k head t, Led P d layers destination kem draws net heads rest k
      head t

end Shared

section Moves

variable {P : Prims} {d : PacketDraws} {layers : List Layer}
  {destination : NodeId} {kem : NodeId → List UInt8}
  {draws : Nat → Bytes 32} {net : SharedNet} {heads rest : List Fragment}

/-- A reply just sent is at the first hop. -/
theorem sentReplies_at {head : Fragment} {k : Nat}
    {t : Transit SessionReply SessionReply} {nonce : Bytes 32}
    {sealed : List UInt8} (hpos : 0 < layers.length)
    (ht : (sentReplies P d layers destination draws rest)[k]? = some t)
    (hnonce : (builtAnswer P d layers destination draws head
      rest).nonces[k]? = some nonce)
    (hbody : (builtAnswer P d layers destination draws head
      rest).bodies[k]? = some sealed) :
    t.path = [] ∧ (builtAnswer P d layers destination draws head
      rest).ReplyAt P nonce sealed layers t.place := by
  obtain ⟨l, tail, rfl⟩ := List.exists_cons_of_length_pos hpos
  simp only [sentReplies, buildSessionReplies, List.getElem?_map,
    List.getElem?_mapIdx] at ht
  simp only [builtAnswer, sealedBodies, List.getElem?_mapIdx]
    at hnonce hbody
  obtain ⟨f, hf, rfl⟩ := Option.map_eq_some_iff.1 hnonce
  rw [hf] at ht hbody
  rw [← Option.some.inj ht, ← Option.some.inj hbody]
  refine ⟨rfl, ?_⟩
  simp only [Answer.ReplyAt, sessionReply, hybridSurb, wrapBody_layers]
  rfl

/-- The first packet of an answer before anything has moved. -/
theorem AtStart.sound (hc : Returns P d layers)
    (h : AtStart P d layers destination kem draws net heads rest)
    (head : Fragment) :
    (builtAnswer P d layers destination draws head rest).Sound P kem
      ⟨net.nodes, sentFirst P d layers destination head, net.replies⟩ := by
  rw [h.replies]
  exact sound_start hc.pos h.opens h.fresh hc.at_most hc.kem_length

/-- Replies of another answer keep what is known of the others. -/
theorem sound_more (hc : Returns P d layers) {head : Fragment}
    {nodes : NodeId → MixNode} {t : Transit SphinxPacket (List UInt8)}
    {replies : List (Transit SessionReply SessionReply)}
    (h : (builtAnswer P d layers destination draws head rest).Sound P kem
      ⟨nodes, t, replies⟩) (more : List Fragment) :
    (builtAnswer P d layers destination draws head (rest ++ more)).Sound P
      kem ⟨nodes, t, replies ++ sentReplies P d layers destination
        (fun i => draws (rest.length + i)) more⟩ := by
  have hlen : replies.length = rest.length := by
    have hlen := h.length_eq
    simpa [builtAnswer] using hlen
  have hnonces : (builtAnswer P d layers destination draws head
      (rest ++ more)).nonces
      = (builtAnswer P d layers destination draws head rest).nonces
        ++ more.mapIdx fun i _ => draws (i + rest.length) := by
    simp only [builtAnswer, List.mapIdx_append]
  have hnlen : (builtAnswer P d layers destination draws head
      rest).nonces.length = rest.length := by
    simp only [builtAnswer, List.length_mapIdx]
  have hblen : (builtAnswer P d layers destination draws head
      rest).bodies.length = rest.length := by
    simp only [builtAnswer, sealedBodies, List.length_mapIdx]
  have hbodies : ∃ tail, (builtAnswer P d layers destination draws head
      (rest ++ more)).bodies
      = (builtAnswer P d layers destination draws head rest).bodies
        ++ tail := by
    simp only [builtAnswer, sealedBodies, List.mapIdx_append]
    exact ⟨_, rfl⟩
  refine ⟨h.opens, h.first, h.fresh, ?_, ?_, ?_⟩
  · intro passed l rest' hsplit hin
    obtain ⟨s, hs, hat⟩ := h.sessions passed l rest' hsplit hin
    refine ⟨s, hs, hat.body_key, hat.next_hop, hat.is_final, ?_⟩
    intro nonce hnonce
    obtain ⟨k, u, hu, hpath, hk⟩ := hat.nonces nonce hnonce
    refine ⟨k, u, ?_, hpath, ?_⟩
    · exact (List.getElem?_append_left
        (List.getElem?_eq_some_iff.1 hu).1).trans hu
    · rw [hnonces]
      exact (List.getElem?_append_left
        (List.getElem?_eq_some_iff.1 hk).1).trans hk
  · simp only [builtAnswer, List.length_append, List.length_mapIdx,
      length_sentReplies, hlen]
  · intro k u nonce sealed hu hnonce hbody
    by_cases hk : k < rest.length
    · have hu : replies[k]? = some u :=
        (List.getElem?_append_left (by rw [hlen]; exact hk)).symm.trans hu
      rw [hnonces, List.getElem?_append_left (by rw [hnlen]; exact hk)]
        at hnonce
      obtain ⟨tail, htail⟩ := hbodies
      rw [htail, List.getElem?_append_left (by rw [hblen]; exact hk)]
        at hbody
      exact h.replies k u nonce sealed hu hnonce hbody
    · have hu : (sentReplies P d layers destination draws
          (rest ++ more))[k]? = some u := by
        rw [sentReplies_append, ← hu,
          List.getElem?_append_right (by
            rw [length_sentReplies]
            exact Nat.le_of_not_lt hk),
          List.getElem?_append_right (by
            rw [hlen]
            exact Nat.le_of_not_lt hk), length_sentReplies, hlen]
      obtain ⟨hpath, hat⟩ := sentReplies_at hc.pos hu hnonce hbody
      exact ⟨[], layers, rfl, hpath, hat⟩

theorem Shared.length_replies
    (h : Shared P d layers destination kem draws net heads rest) :
    net.replies.length = rest.length := by
  rcases h.phase with hs | ⟨k, head, t, hl⟩
  · rw [hs.replies, length_sentReplies]
  · have hlen := hl.sound.length_eq
    simpa [builtAnswer] using hlen

/-- A holder sends an answer. -/
theorem Shared.send (hc : Returns P d layers)
    (h : Shared P d layers destination kem draws net heads rest)
    {head : Fragment} {more : List Fragment}
    (hs : Sendable P d layers destination head)
    (hn : Set.InjOn draws (Set.Iio (rest ++ more).length)) :
    Shared P d layers destination kem draws
      (net.send (replyPackets P d layers destination
        (fun i => draws (net.replies.length + i)) head more))
      (heads ++ [head]) (rest ++ more) := by
  have hlen := h.length_replies
  rw [hlen]
  refine ⟨?_, hn, ?_, ?_, ?_⟩
  · intro f hf
    rcases List.mem_append.1 hf with hf | hf
    · exact h.sendable f hf
    · rw [List.mem_singleton.1 hf]
      exact hs
  · intro hnil
    exact absurd hnil (List.append_ne_nil_of_right_ne_nil _
      (List.cons_ne_nil _ _))
  · show (net.firsts ++ [_]).length = _
    rw [List.length_append, List.length_append, h.length_eq]
    rfl
  · rcases h.phase with hstart | ⟨k, first, t, hled⟩
    · refine Or.inl ⟨hstart.opens, hstart.fresh, ?_, ?_⟩
      · show net.firsts ++ [_] = _
        rw [hstart.firsts, List.map_append]
        rfl
      · show net.replies ++ _ = _
        rw [hstart.replies, sentReplies_append]
        rfl
    · right
      refine ⟨k, first, t, ?_, ?_, sound_more hc hled.sound more,
        hled.moved, hled.seen, ?_⟩
      · exact (List.getElem?_append_left
          (List.getElem?_eq_some_iff.1 hled.begins).1).trans hled.begins
      · exact (List.getElem?_append_left
          (List.getElem?_eq_some_iff.1 hled.leader).1).trans hled.leader
      · intro j u hj hu
        have hu : (net.firsts ++ [sentFirst P d layers destination
          head])[j]? = some u := hu
        by_cases hlt : j < net.firsts.length
        · rw [List.getElem?_append_left hlt] at hu
          rcases hled.others j u hj hu with ⟨f, hf, rfl⟩ | hlost
          · left
            exact ⟨f, (List.getElem?_append_left
              (List.getElem?_eq_some_iff.1 hf).1).trans hf, rfl⟩
          · exact Or.inr hlost
        · rw [List.getElem?_append_right (Nat.le_of_not_lt hlt)] at hu
          obtain ⟨hlast, hget⟩ := List.getElem?_eq_some_iff.1 hu
          have hj : j = heads.length := by
            rw [List.length_singleton] at hlast
            rw [← h.length_eq]
            omega
          left
          refine ⟨head, ?_, ?_⟩
          · rw [hj, List.getElem?_append_right (Nat.le_refl _),
              Nat.sub_self]
            rfl
          · rw [← hget, List.getElem_singleton]

-- ============= moves

/-- A first packet moves as it would alone. -/
theorem SharedNet.moveFirst_eq (net : SharedNet) {k : Nat}
    {t : Transit SphinxPacket (List UInt8)} (ht : net.firsts[k]? = some t)
    (draw : MixDraws) :
    net.moveFirst P kem k draw
      = { net with
          nodes := (ReplyNet.moveFirst P kem ⟨net.nodes, t, net.replies⟩
            draw).nodes
          firsts := net.firsts.set k (ReplyNet.moveFirst P kem
            ⟨net.nodes, t, net.replies⟩ draw).first } := by
  obtain ⟨hlt, hget⟩ := List.getElem?_eq_some_iff.1 ht
  obtain ⟨path, place⟩ := t
  have hkeep : net.firsts.set k net.firsts[k] = net.firsts :=
    List.set_getElem_self hlt
  rw [hget] at hkeep
  cases place with
  | «at» id packet => simp only [moveFirst, ht, ReplyNet.moveFirst]
  | arrived out => simp only [moveFirst, ht, ReplyNet.moveFirst, hkeep]
  | lost => simp only [moveFirst, ht, ReplyNet.moveFirst, hkeep]

/-- So does a session reply. -/
theorem SharedNet.moveReply_eq (net : SharedNet) (k now : Nat)
    (t : Transit SphinxPacket (List UInt8)) :
    net.moveReply P k now
      = { net with
          nodes := (ReplyNet.moveReply P ⟨net.nodes, t, net.replies⟩ k
            now).nodes
          replies := (ReplyNet.moveReply P ⟨net.nodes, t, net.replies⟩ k
            now).replies } := by
  cases hk : net.replies[k]? with
  | none => simp only [moveReply, ReplyNet.moveReply, hk]
  | some u =>
      obtain ⟨path, place⟩ := u
      cases place with
      | «at» id reply => simp only [moveReply, ReplyNet.moveReply, hk]
      | arrived out => simp only [moveReply, ReplyNet.moveReply, hk]
      | lost => simp only [moveReply, ReplyNet.moveReply, hk]

theorem ReplyNet.moveReply_first (net : ReplyNet) (k now : Nat) :
    (net.moveReply P k now).first = net.first := by
  cases hk : net.replies[k]? with
  | none => simp only [moveReply, hk]
  | some u =>
      obtain ⟨path, place⟩ := u
      cases place with
      | «at» id reply => simp only [moveReply, hk]
      | arrived out => simp only [moveReply, hk]
      | lost => simp only [moveReply, hk]

/-- The packet that leads is past the first hop. -/
theorem Led.first_hop {k : Nat} {head : Fragment}
    {t : Transit SphinxPacket (List UInt8)}
    (h : Led P d layers destination kem draws net heads rest k head t)
    {l : Layer} {tail : List Layer} (hl : layers = l :: tail) :
    l.nodeId ∈ t.path := by
  obtain ⟨passed, ahead, hsplit, hpath, -⟩ := h.sound.first
  cases passed with
  | nil => exact absurd hpath h.moved
  | cons l' passed =>
      have hsplit : layers = l' :: passed ++ ahead := hsplit
      rw [hl] at hsplit
      obtain ⟨rfl, -⟩ := List.cons.inj hsplit
      rw [show t.path = _ from hpath, List.map_cons]
      exact List.mem_cons_self

/-- The packet that leads moves on. -/
theorem Led.moveLeader {k : Nat} {head : Fragment}
    {t : Transit SphinxPacket (List UInt8)} (hc : Returns P d layers)
    (hs : Sendable P d layers destination head)
    (hn : Set.InjOn draws (Set.Iio rest.length))
    (h : Led P d layers destination kem draws net heads rest k head t)
    (draw : MixDraws) :
    ∃ u, Led P d layers destination kem draws (net.moveFirst P kem k draw)
      heads rest k head u := by
  have hsound := h.sound.moveFirst (hc.built hs hn) draw
  rw [net.moveFirst_eq h.leader]
  obtain ⟨hlt, -⟩ := List.getElem?_eq_some_iff.1 h.leader
  refine ⟨_, h.begins, List.getElem?_set_self hlt, ?_, ?_, ?_, ?_⟩
  · obtain ⟨path, place⟩ := t
    cases place with
    | «at» id packet => exact hsound
    | arrived out => exact hsound
    | lost => exact hsound
  · obtain ⟨path, place⟩ := t
    cases place with
    | «at» id packet =>
        exact List.append_ne_nil_of_right_ne_nil _ (List.cons_ne_nil _ _)
    | arrived out => exact h.moved
    | lost => exact h.moved
  · -- the node it leaves is not the first hop
    intro l tail hl
    have hseen := h.seen l tail hl
    have hpast := h.first_hop hl
    obtain ⟨passed, ahead, hsplit, hpath, hat⟩ := h.sound.first
    obtain ⟨path, place⟩ := t
    cases place with
    | arrived out => exact hseen
    | lost => exact hseen
    | «at» id packet =>
        have hid : l.nodeId ≠ id := by
          rintro rfl
          cases ahead with
          | nil => cases hat
          | cons next ahead =>
              obtain ⟨packet', hplace, -⟩ := hat
              have hnext : l.nodeId = next.nodeId := by
                injection hplace
              have hnot := (hc.built hs hn).not_passed hsplit
              rw [← hnext, ← hpath] at hnot
              exact hnot hpast
        simp only [ReplyNet.moveFirst, Function.update_of_ne hid]
        exact hseen
  · intro j u hj hu
    simp only at hu
    rw [List.getElem?_set_ne (Ne.symm hj)] at hu
    exact h.others j u hj hu

/-- Another first packet is dropped at the first hop. -/
theorem Led.moveReplay {j k : Nat} {head : Fragment}
    {t : Transit SphinxPacket (List UInt8)} (hc : Returns P d layers)
    (hs : ∀ h ∈ heads, Sendable P d layers destination h)
    (hn : Set.InjOn draws (Set.Iio rest.length))
    (h : Led P d layers destination kem draws net heads rest k head t)
    (hj : j ≠ k) (draw : MixDraws) :
    Led P d layers destination kem draws (net.moveFirst P kem j draw)
      heads rest k head t := by
  cases hu : net.firsts[j]? with
  | none =>
      have hsame : net.moveFirst P kem j draw = net := by
        simp only [SharedNet.moveFirst, hu]
      rw [hsame]
      exact h
  | some u =>
      rcases h.others j u hj hu with ⟨f, hf, rfl⟩ | ⟨l, tail, hl, rfl⟩
      · have hsend := hs f (List.mem_of_getElem? hf)
        obtain ⟨l, tail, packet, rfl, hsent, hfly⟩ := hc.sent destination f
        have hb := hc.built hsend hn
        have hdrop := hfly.replayed hb.inner_length
          (h.sound.opens l List.mem_cons_self draw)
          (hb.matched l tail packet List.suffix_rfl hfly)
          (h.seen l tail rfl)
        have hmove : net.moveFirst P kem j draw
            = { net with firsts := net.firsts.set j ⟨[l.nodeId], .lost⟩ } := by
          rw [hsent] at hu
          simp only [SharedNet.moveFirst, hu, hdrop, placeOfPacket,
            Function.update_eq_self, List.nil_append]
        rw [hmove]
        obtain ⟨hlt, -⟩ := List.getElem?_eq_some_iff.1 hu
        refine ⟨h.begins, ?_, h.sound, h.moved, h.seen, ?_⟩
        · exact (List.getElem?_set_ne hj).trans h.leader
        · intro i v hi hv
          simp only at hv
          by_cases hij : j = i
          · subst hij
            rw [List.getElem?_set_self hlt] at hv
            exact Or.inr ⟨l, tail, rfl, (Option.some.inj hv).symm⟩
          · rw [List.getElem?_set_ne hij] at hv
            exact h.others i v hi hv
      · have hsame : net.moveFirst P kem j draw = net := by
          simp only [SharedNet.moveFirst, hu]
        rw [hsame]
        exact h

/-- The first packet to move takes the block's tag at the first hop. -/
theorem AtStart.lead {k : Nat} {head : Fragment} (hc : Returns P d layers)
    (hs : Sendable P d layers destination head)
    (hn : Set.InjOn draws (Set.Iio rest.length))
    (h : AtStart P d layers destination kem draws net heads rest)
    (hk : heads[k]? = some head) (draw : MixDraws) :
    ∃ u, Led P d layers destination kem draws (net.moveFirst P kem k draw)
      heads rest k head u := by
  have hb := hc.built hs hn
  have hsound := h.sound hc head
  have hfirst : net.firsts[k]? = some (sentFirst P d layers destination
      head) := by
    rw [h.firsts, List.getElem?_map, hk]
    rfl
  obtain ⟨l, tail, packet, rfl, hsent, hfly⟩ := hc.sent destination head
  have hnext := hsound.moveFirst hb draw
  rw [net.moveFirst_eq hfirst]
  obtain ⟨hlt, -⟩ := List.getElem?_eq_some_iff.1 hfirst
  rw [hsent] at hnext ⊢
  refine ⟨_, hk, List.getElem?_set_self hlt, hnext, ?_, ?_, ?_⟩
  · exact List.append_ne_nil_of_right_ne_nil _ (List.cons_ne_nil _ _)
  · intro l' tail' hl
    obtain ⟨rfl, -⟩ := List.cons.inj hl
    simp only [ReplyNet.moveFirst, Function.update_self]
    exact hfly.remembered hb.inner_length
      (h.opens l List.mem_cons_self draw)
      (hb.matched l tail packet List.suffix_rfl hfly)
  · intro j u hj hu
    simp only at hu
    rw [List.getElem?_set_ne (Ne.symm hj), h.firsts, List.getElem?_map]
      at hu
    obtain ⟨f, hf, rfl⟩ := Option.map_eq_some_iff.1 hu
    exact Or.inl ⟨f, hf, rfl⟩

theorem SharedNet.length_moveFirst (net : SharedNet) (k : Nat)
    (draw : MixDraws) :
    (net.moveFirst P kem k draw).firsts.length = net.firsts.length := by
  rcases net.moveFirst_cases P kem k draw with hsame | ⟨path, id, _, -, hmove⟩
  · rw [hsame]
  · rw [hmove]
    exact List.length_set

/-- A first packet moves. -/
theorem Shared.moveFirst (hc : Returns P d layers)
    (h : Shared P d layers destination kem draws net heads rest) (k : Nat)
    (draw : MixDraws) :
    Shared P d layers destination kem draws (net.moveFirst P kem k draw)
      heads rest := by
  refine ⟨h.sendable, h.distinct, h.headed, ?_, ?_⟩
  · rw [net.length_moveFirst]
    exact h.length_eq
  · rcases h.phase with hstart | ⟨j, head, t, hled⟩
    · cases hk : heads[k]? with
      | none =>
          have hnone : net.firsts[k]? = none := by
            rw [hstart.firsts, List.getElem?_map, hk]
            rfl
          have hsame : net.moveFirst P kem k draw = net := by
            simp only [SharedNet.moveFirst, hnone]
          rw [hsame]
          exact Or.inl hstart
      | some head =>
          obtain ⟨u, hu⟩ := hstart.lead hc
            (h.sendable head (List.mem_of_getElem? hk)) h.distinct hk draw
          exact Or.inr ⟨k, head, u, hu⟩
    · by_cases hkj : k = j
      · subst hkj
        obtain ⟨u, hu⟩ := hled.moveLeader hc
          (h.sendable head (List.mem_of_getElem? hled.begins)) h.distinct
          draw
        exact Or.inr ⟨k, head, u, hu⟩
      · exact Or.inr ⟨j, head, t,
          hled.moveReplay hc h.sendable h.distinct hkj draw⟩

/-- A session reply moves. -/
theorem Shared.moveReply (hc : Returns P d layers)
    (h : Shared P d layers destination kem draws net heads rest)
    {tags : List Mac} {chunks : NodeId → ChunkId → Option (List UInt8)}
    {k now : Nat}
    (hallowed : net.Allowed P chunks draws d.sessionId tags
      (.reply k now)) (hfollows : net.Follows (.reply k now)) :
    Shared P d layers destination kem draws (net.moveReply P k now) heads
      rest := by
  have hfirsts : (net.moveReply P k now).firsts = net.firsts := by
    rw [net.moveReply_eq k now ⟨[], .lost⟩]
  refine ⟨h.sendable, h.distinct, h.headed, by rw [hfirsts]; exact
    h.length_eq, ?_⟩
  rcases h.phase with hstart | ⟨j, head, t, hled⟩
  · -- no first packet has reached a node, so no reply may
    rcases net.moveReply_cases P k now with hsame | ⟨path, id, reply, hk, -⟩
    · rw [hsame]
      exact Or.inl hstart
    · obtain ⟨t, ht, hin⟩ := hfollows path id reply hk
      rw [hstart.firsts] at ht
      obtain ⟨f, -, rfl⟩ := List.mem_map.1 ht
      cases hin
  · right
    have hb := hc.built (h.sendable head (List.mem_of_getElem?
      hled.begins)) h.distinct
    have hmine : ReplyNet.Allowed d.sessionId tags
        ⟨net.nodes, t, net.replies⟩ (.reply k now) := by
      intro path id reply hk
      obtain ⟨u, hu, hin⟩ := hfollows path id reply hk
      refine ⟨?_, hallowed path id reply hk⟩
      obtain ⟨i, hi, hget⟩ := List.mem_iff_getElem.1 hu
      have hget : net.firsts[i]? = some u := by
        rw [List.getElem?_eq_getElem hi, hget]
      by_cases hij : i = j
      · rw [hij, hled.leader] at hget
        rw [Option.some.inj hget]
        exact hin
      · rcases hled.others i u hij hget with ⟨f, -, rfl⟩ | ⟨l, tail, hl, rfl⟩
        · cases hin
        · rw [List.mem_singleton.1 hin]
          exact hled.first_hop hl
    have hsound := hled.sound.moveReply hb hmine
    have htags : ∀ id, ((net.moveReply P k now).nodes id).seenTags
        = (net.nodes id).seenTags := by
      intro id
      rcases net.moveReply_cases P k now with hsame | ⟨_, at_, _, -, hmove⟩
      · rw [hsame]
      · rw [hmove]
        by_cases hid : id = at_
        · simp only [hid, Function.update_self]
          exact congrArg Fifo.seen (processSessionReply_tags P _ _ _).1
        · simp only [Function.update_of_ne hid]
    refine ⟨j, head, t, hled.begins, ?_, ?_, hled.moved, ?_, ?_⟩
    · rw [hfirsts]
      exact hled.leader
    · rw [net.moveReply_eq k now t]
      have hfirst := ReplyNet.moveReply_first (P := P)
        ⟨net.nodes, t, net.replies⟩ k now
      generalize ReplyNet.moveReply P ⟨net.nodes, t, net.replies⟩ k now
        = moved at hsound hfirst ⊢
      obtain ⟨nodes, first, replies⟩ := moved
      simp only at hfirst
      rw [hfirst] at hsound
      exact hsound
    · intro l tail hl
      rw [htags]
      exact hled.seen l tail hl
    · rw [hfirsts]
      exact hled.others

/-- A node does other work. -/
theorem Shared.moveOther
    (h : Shared P d layers destination kem draws net heads rest)
    {tags : List Mac} {chunks : NodeId → ChunkId → Option (List UInt8)}
    (htags : ∀ l ∈ layers, (l.keys P).tag ∈ tags) {id : NodeId}
    {node : MixNode}
    (hallowed : net.Allowed P chunks draws d.sessionId tags
      (.other id node)) :
    Shared P d layers destination kem draws
      { net with nodes := Function.update net.nodes id node } heads
      rest := by
  refine ⟨h.sendable, h.distinct, h.headed, h.length_eq, ?_⟩
  obtain ⟨hkey, hsess, htag⟩ := hallowed
  have hseen : ∀ l ∈ layers, ((l.keys P).tag
      ∈ (Function.update net.nodes id node l.nodeId).seenTags
        ↔ (l.keys P).tag ∈ (net.nodes l.nodeId).seenTags) := by
    intro l hl
    by_cases hid : l.nodeId = id
    · rw [hid, Function.update_self]
      exact htag _ (htags l hl)
    · rw [Function.update_of_ne hid]
  rcases h.phase with hstart | ⟨j, head, t, hled⟩
  · refine Or.inl ⟨?_, ?_, hstart.firsts, hstart.replies⟩
    · intro l hl draw
      by_cases hid : l.nodeId = id
      · have hopen := hstart.opens l hl draw
        rw [hid] at hopen ⊢
        simp only [Function.update_self]
        exact Answer.opens_congr hkey hopen
      · simp only [Function.update_of_ne hid]
        exact hstart.opens l hl draw
    · intro l hl hmem
      exact hstart.fresh l hl ((hseen l hl).1 hmem)
  · right
    have hmine : ReplyNet.Allowed d.sessionId tags
        ⟨net.nodes, t, net.replies⟩ (.other id node) :=
      ⟨hkey, hsess, fun tag hmem hin => (htag tag hmem).1 hin⟩
    refine ⟨j, head, t, hled.begins, hled.leader,
      hled.sound.moveOther htags hmine, hled.moved, ?_, hled.others⟩
    intro l tail hl
    exact (hseen l (by rw [hl]; exact List.mem_cons_self)).2
      (hled.seen l tail hl)

end Moves

end StaticNet
