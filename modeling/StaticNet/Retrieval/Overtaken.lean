/-
Session replies that overtake the packet that opens their session.

A hop that knows no session drops a session reply and is left as it was.
So a run in which replies are lost goes as the run in which those replies
never move (`Crossing.shared`), and a reply is lost exactly where one
reaches a node before a first packet does (`Crossing.lossless_move`).
-/
import StaticNet.Retrieval.Lead

namespace StaticNet

-- ====== lost replies

/-- The replies of the second list are those of the first, but for some
that are lost. -/
structure Loses (replies lossy : List (Transit SessionReply SessionReply)) :
    Prop where
  length_eq : lossy.length = replies.length
  kept : ∀ (k : Nat) (t u : Transit SessionReply SessionReply),
    replies[k]? = some t → lossy[k]? = some u → u = t ∨ u.place = .lost

section Loses

variable {replies lossy : List (Transit SessionReply SessionReply)}
  {k : Nat} {t u : Transit SessionReply SessionReply}

theorem Loses.refl (replies : List (Transit SessionReply SessionReply)) :
    Loses replies replies := by
  refine ⟨rfl, fun k t u ht hu => Or.inl ?_⟩
  exact Option.some.inj (hu.symm.trans ht)

/-- More replies are sent. -/
theorem Loses.append (h : Loses replies lossy)
    (more : List (Transit SessionReply SessionReply)) :
    Loses (replies ++ more) (lossy ++ more) := by
  refine ⟨by rw [List.length_append, List.length_append, h.length_eq], ?_⟩
  intro k t u ht hu
  by_cases hk : k < replies.length
  · rw [List.getElem?_append_left hk] at ht
    rw [List.getElem?_append_left (by rw [h.length_eq]; exact hk)] at hu
    exact h.kept k t u ht hu
  · have hk := Nat.le_of_not_lt hk
    rw [List.getElem?_append_right hk] at ht
    rw [List.getElem?_append_right (by rw [h.length_eq]; exact hk),
      h.length_eq] at hu
    exact Or.inl (Option.some.inj (hu.symm.trans ht))

/-- One reply moves in both. -/
theorem Loses.set (h : Loses replies lossy) (k : Nat)
    (new : Transit SessionReply SessionReply) :
    Loses (replies.set k new) (lossy.set k new) := by
  refine ⟨by rw [List.length_set, List.length_set, h.length_eq], ?_⟩
  intro j t u ht hu
  by_cases hjk : k = j
  · subst hjk
    obtain ⟨hlt, hget⟩ := List.getElem?_eq_some_iff.1 ht
    obtain ⟨hlt', hget'⟩ := List.getElem?_eq_some_iff.1 hu
    rw [List.getElem_set_self] at hget hget'
    exact Or.inl (hget'.symm.trans hget)
  · rw [List.getElem?_set_ne hjk] at ht hu
    exact h.kept j t u ht hu

/-- One reply is lost. -/
theorem Loses.lose (h : Loses replies lossy) (k : Nat)
    {new : Transit SessionReply SessionReply} (hnew : new.place = .lost) :
    Loses replies (lossy.set k new) := by
  refine ⟨by rw [List.length_set, h.length_eq], ?_⟩
  intro j t u ht hu
  by_cases hjk : k = j
  · subst hjk
    obtain ⟨hlt', hget'⟩ := List.getElem?_eq_some_iff.1 hu
    rw [List.getElem_set_self] at hget'
    rw [← hget']
    exact Or.inr hnew
  · rw [List.getElem?_set_ne hjk] at hu
    exact h.kept j t u ht hu

/-- A reply that is not lost is where the run without losses has it. -/
theorem Loses.at_moving (h : Loses replies lossy)
    (hu : lossy[k]? = some u) (hmoving : u.place ≠ .lost) :
    replies[k]? = some u := by
  obtain ⟨hlt, -⟩ := List.getElem?_eq_some_iff.1 hu
  have ht := List.getElem?_eq_getElem (l := replies) (i := k)
    (by rw [← h.length_eq]; exact hlt)
  rcases h.kept k _ u ht hu with rfl | hlost
  · exact ht
  · exact absurd hlost hmoving

end Loses

/-- No session reply has been lost. -/
def SharedNet.Lossless (net : SharedNet) : Prop :=
  ∀ t ∈ net.replies, t.place ≠ .lost

/-- What holds of a list with one entry replaced, and of that entry. -/
theorem forall_mem_of_set {α : Type} {l : List α} {k : Nat} {a b : α}
    {p : α → Prop} (hk : l[k]? = some a) (ha : p a)
    (h : ∀ x ∈ l.set k b, p x) : ∀ x ∈ l, p x := by
  intro x hx
  obtain ⟨j, hj, hget⟩ := List.mem_iff_getElem.1 hx
  by_cases hjk : k = j
  · subst hjk
    rw [List.getElem?_eq_getElem hj, hget] at hk
    rw [Option.some.inj hk]
    exact ha
  · refine h x (List.mem_iff_getElem.2
      ⟨j, by rw [List.length_set]; exact hj, ?_⟩)
    rw [List.getElem_set_ne hjk]
    exact hget

-- ===== the invariant

/-- The route with replies that may have been lost on it. -/
structure Crossing (P : Prims) (d : PacketDraws) (layers : List Layer)
    (destination : NodeId) (kem : NodeId → List UInt8)
    (draws : Nat → Bytes 32) (net : SharedNet)
    (heads rest : List Fragment) : Prop where
  shared : ∃ replies, Loses replies net.replies
    ∧ Shared P d layers destination kem draws
      { net with replies := replies } heads rest
  unknown : ∀ l ∈ layers, (∀ t ∈ net.firsts, l.nodeId ∉ t.path) →
    (net.nodes l.nodeId).sessionCache.get d.sessionId = none

section Moves

variable {P : Prims} {d : PacketDraws} {layers : List Layer}
  {destination : NodeId} {kem : NodeId → List UInt8}
  {draws : Nat → Bytes 32} {net : SharedNet} {heads rest : List Fragment}

/-- What holds of the route does not depend on the holders. -/
theorem Shared.holders
    (h : Shared P d layers destination kem draws net heads rest)
    (tables : NodeId → ReassemblyManager) (pieces : List RequestPiece) :
    Shared P d layers destination kem draws
      { net with tables := tables, pieces := pieces } heads rest := by
  refine ⟨h.sendable, h.distinct, h.headed, h.length_eq, ?_⟩
  rcases h.phase with hs | ⟨k, head, t, hl⟩
  · exact Or.inl ⟨hs.opens, hs.fresh, hs.firsts, hs.replies⟩
  · exact Or.inr ⟨k, head, t, hl.begins, hl.leader, hl.sound, hl.moved,
      hl.seen, hl.others⟩

theorem Crossing.holders
    (h : Crossing P d layers destination kem draws net heads rest)
    (tables : NodeId → ReassemblyManager) (pieces : List RequestPiece) :
    Crossing P d layers destination kem draws
      { net with tables := tables, pieces := pieces } heads rest := by
  obtain ⟨replies, hloses, hshared⟩ := h.shared
  exact ⟨⟨replies, hloses, hshared.holders tables pieces⟩, h.unknown⟩

theorem Crossing.length_replies
    (h : Crossing P d layers destination kem draws net heads rest) :
    net.replies.length = rest.length := by
  obtain ⟨replies, hloses, hshared⟩ := h.shared
  rw [hloses.length_eq]
  exact hshared.length_replies

/-- A holder sends an answer. -/
theorem Crossing.send (hc : Returns P d layers)
    (h : Crossing P d layers destination kem draws net heads rest)
    {head : Fragment} {more : List Fragment}
    (hs : Sendable P d layers destination head)
    (hn : Set.InjOn draws (Set.Iio (rest ++ more).length)) :
    Crossing P d layers destination kem draws
      (net.send (replyPackets P d layers destination
        (fun i => draws (net.replies.length + i)) head more))
      (heads ++ [head]) (rest ++ more) := by
  obtain ⟨replies, hloses, hshared⟩ := h.shared
  have hsent := hshared.send hc hs hn
  simp only at hsent
  rw [← hloses.length_eq] at hsent
  refine ⟨⟨_, hloses.append _, hsent⟩, ?_⟩
  intro l hl hnot
  refine h.unknown l hl fun t ht => hnot t ?_
  exact List.mem_append_left _ ht

/-- A first packet moves. -/
theorem Crossing.moveFirst (hc : Returns P d layers)
    (h : Crossing P d layers destination kem draws net heads rest) (k : Nat)
    (draw : MixDraws) :
    Crossing P d layers destination kem draws
      (net.moveFirst P kem k draw) heads rest := by
  obtain ⟨replies, hloses, hshared⟩ := h.shared
  have hnext := hshared.moveFirst hc k draw
  rcases net.moveFirst_cases P kem k draw with hsame
    | ⟨path, id, packet, hk, hmove⟩
  · rw [hsame]
    exact h
  · obtain ⟨hlt, -⟩ := List.getElem?_eq_some_iff.1 hk
    simp only [SharedNet.moveFirst, hk] at hnext
    rw [hmove]
    refine ⟨⟨replies, hloses, hnext⟩, ?_⟩
    intro l hl hnot
    have hnew := hnot _ (List.mem_set hlt _)
    simp only [List.mem_append, List.mem_singleton, not_or] at hnew
    simp only [Function.update_of_ne hnew.2]
    exact h.unknown l hl (forall_mem_of_set hk hnew.1 hnot)

/-- Where a reply of an answer is, when none is lost. -/
theorem Shared.reply_sound (hc : Returns P d layers)
    (h : Shared P d layers destination kem draws net heads rest) {k : Nat}
    {t : Transit SessionReply SessionReply} (hk : net.replies[k]? = some t) :
    ∃ f passed ahead, rest[k]? = some f ∧ layers = passed ++ ahead
      ∧ ∀ head, (builtAnswer P d layers destination draws head
        rest).ReplyAt P (draws k)
        (P.encryptAad (bodyAeadKey P (lastShared layers))
          (replyAeadNonce (draws k)) (serializeFragment f)
          destination.toList) ahead t.place := by
  obtain ⟨hlt, -⟩ := List.getElem?_eq_some_iff.1 hk
  have hlen : k < rest.length := by
    rw [← h.length_replies]
    exact hlt
  have hsound : ∃ head t, (builtAnswer P d layers destination draws head
      rest).Sound P kem ⟨net.nodes, t, net.replies⟩ := by
    rcases h.phase with hs | ⟨j, head, t, hl⟩
    · cases hheads : heads with
      | nil =>
          rw [h.headed hheads] at hlen
          cases hlen
      | cons head heads => exact ⟨head, _, hs.sound hc head⟩
    · exact ⟨head, t, hl.sound⟩
  obtain ⟨head, u, hsound⟩ := hsound
  have hget := List.getElem?_eq_getElem hlen
  obtain ⟨passed, ahead, hsplit, -, hat⟩ := hsound.replies k t (draws k) _
    hk (by simp only [builtAnswer, List.getElem?_mapIdx, hget,
      Option.map_some])
    (by simp only [builtAnswer, sealedBodies, List.getElem?_mapIdx, hget,
      Option.map_some]; rfl)
  exact ⟨_, passed, ahead, hget, hsplit, fun _ => hat⟩

/-- A reply on its way is at a node of the route, under the block's
session. -/
theorem Shared.reply_at (hc : Returns P d layers)
    (h : Shared P d layers destination kem draws net heads rest) {k : Nat}
    {path : List NodeId} {id : NodeId} {reply : SessionReply}
    (hk : net.replies[k]? = some ⟨path, .at id reply⟩) :
    reply.sessionId = d.sessionId ∧ ∃ l ∈ layers, l.nodeId = id := by
  obtain ⟨f, passed, ahead, -, hsplit, hat⟩ := h.reply_sound hc hk
  cases ahead with
  | nil => cases hat f
  | cons l ahead =>
      injection hat f with hid hreply
      refine ⟨by rw [hreply]; rfl, l, ?_, hid.symm⟩
      rw [hsplit]
      simp

/-- None is lost. -/
theorem Shared.reply_kept (hc : Returns P d layers)
    (h : Shared P d layers destination kem draws net heads rest) {k : Nat}
    {t : Transit SessionReply SessionReply}
    (hk : net.replies[k]? = some t) : t.place ≠ .lost := by
  obtain ⟨f, passed, ahead, -, -, hat⟩ := h.reply_sound hc hk
  have hat := hat f
  intro hlost
  rw [hlost] at hat
  cases ahead with
  | nil => cases hat
  | cons l ahead => cases hat

/-- A node that does not know the session drops a reply. -/
theorem processSessionReply_unknown {node : MixNode} {reply : SessionReply}
    (h : node.sessionCache.get reply.sessionId = none) (now : Nat) :
    ∃ e, processSessionReply P node reply now = (.error e, node) := by
  unfold processSessionReply
  by_cases hbody : reply.body.length ≠ WIRE_BODY_SIZE
  · rw [if_pos hbody]
    exact ⟨_, rfl⟩
  · rw [if_neg hbody, h]
    exact ⟨_, rfl⟩

section Reply

variable {k now : Nat} {path : List NodeId} {id : NodeId}
  {reply : SessionReply} {tags : List Mac}
  {chunks : NodeId → ChunkId → Option (List UInt8)}

theorem SharedNet.follows_iff
    (hk : net.replies[k]? = some ⟨path, .at id reply⟩) :
    net.Follows (.reply k now) ↔ ∃ t ∈ net.firsts, id ∈ t.path := by
  refine ⟨fun h => h path id reply hk, fun h path' id' reply' hk' => ?_⟩
  rw [hk] at hk'
  injection Option.some.inj hk' with _ hplace
  injection hplace with hid _
  rw [← hid]
  exact h

theorem SharedNet.allowed_reply_iff
    (hk : net.replies[k]? = some ⟨path, .at id reply⟩) :
    net.Allowed P chunks draws d.sessionId tags (.reply k now)
      ↔ ∀ s, (net.nodes id).sessionCache.get d.sessionId = some s →
        now - s.createdAt < SESSION_TTL_SECS := by
  refine ⟨fun h => h path id reply hk, fun h path' id' reply' hk' => ?_⟩
  rw [hk] at hk'
  injection Option.some.inj hk' with _ hplace
  injection hplace with hid _
  rw [← hid]
  exact h

/-- Where a first packet has been, a reply moves as it does where nothing
is lost. -/
theorem Crossing.follow (hc : Returns P d layers)
    (h : Crossing P d layers destination kem draws net heads rest)
    (hallowed : net.Allowed P chunks draws d.sessionId tags
      (.reply k now))
    (hk : net.replies[k]? = some ⟨path, .at id reply⟩)
    (hfollows : ∃ t ∈ net.firsts, id ∈ t.path) :
    Crossing P d layers destination kem draws (net.moveReply P k now)
        heads rest
      ∧ ((net.moveReply P k now).Lossless ↔ net.Lossless) := by
  obtain ⟨replies, hloses, hshared⟩ := h.shared
  have hgk : replies[k]? = some ⟨path, .at id reply⟩ :=
    hloses.at_moving hk nofun
  have hghost : SharedNet.Allowed P chunks draws d.sessionId tags
      { net with replies := replies } (.reply k now) :=
    (SharedNet.allowed_reply_iff hgk).2
      ((SharedNet.allowed_reply_iff hk).1 hallowed)
  have hnext := hshared.moveReply hc hghost
    ((SharedNet.follows_iff hgk).2 hfollows)
  simp only [SharedNet.moveReply, hgk] at hnext
  simp only [SharedNet.moveReply, hk]
  refine ⟨⟨⟨_, hloses.set k _, hnext⟩, ?_⟩, ?_⟩
  · intro l hl hnot
    have hid : l.nodeId ≠ id := by
      rintro rfl
      obtain ⟨t, ht, hin⟩ := hfollows
      exact hnot t ht hin
    simp only [Function.update_of_ne hid]
    exact h.unknown l hl hnot
  · have hkept := hnext.reply_kept hc (k := k)
      (List.getElem?_set_self (List.getElem?_eq_some_iff.1 hgk).1)
    refine ⟨fun hl t ht => ?_, fun hl t ht => ?_⟩
    · exact forall_mem_of_set (p := fun t => t.place ≠ .lost) hk nofun hl
        t ht
    · rcases List.mem_or_eq_of_mem_set ht with ht | rfl
      · exact hl t ht
      · exact hkept

/-- Where no first packet has been, a reply is lost, and nothing else
happens. -/
theorem Crossing.overtake (hc : Returns P d layers)
    (h : Crossing P d layers destination kem draws net heads rest)
    (hk : net.replies[k]? = some ⟨path, .at id reply⟩)
    (hnot : ¬ ∃ t ∈ net.firsts, id ∈ t.path) (now : Nat) :
    Crossing P d layers destination kem draws (net.moveReply P k now)
        heads rest
      ∧ ¬ (net.moveReply P k now).Lossless := by
  obtain ⟨replies, hloses, hshared⟩ := h.shared
  have hgk : replies[k]? = some ⟨path, .at id reply⟩ :=
    hloses.at_moving hk nofun
  obtain ⟨hlt, -⟩ := List.getElem?_eq_some_iff.1 hk
  obtain ⟨hsid, l, hl, rfl⟩ := hshared.reply_at hc hgk
  have hnone := h.unknown l hl fun t ht hin => hnot ⟨t, ht, hin⟩
  rw [← hsid] at hnone
  obtain ⟨e, hdrop⟩ := processSessionReply_unknown (P := P) hnone now
  have hmove : net.moveReply P k now
      = { net with
          replies := net.replies.set k ⟨path ++ [l.nodeId], .lost⟩ } := by
    simp only [SharedNet.moveReply, hk, hdrop, placeOfReply,
      Function.update_eq_self]
  rw [hmove]
  refine ⟨⟨⟨replies, hloses.lose k rfl, hshared⟩, h.unknown⟩, ?_⟩
  intro hlossless
  exact hlossless _ (List.mem_set hlt _) rfl

/-- A session reply moves, or is lost where no first packet has been. -/
theorem Crossing.moveReply (hc : Returns P d layers)
    (h : Crossing P d layers destination kem draws net heads rest)
    (hallowed : net.Allowed P chunks draws d.sessionId tags
      (.reply k now)) :
    Crossing P d layers destination kem draws (net.moveReply P k now)
        heads rest
      ∧ ((net.moveReply P k now).Lossless
        ↔ net.Lossless ∧ net.Follows (.reply k now)) := by
  by_cases hmoving : ∃ path id reply,
      net.replies[k]? = some ⟨path, .at id reply⟩
  · obtain ⟨path, id, reply, hk⟩ := hmoving
    rw [SharedNet.follows_iff hk]
    by_cases hfollows : ∃ t ∈ net.firsts, id ∈ t.path
    · obtain ⟨hnext, hlossless⟩ := h.follow hc hallowed hk hfollows
      exact ⟨hnext, hlossless.trans (and_iff_left hfollows).symm⟩
    · obtain ⟨hnext, hlost⟩ := h.overtake hc hk hfollows now
      exact ⟨hnext, iff_of_false hlost fun hl => hfollows hl.2⟩
  · rcases net.moveReply_cases P k now with hsame | ⟨path, id, reply, hk, -⟩
    · rw [hsame]
      refine ⟨h, (and_iff_left ?_).symm⟩
      intro path id reply hk
      exact absurd ⟨path, id, reply, hk⟩ hmoving
    · exact absurd ⟨path, id, reply, hk⟩ hmoving

end Reply

/-- A node does other work. -/
theorem Crossing.moveOther
    (h : Crossing P d layers destination kem draws net heads rest)
    {tags : List Mac} {chunks : NodeId → ChunkId → Option (List UInt8)}
    (htags : ∀ l ∈ layers, (l.keys P).tag ∈ tags) {id : NodeId}
    {node : MixNode}
    (hallowed : net.Allowed P chunks draws d.sessionId tags
      (.other id node)) :
    Crossing P d layers destination kem draws
      { net with nodes := Function.update net.nodes id node } heads
      rest := by
  obtain ⟨replies, hloses, hshared⟩ := h.shared
  have hghost : SharedNet.Allowed P chunks draws d.sessionId tags
      { net with replies := replies } (.other id node) := hallowed
  refine ⟨⟨replies, hloses, hshared.moveOther htags hghost⟩, ?_⟩
  intro l hl hnot
  by_cases hid : l.nodeId = id
  · have hnone := h.unknown l hl hnot
    rw [hid] at hnone ⊢
    simp only [Function.update_self]
    exact hallowed.2.1.trans hnone
  · simp only [Function.update_of_ne hid]
    exact h.unknown l hl hnot

end Moves

end StaticNet
