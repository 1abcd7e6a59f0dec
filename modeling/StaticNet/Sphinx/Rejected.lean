/-
What a refused packet leaves behind at a mix node
(`static-sphinx/src/lib.rs`).

The node looks at the MAC and at its replay tags before it writes
anything, so that packets it refuses there cost it nothing. But it
writes the tag, and the session of a reply block, before it has parsed
the routing flag and opened the body: a packet that fails at either is
refused with its tag, and perhaps a session, left in the caches
(`bad_flag_consumes_tag`). `rejected_keeps_iff` says that this is the
only way.
-/
import StaticNet.Sphinx.Sessions

namespace StaticNet

namespace MixCall

-- ==== unchanged caches

/-- The four caches of a node are those of another. -/
structure SameCaches (node node' : MixNode) : Prop where
  seenTags : node'.seenTags = node.seenTags
  seenOrder : node'.seenOrder = node.seenOrder
  sessionCache : node'.sessionCache = node.sessionCache
  sessionOrder : node'.sessionOrder = node.sessionOrder

theorem SameCaches.refl (node : MixNode) : SameCaches node node :=
  ⟨rfl, rfl, rfl, rfl⟩

/-- A session reply finds the session it names expired, and drops that
one. -/
def DropsExpired (node node' : MixNode) (call : MixCall) : Prop :=
  ∃ r now s, call = reply r now
    ∧ node.sessionCache.get r.sessionId = some s
    ∧ SESSION_TTL_SECS ≤ now - s.createdAt
    ∧ node' = { node with
        sessionCache := node.sessionCache.erase r.sessionId
        sessionOrder := node.sessionOrder.filter fun id =>
          id ≠ r.sessionId }

/-- A call that is refused leaves the caches as they are, but for a
session that has expired. -/
def KeepsCaches (P : Prims) (node : MixNode) (call : MixCall) : Prop :=
  (call.process P node).1.isOk = false →
    SameCaches node (call.process P node).2
      ∨ call.DropsExpired node (call.process P node).2

/-- The packet's flag is a flag, and a body that is to be handed over
authenticates. -/
def Opened.Finishes (P : Prims) (o : Opened) : Prop :=
  slotFlag P (o.keys P) o.packet = .ok .forward
    ∨ (slotFlag P (o.keys P) o.packet = .ok .destination
      ∧ (aeadDecryptBody P (bodyAeadKey P o.shared)
          (xorBody P (o.keys P).bodyKey o.packet.body)
          (slotHop P (o.keys P) o.packet)).isOk = true)

-- ======== one packet

variable {P : Prims} {node : MixNode} {call : MixCall} {o : Opened}

/-- What is handed back under another type is handed back. -/
theorem isOk_map {α β ε : Type} (f : α → β) (x : Except ε α) :
    (x.map f).isOk = x.isOk := by
  cases x with
  | error e => rfl
  | ok a => rfl

theorem deliver_isOk {shared : SymmetricKey} {packet : SphinxPacket}
    {kemRest : List UInt8} {d : MixDraws} {nextHop : NodeId}
    {flag : RoutingFlag} {nextMac : Mac} :
    (deliver P shared packet kemRest d nextHop flag nextMac).isOk = true
      ↔ flag = .forward
        ∨ (flag = .destination
          ∧ (aeadDecryptBody P (bodyAeadKey P shared)
              (xorBody P (deriveHopKeys P shared).bodyKey packet.body)
              nextHop).isOk = true) := by
  cases flag with
  | forward => simp [deliver, Except.isOk, Except.toBool]
  | destination =>
      rw [deliver]
      cases aeadDecryptBody P (bodyAeadKey P shared)
          (xorBody P (deriveHopKeys P shared).bodyKey packet.body)
          nextHop with
      | error e => simp [Except.isOk, Except.toBool]
      | ok plaintext => simp [Except.isOk, Except.toBool]

/-- A packet whose MAC verifies under a new tag is processed when it can
be finished. -/
theorem peel_isOk (hver : o.verifies P = true)
    (hnew : o.tag P ∉ node.seenTags) :
    (o.peel P node).1.isOk = true ↔ o.Finishes P := by
  rw [Opened.verifies] at hver
  cases hmac : matchMac P (o.keys P) o.packet with
  | error e =>
      rw [hmac] at hver
      cases hver
  | ok surb =>
      have hkeys : o.keys P = deriveHopKeys P o.shared := rfl
      rw [Opened.tag, hkeys] at hnew
      rw [hkeys] at hmac
      rw [Opened.peel, StaticNet.peel, Opened.Finishes, hkeys]
      simp only [hmac, if_neg hnew, slotFlag]
      generalize hparsed : RoutingFlag.ofByte _ = parsed
      cases parsed with
      | error e => simp [Except.isOk, Except.toBool]
      | ok flag =>
          rw [deliver_isOk]
          simp only [Except.ok.injEq, slotHop]

/-- It leaves its tag in any case. -/
theorem tag_mem_peel (hver : o.verifies P = true)
    (hnew : o.tag P ∉ node.seenTags) :
    o.tag P ∈ (o.peel P node).2.seenTags := by
  have hpush : o.tag P ∈ (node.insertSeenTag (o.tag P)).tags.seen :=
    Fifo.mem_push_self
  rcases peel_cases P node o.shared o.packet o.kemRest o.draws with
    ⟨hmac, -⟩ | ⟨surb, -, ⟨hseen, -⟩ | ⟨-, hnode⟩⟩
  · rw [Opened.verifies, Opened.keys, hmac] at hver
    cases hver
  · exact absurd hseen hnew
  · rcases hnode with ⟨-, hnode⟩ | ⟨-, flag, -, hnode⟩
    · rw [Opened.peel, hnode]
      exact hpush
    · have htags := MixNode.insertSession_tags
        (node.insertSeenTag (o.tag P)) o.packet.header.sessionId
        (newSession (o.keys P) (slotHop P (o.keys P) o.packet) flag
          o.draws.now)
      rw [← htags] at hpush
      rw [Opened.peel, hnode]
      exact hpush

/-- A packet that is refused for its MAC or as a replay changes
nothing. -/
theorem peel_refused
    (h : ¬ (o.verifies P = true ∧ o.tag P ∉ node.seenTags)) :
    (o.peel P node).2 = node := by
  rcases peel_cases P node o.shared o.packet o.kemRest o.draws with
    ⟨-, hpeel⟩ | ⟨surb, hmac, ⟨-, hpeel⟩ | ⟨hnew, -⟩⟩
  · rw [Opened.peel, hpeel]
  · rw [Opened.peel, hpeel]
  · refine absurd ⟨?_, hnew⟩ h
    rw [Opened.verifies, Opened.keys, hmac]
    rfl

/-- A session reply that is refused changes nothing, or drops the
session it names. -/
theorem reply_refused (P : Prims) (node : MixNode) (r : SessionReply)
    (now : Nat) : (reply r now).KeepsCaches P node := by
  intro hrefused
  have hok : ((reply r now).process P node).1.isOk
      = (processSessionReply P node r now).1.isOk := isOk_map _ _
  rw [hok] at hrefused
  change SameCaches node (processSessionReply P node r now).2
    ∨ (reply r now).DropsExpired node (processSessionReply P node r now).2
  rw [processSessionReply] at hrefused ⊢
  by_cases hbody : r.body.length ≠ WIRE_BODY_SIZE
  · rw [if_pos hbody]
    exact Or.inl (.refl node)
  rw [if_neg hbody] at hrefused ⊢
  cases hget : node.sessionCache.get r.sessionId with
  | none => exact Or.inl (.refl node)
  | some s =>
      rw [hget] at hrefused
      dsimp only at hrefused ⊢
      by_cases hlate : SESSION_TTL_SECS ≤ now - s.createdAt
      · rw [if_pos hlate]
        exact Or.inr ⟨r, now, s, rfl, hget, hlate, rfl⟩
      rw [if_neg hlate] at hrefused ⊢
      by_cases hseen : r.nonce ∈ s.seenNonces
      · rw [if_pos hseen]
        exact Or.inl (.refl node)
      · rw [if_neg hseen] at hrefused
        cases hrefused

-- ========= exactness

/-- A refused call leaves the caches of the node as they are if and only
if, where the MAC of the call's packet verifies under a new tag, the
packet can be finished. -/
theorem rejected_keeps_iff (P : Prims) (node : MixNode) (call : MixCall) :
    call.KeepsCaches P node
      ↔ ∀ o, call.opened P node.privateKey = some o →
        o.verifies P = true → o.tag P ∉ node.seenTags → o.Finishes P := by
  cases hopen : call.opened P node.privateKey with
  | none =>
      refine iff_of_true ?_ ?_
      · rcases step_of_unopened hopen with
          ⟨-, hstep⟩ | ⟨r, now, rfl⟩ | ⟨now, rfl⟩
        · intro _
          rw [step] at hstep
          rw [hstep]
          exact Or.inl (.refl node)
        · exact reply_refused P node r now
        · intro hrefused
          cases hrefused
      · intro o ho
        cases ho
  | some o =>
      have hprocess := process_of_opened hopen
      have hok : (call.process P node).1.isOk = (o.peel P node).1.isOk := by
        rw [hprocess]
        exact isOk_map _ _
      have hnode : (call.process P node).2 = (o.peel P node).2 := by
        rw [hprocess]
        rfl
      rw [KeepsCaches, hok, hnode]
      constructor
      · intro hkeeps o' ho hver hnew
        cases ho
        by_contra hnot
        rw [← peel_isOk hver hnew, Bool.not_eq_true] at hnot
        have hmem := tag_mem_peel hver hnew
        rcases hkeeps hnot with hsame | ⟨r, now, s, rfl, -⟩
        · rw [hsame.seenTags] at hmem
          exact hnew hmem
        · cases hopen
      · intro hfinish hrefused
        left
        by_cases htaken : o.verifies P = true ∧ o.tag P ∉ node.seenTags
        · have hdone := (peel_isOk htaken.1 htaken.2).2
            (hfinish o rfl htaken.1 htaken.2)
          rw [hrefused] at hdone
          cases hdone
        · rw [peel_refused htaken]
          exact .refl node

-- ======== a bad flag

/-- A packet whose MAC a node of the transparent instance accepts, with
a routing flag that is none. -/
def badFlagPacket : SphinxPacket :=
  { zeroPacket (Bytes.zero 16) with
    header :=
      { (zeroPacket (Bytes.zero 16)).header with
        routingInfo := List.replicate ROUTING_INFO_SIZE 2 } }

theorem opened_badFlagPacket :
    (packet badFlagPacket zeroDraws).opened .plain Prims.someKey
      = some ⟨Bytes.zero 32, badFlagPacket, [], zeroDraws⟩ := by
  have hsecret : Prims.plain.pointMul (Bytes.zero 32) Prims.someKey
      = Bytes.zero 32 := rfl
  have hok : badFlagPacket.header.version = SPHINX_VERSION_CLASSICAL
      ∧ badFlagPacket.header.routingInfo.length = ROUTING_INFO_SIZE
      ∧ badFlagPacket.body.length = WIRE_BODY_SIZE :=
    ⟨rfl, List.length_replicate, List.length_replicate⟩
  rw [opened, if_pos hok, ← hsecret]
  rfl

/-- The packet is refused, and its tag stays in the memory. -/
theorem bad_flag_consumes_tag :
    ((packet badFlagPacket zeroDraws).process .plain zeroNode).1.isOk
        = false
      ∧ ¬ (packet badFlagPacket zeroDraws).KeepsCaches .plain zeroNode := by
  let o : Opened := ⟨Bytes.zero 32, badFlagPacket, [], zeroDraws⟩
  have hprocess : (packet badFlagPacket zeroDraws).process .plain zeroNode
      = (o.peel .plain zeroNode).map (.map .processed) id :=
    process_of_opened (show (packet badFlagPacket zeroDraws).opened .plain
      zeroNode.privateKey = some o from opened_badFlagPacket)
  have hver : o.verifies .plain = true := by
    have hmac : badFlagPacket.header.mac
        = expectedMac .plain (deriveHopKeys .plain (Bytes.zero 32))
          badFlagPacket badFlagPacket.body := rfl
    rw [Opened.verifies, Opened.keys, matchMac, if_pos hmac]
    rfl
  have hnew : o.tag .plain ∉ zeroNode.seenTags := Finset.notMem_empty _
  have hflag : slotFlag .plain (o.keys .plain) o.packet
      = .error .invalidRoutingFlag := by
    have hslot : badFlagPacket.header.routingInfo.take SLOT_SIZE
        = List.replicate SLOT_SIZE 2 := by
      change (List.replicate ROUTING_INFO_SIZE (2 : UInt8)).take SLOT_SIZE
        = List.replicate SLOT_SIZE 2
      rw [List.take_replicate]
      rfl
    rw [slotFlag]
    change RoutingFlag.ofByte ((xorSlot .plain _
      (badFlagPacket.header.routingInfo.take SLOT_SIZE)).getD _ 0) = _
    rw [hslot]
    rfl
  have hnot : ¬ o.Finishes .plain := by
    rw [Opened.Finishes, hflag]
    intro h
    rcases h with h | h
    · cases h
    · cases h.1
  have hfail : (o.peel .plain zeroNode).1.isOk = false := by
    rw [← Bool.not_eq_true, peel_isOk hver hnew]
    exact hnot
  have hrefused : ((packet badFlagPacket zeroDraws).process .plain
      zeroNode).1.isOk = false := by
    rw [hprocess, ← hfail]
    exact isOk_map MixOut.processed (o.peel .plain zeroNode).1
  refine ⟨hrefused, fun hkeeps => ?_⟩
  have hmem := tag_mem_peel hver hnew
  rcases hkeeps hrefused with hsame | ⟨r, now, s, hcall, -⟩
  · have hsame := hsame.seenTags
    rw [hprocess] at hsame
    change (o.peel .plain zeroNode).2.seenTags = _ at hsame
    rw [hsame] at hmem
    exact hnew hmem
  · cases hcall

end MixCall

end StaticNet
