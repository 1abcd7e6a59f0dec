/-
Replay protection at a mix node, over whole runs: any packets through
the classical and the hybrid entry point, any session replies, any
session clean-ups.

Both entry points come down to one secret and one `peel`
(`process_of_hopKeys`), and a peel touches the tags in one place only.
So one call either leaves the tag memory alone or pushes the tag it
accepted (`step_tags`), and the promise of the memory is the promise of
the node.

The MAC is looked at before the tag: a packet that derives an old tag
under a MAC that does not verify is turned away for its MAC.
-/
import StaticNet.Sphinx.Process

namespace StaticNet

-- ============= calls

/-- A call on a mix node. -/
inductive MixCall
  | packet (packet : SphinxPacket) (d : MixDraws)
  | hybrid (kemSecret : List UInt8) (packet : SphinxPacket) (d : MixDraws)
  | reply (reply : SessionReply) (now : Nat)
  | clean (now : Nat)

/-- What a call hands back. -/
inductive MixOut
  | processed (result : ProcessedPacket)
  | replied (result : SessionReplyResult)
  | cleaned

namespace MixCall

def process (P : Prims) (node : MixNode) :
    MixCall → Except SphinxError MixOut × MixNode
  | packet p d => (processPacket P node p d).map (.map .processed) id
  | hybrid secret p d =>
      (processPacketHybridWithKeys P node secret p d).map
        (.map .processed) id
  | reply r now => (processSessionReply P node r now).map (.map .replied) id
  | clean now => (.ok .cleaned, node.cleanExpiredSessions now)

def step (P : Prims) (node : MixNode) (call : MixCall) : MixNode :=
  (call.process P node).2

def run (P : Prims) (node : MixNode) (calls : List MixCall) : MixNode :=
  calls.foldl (step P) node

def isPacket : MixCall → Bool
  | packet _ _ => true
  | hybrid _ _ _ => true
  | _ => false

/-- A packet that has got as far as its hop secret: version and sizes
are right, and the KEM ciphertext opens. -/
structure Opened where
  shared : SymmetricKey
  packet : SphinxPacket
  kemRest : List UInt8
  draws : MixDraws

/-- The hop secret a call's packet derives under a private key. -/
def opened (P : Prims) (privateKey : Scalar) : MixCall → Option Opened
  | packet p d =>
      if p.header.version = SPHINX_VERSION_CLASSICAL
          ∧ p.header.routingInfo.length = ROUTING_INFO_SIZE
          ∧ p.body.length = WIRE_BODY_SIZE then
        some ⟨P.pointMul p.header.ephemeralKey privateKey, p, [], d⟩
      else none
  | hybrid secret p d =>
      if p.header.version = SPHINX_VERSION_HYBRID
          ∧ p.header.routingInfo.length = ROUTING_INFO_SIZE
          ∧ p.body.length = WIRE_BODY_SIZE
          ∧ p.kemCiphertexts.length = KEM_BLOCK_SIZE then
        (P.decapsulateWith secret
          (p.kemCiphertexts.take KEM_CIPHERTEXT_SIZE)).map fun kem =>
            ⟨P.hybridSharedSecret
                (P.pointMul p.header.ephemeralKey privateKey) kem
                "sphinx/hybrid-hop",
              p,
              p.kemCiphertexts.drop KEM_CIPHERTEXT_SIZE
                ++ randomBytes d.kemPad KEM_CIPHERTEXT_SIZE, d⟩
      else none
  | _ => none

namespace Opened

variable (P : Prims) (o : Opened)

def keys : HopKeys := deriveHopKeys P o.shared

/-- The replay tag the packet derives. -/
def tag : Mac := (o.keys P).tag

/-- The packet's MAC covers its body, or a placeholder. -/
def verifies : Bool := (matchMac P (o.keys P) o.packet).isOk

def peel (node : MixNode) : Except SphinxError ProcessedPacket × MixNode :=
  StaticNet.peel P node o.shared o.packet o.kemRest o.draws

end Opened

/-- The tag a call is accepted under: the packet's MAC verifies and its
tag has not been seen. -/
def accepts (P : Prims) (node : MixNode) (call : MixCall) : Option Mac :=
  match call.opened P node.privateKey with
  | none => none
  | some o =>
      if o.verifies P = true ∧ o.tag P ∉ node.seenTags then some (o.tag P)
      else none

/-- The tags accepted over a run, in order. -/
def accepted (P : Prims) : MixNode → List MixCall → List Mac
  | _, [] => []
  | node, call :: rest =>
      (call.accepts P node).toList ++ accepted P (call.step P node) rest

end MixCall

-- ======== one packet

theorem matchMac_error {P : Prims} {keys : HopKeys}
    {packet : SphinxPacket} {e : SphinxError}
    (h : matchMac P keys packet = .error e) :
    e = .macVerificationFailed := by
  unfold matchMac at h
  split at h
  · cases h
  · split at h
    · cases h
    · exact (Except.error.inj h).symm

/-- The flag in a packet's first routing slot. -/
def slotFlag (P : Prims) (keys : HopKeys) (packet : SphinxPacket) :
    Except SphinxError RoutingFlag :=
  RoutingFlag.ofByte ((xorSlot P keys.streamKey
    (packet.header.routingInfo.take SLOT_SIZE)).getD NODE_ID_SIZE 0)

/-- The next hop in a packet's first routing slot. -/
def slotHop (P : Prims) (keys : HopKeys) (packet : SphinxPacket) : NodeId :=
  Bytes.ofList 16 (slice (xorSlot P keys.streamKey
    (packet.header.routingInfo.take SLOT_SIZE)) 0 NODE_ID_SIZE)

/-- All a peel can do to the node: nothing, and say why; or take the tag
in, and from a reply block's packet with a valid flag the session. -/
theorem peel_cases (P : Prims) (node : MixNode) (shared : SymmetricKey)
    (packet : SphinxPacket) (kemRest : List UInt8) (d : MixDraws) :
    let keys := deriveHopKeys P shared
    (matchMac P keys packet = .error .macVerificationFailed
        ∧ peel P node shared packet kemRest d
          = (.error .macVerificationFailed, node))
      ∨ ∃ surb, matchMac P keys packet = .ok surb
        ∧ ((keys.tag ∈ node.seenTags
            ∧ peel P node shared packet kemRest d
              = (.error .replayDetected, node))
          ∨ (keys.tag ∉ node.seenTags
            ∧ (((surb = false ∨ ∃ e, slotFlag P keys packet = .error e)
                ∧ (peel P node shared packet kemRest d).2
                  = node.insertSeenTag keys.tag)
              ∨ (surb = true ∧ ∃ flag, slotFlag P keys packet = .ok flag
                ∧ (peel P node shared packet kemRest d).2
                  = (node.insertSeenTag keys.tag).insertSession
                    packet.header.sessionId
                    (newSession keys (slotHop P keys packet) flag
                      d.now))))) := by
  dsimp only
  cases hmac : matchMac P (deriveHopKeys P shared) packet with
  | error e =>
      left
      have he := matchMac_error hmac
      subst he
      refine ⟨rfl, ?_⟩
      simp only [peel, hmac]
  | ok surb =>
      refine .inr ⟨surb, rfl, ?_⟩
      by_cases hseen : (deriveHopKeys P shared).tag ∈ node.seenTags
      · refine .inl ⟨hseen, ?_⟩
        simp only [peel, hmac, if_pos hseen]
      · refine .inr ⟨hseen, ?_⟩
        simp only [peel, hmac, if_neg hseen, slotFlag, slotHop]
        generalize RoutingFlag.ofByte _ = parsed
        cases parsed with
        | error e => exact .inl ⟨.inr ⟨e, rfl⟩, rfl⟩
        | ok flag =>
            cases surb with
            | false => exact .inl ⟨.inl rfl, rfl⟩
            | true => exact .inr ⟨rfl, flag, rfl, rfl⟩

theorem processSessionReply_tags (P : Prims) (node : MixNode)
    (reply : SessionReply) (now : Nat) :
    (processSessionReply P node reply now).2.tags = node.tags
      ∧ (processSessionReply P node reply now).2.privateKey
        = node.privateKey := by
  unfold processSessionReply
  split
  · exact ⟨rfl, rfl⟩
  · cases node.sessionCache.get reply.sessionId with
    | none => exact ⟨rfl, rfl⟩
    | some session =>
        dsimp only
        split
        · exact ⟨rfl, rfl⟩
        · split <;> exact ⟨rfl, rfl⟩

namespace MixCall

variable {P : Prims} {node : MixNode} {call : MixCall} {o : Opened}

/-- Both entry points, once the secret is known. -/
theorem process_of_opened
    (h : call.opened P node.privateKey = some o) :
    call.process P node = (o.peel P node).map (.map .processed) id := by
  cases call with
  | packet p d =>
      by_cases hok : p.header.version = SPHINX_VERSION_CLASSICAL
          ∧ p.header.routingInfo.length = ROUTING_INFO_SIZE
          ∧ p.body.length = WIRE_BODY_SIZE
      · rw [opened, if_pos hok] at h
        obtain ⟨hversion, hrouting, hbody⟩ := hok
        have hnot : SPHINX_VERSION_CLASSICAL ≠ SPHINX_VERSION_HYBRID := by
          decide
        obtain rfl := Option.some.inj h
        simp only [process, processPacket, hversion, hnot, hrouting, hbody,
          ne_eq, not_true_eq_false, if_false, Opened.peel]
      · rw [opened, if_neg hok] at h
        cases h
  | hybrid secret p d =>
      by_cases hok : p.header.version = SPHINX_VERSION_HYBRID
          ∧ p.header.routingInfo.length = ROUTING_INFO_SIZE
          ∧ p.body.length = WIRE_BODY_SIZE
          ∧ p.kemCiphertexts.length = KEM_BLOCK_SIZE
      · rw [opened, if_pos hok] at h
        obtain ⟨hversion, hrouting, hbody, hkem⟩ := hok
        cases hdec : P.decapsulateWith secret
            (p.kemCiphertexts.take KEM_CIPHERTEXT_SIZE) with
        | none =>
            rw [hdec] at h
            cases h
        | some kem =>
            rw [hdec] at h
            obtain rfl := Option.some.inj h
            simp only [process, processPacketHybridWithKeys, hversion,
              hrouting, hbody, hkem, ne_eq, not_true_eq_false, if_false,
              hdec, Opened.peel]
      · rw [opened, if_neg hok] at h
        cases h
  | reply r now => cases h
  | clean now => cases h

/-- A packet that derives no hop secret leaves the node as it is. -/
theorem step_of_unopened (h : call.opened P node.privateKey = none) :
    (call.isPacket = true ∧ call.step P node = node)
      ∨ (∃ r now, call = reply r now) ∨ ∃ now, call = clean now := by
  cases call with
  | packet p d =>
      refine .inl ⟨rfl, ?_⟩
      change (processPacket P node p d).2 = node
      unfold processPacket
      split
      · rfl
      · split
        · rfl
        · split
          · rfl
          · split
            · rfl
            · rename_i hv hr hb
              refine absurd h ?_
              rw [not_ne_iff] at hv hr hb
              simp [opened, hv, hr, hb]
  | hybrid secret p d =>
      refine .inl ⟨rfl, ?_⟩
      change (processPacketHybridWithKeys P node secret p d).2 = node
      unfold processPacketHybridWithKeys
      split
      · rfl
      · split
        · rfl
        · split
          · rfl
          · split
            · rfl
            · rename_i hv hr hb hk
              rw [not_ne_iff] at hv hr hb hk
              cases hdec : P.decapsulateWith secret
                  (p.kemCiphertexts.take KEM_CIPHERTEXT_SIZE) with
              | none => rfl
              | some kem =>
                  refine absurd h ?_
                  simp [opened, hv, hr, hb, hk, hdec]
  | reply r now => exact .inr (.inl ⟨r, now, rfl⟩)
  | clean now => exact .inr (.inr ⟨now, rfl⟩)

/-- Calls without a hop secret do not reach the tags. -/
theorem tags_of_unopened (h : call.opened P node.privateKey = none) :
    (call.step P node).tags = node.tags
      ∧ (call.step P node).privateKey = node.privateKey := by
  rcases step_of_unopened h with ⟨-, hstep⟩ | ⟨r, now, rfl⟩ | ⟨now, rfl⟩
  · rw [hstep]
    exact ⟨rfl, rfl⟩
  · exact processSessionReply_tags P node r now
  · exact ⟨rfl, rfl⟩

/-- One call on the tag memory: untouched, or the accepted tag goes
in. -/
theorem step_tags (P : Prims) (node : MixNode) (call : MixCall) :
    (call.step P node).privateKey = node.privateKey
      ∧ ((call.accepts P node = none
          ∧ (call.step P node).tags = node.tags)
        ∨ ∃ t, call.accepts P node = some t ∧ t ∉ node.tags.seen
          ∧ (call.step P node).tags
            = node.tags.push MAX_SEEN_TAGS t) := by
  cases hopen : call.opened P node.privateKey with
  | none =>
      obtain ⟨htags, hkey⟩ := tags_of_unopened hopen
      refine ⟨hkey, .inl ⟨?_, htags⟩⟩
      simp only [accepts, hopen]
  | some o =>
      have hstep : call.step P node = (o.peel P node).2 := by
        rw [step, process_of_opened hopen]
        rfl
      rw [hstep]
      rcases peel_cases P node o.shared o.packet o.kemRest o.draws with
        ⟨hmac, hpeel⟩ | ⟨surb, hmac, ⟨hseen, hpeel⟩ | ⟨hseen, hnode⟩⟩
      · rw [Opened.peel, hpeel]
        refine ⟨rfl, .inl ⟨?_, rfl⟩⟩
        simp [accepts, hopen, Opened.verifies, Opened.keys, hmac,
          Except.isOk, Except.toBool]
      · rw [Opened.peel, hpeel]
        refine ⟨rfl, .inl ⟨?_, rfl⟩⟩
        simp [accepts, hopen, Opened.tag, Opened.keys, hseen]
      · have hacc : call.accepts P node = some (o.tag P) := by
          simp [accepts, hopen, Opened.verifies, Opened.tag, Opened.keys,
            hmac, hseen, Except.isOk, Except.toBool]
        rcases hnode with ⟨-, hnode⟩ | ⟨-, flag, -, hnode⟩
        · rw [Opened.peel, hnode]
          exact ⟨rfl, .inr ⟨_, hacc, hseen, rfl⟩⟩
        · rw [Opened.peel, hnode, MixNode.insertSession_tags,
            MixNode.insertSession_privateKey]
          exact ⟨rfl, .inr ⟨_, hacc, hseen, rfl⟩⟩

-- ============== runs

theorem maxSeenTags_pos : 0 < MAX_SEEN_TAGS := by decide

theorem run_privateKey (P : Prims) (node : MixNode)
    (calls : List MixCall) :
    (run P node calls).privateKey = node.privateKey := by
  induction calls generalizing node with
  | nil => rfl
  | cons call rest ih =>
      exact (ih (call.step P node)).trans (step_tags P node call).1

theorem step_sound (hs : node.tags.Sound MAX_SEEN_TAGS) (call : MixCall) :
    (call.step P node).tags.Sound MAX_SEEN_TAGS := by
  rcases (step_tags P node call).2 with ⟨-, htags⟩ | ⟨t, -, -, htags⟩
  · rw [htags]
    exact hs
  · rw [htags]
    exact hs.push maxSeenTags_pos

theorem run_sound (hs : node.tags.Sound MAX_SEEN_TAGS)
    (calls : List MixCall) :
    (run P node calls).tags.Sound MAX_SEEN_TAGS := by
  induction calls generalizing node with
  | nil => exact hs
  | cons call rest ih => exact ih (step_sound hs call)

/-- A tag outlives a run that accepts fewer than `MAX_SEEN_TAGS` others;
none of them is the tag itself. -/
theorem run_recalls {t : Mac} {later : List Mac}
    (hs : node.tags.Sound MAX_SEEN_TAGS) (h : node.tags.Recalls t later)
    (calls : List MixCall)
    (hfew : later.length + ((accepted P node calls).filter
      fun u => u ≠ t).length < MAX_SEEN_TAGS) :
    t ∈ (run P node calls).seenTags := by
  induction calls generalizing node later with
  | nil => exact h.mem hs
  | cons call rest ih =>
      rcases (step_tags P node call).2 with
        ⟨hacc, htags⟩ | ⟨u, hacc, hnew, htags⟩
      · refine ih (step_sound hs call) (htags ▸ h) ?_
        rw [accepted, hacc] at hfew
        exact hfew
      · have hut : u ≠ t := fun heq => hnew (heq ▸ h.mem hs)
        rw [accepted, hacc, Option.toList_some, List.singleton_append,
          List.filter_cons_of_pos (by simpa using hut),
          List.length_cons] at hfew
        have hpush : (call.step P node).tags.Recalls t (later ++ [u]) := by
          rw [htags]
          exact h.push hs hnew (by omega)
        refine ih (step_sound hs call) hpush ?_
        rw [List.length_append, List.length_singleton]
        omega

/-- From an empty node, whatever is called: the order lists the seen tags
once each and no more than fit; an accepted tag is refused, whenever a
verified packet derives it again, until `MAX_SEEN_TAGS` other tags have
been accepted; and a packet whose MAC does not verify is turned away and
moves nothing. -/
theorem replay_protection (P : Prims) (privateKey : Scalar)
    (nodeId : NodeId) (before : List MixCall) :
    let node := run P (.new privateKey nodeId) before
    (node.seenOrder.Nodup ∧ node.seenOrder.toFinset = node.seenTags
        ∧ node.seenOrder.length ≤ MAX_SEEN_TAGS)
      ∧ (∀ (first : MixCall) (t : Mac) (between : List MixCall)
          (again : MixCall) (o : Opened),
        first.accepts P node = some t →
        ((accepted P (first.step P node) between).filter
          fun u => u ≠ t).length < MAX_SEEN_TAGS →
        again.opened P privateKey = some o → o.tag P = t →
        o.verifies P = true →
        (again.process P (run P (first.step P node) between)).1
          = .error .replayDetected)
      ∧ ∀ (call : MixCall) (o : Opened),
        call.opened P privateKey = some o →
        o.verifies P = false →
        call.process P node = (.error .macVerificationFailed, node) := by
  intro node
  have hsound : node.tags.Sound MAX_SEEN_TAGS :=
    run_sound Fifo.sound_empty before
  have hkey : node.privateKey = privateKey := run_privateKey P _ before
  refine ⟨⟨hsound.nodup, hsound.seen_eq, hsound.bounded⟩, ?_, ?_⟩
  · intro first t between again o hfirst hfew hopen htag hver
    set last := run P (first.step P node) between with hlast
    have hmem : t ∈ last.seenTags := by
      rcases (step_tags P node first).2 with
        ⟨hacc, -⟩ | ⟨u, hacc, hnew, htags⟩
      · rw [hacc] at hfirst
        cases hfirst
      · obtain rfl := Option.some.inj (hacc.symm.trans hfirst)
        have hrec : (first.step P node).tags.Recalls u [] := by
          rw [htags]
          exact hsound.recalls_push maxSeenTags_pos hnew
        refine run_recalls (step_sound hsound first) hrec between ?_
        rw [List.length_nil, Nat.zero_add]
        exact hfew
    have hlastKey : last.privateKey = privateKey :=
      (run_privateKey P _ between).trans
        ((step_tags P node first).1.trans hkey)
    rw [process_of_opened (hlastKey.symm ▸ hopen)]
    rcases peel_cases P last o.shared o.packet o.kemRest o.draws with
      ⟨hmac, -⟩ | ⟨surb, -, ⟨-, hpeel⟩ | ⟨hseen, -⟩⟩
    · simp [Opened.verifies, Opened.keys, hmac, Except.isOk,
        Except.toBool] at hver
    · rw [Opened.peel, hpeel]
      rfl
    · subst htag
      exact absurd hmem hseen
  · intro call o hopen hver
    rw [process_of_opened (hkey.symm ▸ hopen)]
    rcases peel_cases P node o.shared o.packet o.kemRest o.draws with
      ⟨-, hpeel⟩ | ⟨surb, hmac, -⟩
    · rw [Opened.peel, hpeel]
      rfl
    · simp [Opened.verifies, Opened.keys, hmac, Except.isOk,
        Except.toBool] at hver

/-- A packet of zeros under this MAC: its hop secret is zero, and so is
the MAC a node expects. -/
def zeroPacket (mac : Mac) : SphinxPacket where
  header :=
    { version := SPHINX_VERSION_CLASSICAL
      ephemeralKey := Bytes.zero 32
      sessionId := Bytes.zero 32
      routingInfo := List.replicate ROUTING_INFO_SIZE 0
      mac := mac }
  kemCiphertexts := []
  body := placeholder

def zeroDraws : MixDraws := ⟨fun _ => 0, fun _ => 0, 0⟩

def zeroNode : MixNode := .new Prims.someKey (Bytes.zero 16)

theorem opened_zeroPacket (mac : Mac) :
    (packet (zeroPacket mac) zeroDraws).opened .plain Prims.someKey
      = some ⟨Bytes.zero 32, zeroPacket mac, [], zeroDraws⟩ := by
  have hsecret : Prims.plain.pointMul (Bytes.zero 32) Prims.someKey
      = Bytes.zero 32 := rfl
  have hok : (zeroPacket mac).header.version = SPHINX_VERSION_CLASSICAL
      ∧ (zeroPacket mac).header.routingInfo.length = ROUTING_INFO_SIZE
      ∧ (zeroPacket mac).body.length = WIRE_BODY_SIZE :=
    ⟨rfl, List.length_replicate, List.length_replicate⟩
  rw [opened, if_pos hok]
  simp only [zeroPacket, hsecret]

/-- The node that opens such a packet expects zeros as its MAC. -/
theorem expectedMac_zeroPacket (mac : Mac) (body : List UInt8) :
    expectedMac .plain (deriveHopKeys .plain (Bytes.zero 32))
      (zeroPacket mac) body = Bytes.zero 16 := by
  rfl

theorem verifies_zeroPacket (mac : Mac) :
    (Opened.mk (Bytes.zero 32) (zeroPacket mac) [] zeroDraws).verifies
      .plain = decide (mac = Bytes.zero 16) := by
  have hfield : (zeroPacket mac).header.mac = mac := rfl
  simp only [Opened.verifies, Opened.keys, matchMac,
    expectedMac_zeroPacket, hfield]
  by_cases hmac : mac = Bytes.zero 16
  · rw [if_pos hmac, decide_eq_true hmac]
    rfl
  · rw [if_neg hmac, if_neg hmac, decide_eq_false hmac]
    rfl

/-- The zero packet, sent twice to a node that has seen nothing. -/
theorem accepts_zeroPacket :
    (packet (zeroPacket (Bytes.zero 16)) zeroDraws).accepts .plain zeroNode
      = some (Bytes.zero 16) := by
  unfold accepts
  rw [show zeroNode.privateKey = Prims.someKey from rfl, opened_zeroPacket]
  simp only [verifies_zeroPacket, decide_true, true_and]
  exact if_pos (Finset.notMem_empty _)

theorem replay_protection_zeroPacket :
    ((packet (zeroPacket (Bytes.zero 16)) zeroDraws).process .plain
        ((packet (zeroPacket (Bytes.zero 16)) zeroDraws).step .plain
          zeroNode)).1
      = .error .replayDetected :=
  (replay_protection .plain Prims.someKey (Bytes.zero 16) []).2.1 _ _ [] _ _
    accepts_zeroPacket maxSeenTags_pos (opened_zeroPacket _) rfl
    (verifies_zeroPacket _)

/-- The same packet under another MAC derives the tag that was just
accepted, and is turned away for the MAC, not as a replay. -/
theorem accepted_tag_bad_mac :
    (packet (zeroPacket (Bytes.zero 16)) zeroDraws).accepts .plain zeroNode
        = some (Bytes.zero 16)
      ∧ ((packet (zeroPacket (Bytes.fill 16 1)) zeroDraws).opened .plain
          Prims.someKey).map (Opened.tag .plain) = some (Bytes.zero 16)
      ∧ ((packet (zeroPacket (Bytes.fill 16 1)) zeroDraws).process .plain
          ((packet (zeroPacket (Bytes.zero 16)) zeroDraws).step .plain
            zeroNode)).1
        = .error .macVerificationFailed := by
  refine ⟨accepts_zeroPacket, ?_, ?_⟩
  · rw [opened_zeroPacket]
    rfl
  · set node := (packet (zeroPacket (Bytes.zero 16)) zeroDraws).step .plain
      zeroNode with hnode
    have hkey : node.privateKey = Prims.someKey := (step_tags _ _ _).1
    have hopen := opened_zeroPacket (Bytes.fill 16 1)
    rw [process_of_opened (hkey.symm ▸ hopen)]
    rcases peel_cases .plain node (Bytes.zero 32)
      (zeroPacket (Bytes.fill 16 1)) [] zeroDraws with
      ⟨-, hpeel⟩ | ⟨surb, hmac, -⟩
    · rw [Opened.peel, hpeel]
      rfl
    · have hver := verifies_zeroPacket (Bytes.fill 16 1)
      have hne : Bytes.fill 16 1 ≠ Bytes.zero 16 := by decide
      simp [Opened.verifies, Opened.keys, hmac, Except.isOk,
        Except.toBool, hne] at hver

end MixCall

end StaticNet
