/-
Whether the keys a handshake wrote into the routing table stay.

A handshake is checked against the table in one section and added in a
later one, and the add replaces what it finds. Two first contacts under
one id can both be checked while the table is empty and then be added
one after the other (`both_added`). Such a race apart, where an entry of
other keys is added between a handshake's check and its own add, an
entry's keys never change again (`pins_immutable`): a check that comes
after the add sees it and refuses other keys, and gossip replaces
nothing.
-/
import StaticNet.Handshake.Stream

namespace StaticNet

open Proc

variable {P : Prims} {json : List KnownNode → List UInt8}

/-- The programs that run on the table: connections opened by peers,
connections opened to peers, and gossip. -/
inductive Opening (P : Prims) (json : List KnownNode → List UInt8) :
    Link Unit → Prop
  | inbound (d : LinkDraws) (address : String)
      (recvs : List (List UInt8)) :
      Opening P json (do
        let _ ← handleIncomingConnection P d address recvs)
  | outbound (d : LinkDraws) (address : String)
      (recvs : List (List UInt8)) :
      Opening P json (do let _ ← connectToPeer P d address recvs)
  | gossip (activityAt : Nat) (g : PeerGossip) :
      Opening P json (handleMaintenanceGossip P json activityAt g)

/-- A run's sections with the states they found. -/
abbrev LinkTrace := List (Step LinkAct LinkState)

-- ==== what a section can do

/-- What a section does to the routing table. -/
def TableStep (P : Prims) (json : List KnownNode → List UInt8)
    (l : LinkAct) (s s' : LinkState) : Prop :=
  match l with
  | .add hs => ∃ address,
      s'.routingTable = s.routingTable.addNode (hs.asKnown address)
  | .gossip g => s'.routingTable = s.routingTable.processGossip P json g
  | _ => s'.routingTable = s.routingTable

/-- A section that leaves the table alone. -/
def Quiet (l : LinkAct) (s s' : LinkState) : Prop :=
  s'.routingTable = s.routingTable
    ∧ (∀ hs, l ≠ .add hs) ∧ ∀ g, l ≠ .gossip g

theorem Quiet.tableStep {l : LinkAct} {s s' : LinkState}
    (h : Quiet l s s') : TableStep P json l s s' := by
  obtain ⟨htable, hadd, hgossip⟩ := h
  cases l with
  | add hs => exact absurd rfl (hadd hs)
  | gossip g => exact absurd rfl (hgossip g)
  | _ => exact htable

theorem checkHandshakeNonce_quiet (env : Env) (nonce : Bytes 32) :
    Sections Quiet (checkHandshakeNonce env nonce) :=
  fun _ => ⟨⟨rfl, nofun, nofun⟩, trivial⟩

theorem verifyHandshake_quiet (env : Env) (hs : Handshake) :
    Sections Quiet (verifyHandshake P env hs) := by
  unfold verifyHandshake
  split
  · trivial
  split
  · trivial
  refine (checkHandshakeNonce_quiet env hs.nonce).bind fun fresh => ?_
  cases fresh with
  | false => trivial
  | true => exact fun _ => ⟨⟨rfl, nofun, nofun⟩, trivial⟩

theorem signedHandshake_quiet (nonce : Bytes 32) :
    Sections Quiet (signedHandshake P nonce) :=
  fun _ => ⟨⟨rfl, nofun, nofun⟩, fun _ => ⟨⟨rfl, nofun, nofun⟩,
    fun _ => ⟨⟨rfl, nofun, nofun⟩, trivial⟩⟩⟩

theorem sendWireMessage_quiet (d : LinkDraws) (i : Nat)
    (msg : WireMessage) : Sections Quiet (sendWireMessage d i msg) :=
  fun _ => ⟨⟨rfl, nofun, nofun⟩, trivial⟩

theorem authenticateClient_quiet (d : LinkDraws)
    (recvs : List (List UInt8)) :
    Sections Quiet (authenticateClient P d recvs) := by
  unfold authenticateClient
  rcases readWireMessage recvs with ⟨_ | first, between⟩
  · trivial
  cases first with
  | hello hello =>
      refine (checkHandshakeNonce_quiet _ _).bind fun fresh => ?_
      cases fresh with
      | false => trivial
      | true =>
          dsimp only
          rcases P.encapsulateTo hello.ephKemPubKey d.coins with
            _ | ⟨kemShared, kemCiphertext⟩
          · trivial
          refine (sendWireMessage_quiet _ _ _).bind fun failed => ?_
          cases failed with
          | some e => trivial
          | none =>
              rcases readWireMessage between with ⟨_ | second, rest⟩
              · trivial
              cases second with
              | authIdentity enc =>
                  dsimp only
                  cases decryptIdentity P _ enc _ with
                  | none => trivial
                  | some hs =>
                      refine (verifyHandshake_quiet _ hs).bind fun ok => ?_
                      cases ok with
                      | false => trivial
                      | true =>
                          refine (signedHandshake_quiet _).bind
                            fun ours => ?_
                          refine (sendWireMessage_quiet _ _ _).bind
                            fun failed => ?_
                          cases failed <;> trivial
              | _ => trivial
  | _ => trivial

theorem authenticateServer_quiet (d : LinkDraws)
    (recvs : List (List UInt8)) :
    Sections Quiet (authenticateServer P d recvs) := by
  unfold authenticateServer
  refine (sendWireMessage_quiet _ _ _).bind fun failed => ?_
  cases failed with
  | some e => trivial
  | none =>
      dsimp only
      rcases readWireMessage recvs with ⟨_ | first, between⟩
      · trivial
      cases first with
      | welcome welcome =>
          refine (checkHandshakeNonce_quiet _ _).bind fun fresh => ?_
          cases fresh with
          | false => trivial
          | true =>
              cases P.decapsulateWith d.kemSecret
                welcome.kemCiphertext with
              | none => trivial
              | some kemShared =>
                  refine (signedHandshake_quiet _).bind fun ours => ?_
                  refine (sendWireMessage_quiet _ _ _).bind
                    fun failed => ?_
                  cases failed with
                  | some e => trivial
                  | none =>
                      dsimp only
                      rcases readWireMessage between with
                        ⟨_ | second, rest⟩
                      · trivial
                      cases second with
                      | authIdentity enc =>
                          dsimp only
                          cases decryptIdentity P _ enc _ with
                          | none => trivial
                          | some hs =>
                              refine (verifyHandshake_quiet _ hs).bind
                                fun ok => ?_
                              cases ok <;> trivial
                      | _ => trivial
      | _ => trivial

/-- An authenticated peer is added, and then the table is left alone. -/
theorem registerPeer_ok {I : LinkTrace → LinkState → Prop}
    {C : LinkAct → LinkState → Prop} {hs : Handshake} {tr : LinkTrace}
    (hquiet : ∀ tr l s s', I tr s → C l s → Quiet l s s' →
      I (tr ++ [(l, s)]) s')
    (hadd : ∀ tr' s s', tr <+: tr' → I tr' s → I (tr' ++ [(.add hs, s)]) s')
    (d : LinkDraws) (address : String) :
    Ok I C (fun _ _ => True) tr (registerPeer d address hs) := by
  refine Ok.bind ?_
  intro tr' s hpre hI _
  refine ⟨hadd tr' s _ hpre hI, ?_⟩
  refine Ok.of_sections hquiet ?_ _
  refine fun _ => ⟨⟨rfl, nofun, nofun⟩, fun _ => ⟨⟨rfl, nofun, nofun⟩,
    fun s => ⟨⟨rfl, nofun, nofun⟩, ?_⟩⟩⟩
  dsimp only
  generalize decide (hs.nodeId ∈ s.previouslyConnected) = again
  cases again with
  | false => trivial
  | true => exact fun _ => ⟨⟨rfl, nofun, nofun⟩, trivial⟩

theorem registerPeer_tableStep (d : LinkDraws) (address : String)
    (hs : Handshake) :
    Sections (TableStep P json) (registerPeer d address hs) := by
  refine fun _ => ⟨⟨address, rfl⟩, fun _ => ⟨rfl, fun _ => ⟨rfl,
    fun s => ⟨rfl, ?_⟩⟩⟩⟩
  dsimp only
  generalize decide (hs.nodeId ∈ s.previouslyConnected) = again
  cases again with
  | false => trivial
  | true => exact fun _ => ⟨rfl, trivial⟩

/-- Whatever runs on the table, its sections do what their labels say. -/
theorem Opening.tableStep {p : Link Unit} (h : Opening P json p) :
    Sections (TableStep P json) p := by
  have hquiet : ∀ l s s', Quiet l s s' → TableStep P json l s s' :=
    fun _ _ _ hq => hq.tableStep
  cases h with
  | inbound d address recvs =>
      refine Sections.bind ?_ fun _ => trivial
      refine ((authenticateClient_quiet d recvs).mono hquiet).bind ?_
      rintro (_ | ⟨hs, rest⟩)
      · trivial
      · exact (registerPeer_tableStep d address hs).bind fun _ => trivial
  | outbound d address recvs =>
      refine Sections.bind ?_ fun _ => trivial
      refine ((authenticateServer_quiet d recvs).mono hquiet).bind ?_
      rintro (_ | ⟨hs, rest⟩)
      · trivial
      · exact (registerPeer_tableStep d address hs).bind fun _ => trivial
  | gossip activityAt g => exact fun _ => ⟨rfl, fun _ => ⟨rfl, trivial⟩⟩

-- ==== every add was checked

/-- Every handshake that is added was checked before, and passed. -/
def Vouched (tr : LinkTrace) : Prop :=
  Along (fun upto t => ∀ hs, t.1 = .add hs → Checked hs upto) tr

theorem Vouched.quiet {tr : LinkTrace} {l : LinkAct} {s s' : LinkState}
    (h : Vouched tr) (hq : Quiet l s s') : Vouched (tr ++ [(l, s)]) :=
  along_append.2 ⟨h, fun hs heq => absurd heq (hq.2.1 hs)⟩

theorem Vouched.add {tr : LinkTrace} {hs : Handshake} {s : LinkState}
    (h : Vouched tr) (hchecked : Checked hs tr) :
    Vouched (tr ++ [(.add hs, s)]) := by
  refine along_append.2 ⟨h, ?_⟩
  rintro hs' heq
  obtain rfl := LinkAct.add.inj heq
  exact hchecked.mono (List.subset_append_left _ _)

theorem Opening.vouched {p : Link Unit} (h : Opening P json p) :
    Ok (fun tr _ => Vouched tr) (fun _ _ => True) (fun _ _ => True) [] p := by
  have hquiet : ∀ (tr : LinkTrace) l s s', Vouched tr → True →
      Quiet l s s' → Vouched (tr ++ [(l, s)]) :=
    fun tr l s s' htr _ hq => htr.quiet hq
  have hregister : ∀ (d : LinkDraws) (address : String) {hs : Handshake}
      {tr : LinkTrace}, Checked hs tr → Ok (fun tr _ => Vouched tr)
        (fun _ _ => True) (fun _ _ => True) tr
        (registerPeer d address hs) :=
    fun d address hs tr hchecked => registerPeer_ok hquiet
      (fun tr' s s' hpre htr => htr.add (hchecked.mono hpre.subset))
      d address
  cases h with
  | inbound d address recvs =>
      refine Ok.then ?_ fun _ _ => trivial
      refine Ok.bind ((Ok.ends hquiet
        (authenticateClient_quiet d recvs) []).mono ?_)
      rintro tr' (_ | ⟨hs, rest⟩) ⟨-, own, hown, hsub⟩
      · trivial
      · refine Ok.then ?_ fun _ _ => trivial
        exact hregister d address
          ((authenticateClient_ends hown).2.mono hsub)
  | outbound d address recvs =>
      refine Ok.then ?_ fun _ _ => trivial
      refine Ok.bind ((Ok.ends hquiet
        (authenticateServer_quiet d recvs) []).mono ?_)
      rintro tr' (_ | ⟨hs, rest⟩) ⟨-, own, hown, hsub⟩
      · trivial
      · refine Ok.then ?_ fun _ _ => trivial
        exact hregister d address
          ((authenticateServer_ends hown).2.mono hsub)
  | gossip activityAt g =>
      intro tr s _ htr _
      have hstill : Quiet .activity s s := ⟨rfl, nofun, nofun⟩
      refine ⟨htr.quiet hstill, ?_⟩
      intro tr' s' _ htr' _
      exact ⟨along_append.2 ⟨htr', nofun⟩, trivial⟩

-- ============== pins

/-- The node is in the table under the keys of this handshake. -/
def Pinned (hs : Handshake) (s : LinkState) : Prop :=
  ∃ known, s.routingTable.getNode hs.nodeId = some known
    ∧ known.publicKey = hs.publicKey
    ∧ known.identityPublicKey = some hs.identityPublicKey

/-- Two handshakes of one node under different keys. -/
def Conflicts (hs hs' : Handshake) : Prop :=
  hs'.nodeId = hs.nodeId ∧ (hs'.publicKey ≠ hs.publicKey
    ∨ hs'.identityPublicKey ≠ hs.identityPublicKey)

/-- Between a handshake's check and its add, other keys were added for
its node. -/
def Raced (tr : LinkTrace) : Prop :=
  ∃ hs hs' s₁ s₂ s₃ before between between' after,
    tr = before ++ (.check hs, s₁) :: (between ++ (.add hs', s₂)
        :: (between' ++ (.add hs, s₃) :: after))
      ∧ s₁.routingTable.continues hs = true ∧ Conflicts hs hs'

theorem Raced.append {tr : LinkTrace} (h : Raced tr)
    (t : Step LinkAct LinkState) : Raced (tr ++ [t]) := by
  obtain ⟨hs, hs', s₁, s₂, s₃, a, b, c, e, rfl, hok, hconf⟩ := h
  exact ⟨hs, hs', s₁, s₂, s₃, a, b, c, e ++ [t], by simp, hok, hconf⟩

/-- A handshake that continues a pinned table has the pinned keys. -/
theorem Pinned.not_conflicts {hs hs' : Handshake} {s : LinkState}
    (h : Pinned hs s) (hok : s.routingTable.continues hs' = true) :
    ¬ Conflicts hs hs' := by
  rintro ⟨hid, hkeys⟩
  obtain ⟨known, hknown, hpublic, hidentity⟩ := h
  rw [RoutingTable.continues, hid, hknown] at hok
  simp only [hpublic, hidentity, Bool.and_eq_true, beq_iff_eq] at hok
  rcases hkeys with hne | hne
  · exact hne hok.1.symm
  · exact hne hok.2.symm

/-- One section leaves a pin in place, unless it adds other keys. -/
theorem Pinned.step {hs : Handshake} {l : LinkAct} {s s' : LinkState}
    (h : Pinned hs s) (hstep : TableStep P json l s s')
    (hadd : ∀ hs', l = .add hs' → ¬ Conflicts hs hs') : Pinned hs s' := by
  obtain ⟨known, hknown, hpublic, hidentity⟩ := h
  cases l with
  | add hs' =>
      obtain ⟨address, htable⟩ := hstep
      by_cases hid : hs'.nodeId = hs.nodeId
      · have hsame : hs'.publicKey = hs.publicKey
            ∧ hs'.identityPublicKey = hs.identityPublicKey := by
          have hnot := hadd hs' rfl
          simpa [Conflicts, hid, not_or] using hnot
        by_cases hours : hs'.nodeId = s.routingTable.ourNodeId
        · refine ⟨known, ?_, hpublic, hidentity⟩
          have hkept : ¬ (hs'.asKnown address).nodeId
              ≠ s.routingTable.ourNodeId := not_ne_iff.2 hours
          rw [htable, RoutingTable.addNode, if_neg hkept]
          exact hknown
        · refine ⟨hs'.asKnown address, ?_, hsame.1, ?_⟩
          · rw [htable, ← hid]
            exact RoutingTable.getNode_addNode_self hours
          · exact congrArg some hsame.2
      · refine ⟨known, ?_, hpublic, hidentity⟩
        rw [htable, RoutingTable.getNode_addNode_ne (Ne.symm hid)]
        exact hknown
  | gossip g =>
      refine ⟨known, ?_, hpublic, hidentity⟩
      rw [show s'.routingTable = _ from hstep]
      exact RoutingTable.getNode_processGossip hknown g
  | _ =>
      refine ⟨known, ?_, hpublic, hidentity⟩
      rw [show s'.routingTable = _ from hstep]
      exact hknown

/-- In a run without a race, the states that the sections after an add
find, and the state it ends in, have the node under the added keys. -/
theorem pinned_after {s₀ s : LinkState} {ps : List (Link Unit)}
    {tr : LinkTrace}
    (h : Reach (Opening P json) (fun _ _ => True) s₀ s ps tr)
    (hrace : ¬ Raced tr) {pre post : LinkTrace} {hs : Handshake}
    {s₁ : LinkState} (htr : tr = pre ++ (.add hs, s₁) :: post)
    (hother : hs.nodeId ≠ s₁.routingTable.ourNodeId) :
    Pinned hs s ∧ ∀ t ∈ post, Pinned hs t.2 := by
  induction h generalizing pre post hs s₁ with
  | init => exact absurd (congrArg List.length htr) (by simp)
  | spawn p hp _ ih => exact ih hrace htr hother
  | @exec s tr ps₁ ps₂ l upd next hreach hC ih =>
      have hrun := Reach.exec ps₁ ps₂ l upd next hreach hC
      have hstep : TableStep P json l s (upd s) :=
        hrun.guaranteed (fun p hp => hp.tableStep) (l, s, upd s)
          (by simp [transitions_append])
      rcases cut_append htr with ⟨rfl, hx, rfl⟩ | ⟨post', htr', rfl⟩
      · -- the add itself
        obtain ⟨rfl, rfl⟩ := Prod.mk.inj hx
        obtain ⟨address, htable⟩ := hstep
        refine ⟨⟨hs.asKnown address, ?_, rfl, rfl⟩, by simp⟩
        rw [htable]
        exact RoutingTable.getNode_addNode_self hother
      · -- a later section
        obtain ⟨hpinned, hpost⟩ :=
          ih (fun hr => hrace (hr.append _)) htr' hother
        refine ⟨hpinned.step hstep ?_, ?_⟩
        · rintro hs' rfl hconf
          have hvouched := (hrun.invariant (along_nil _)
            fun p hp => hp.vouched).1
          obtain ⟨w, hmem, hok⟩ :=
            (along_append.1 hvouched).2 hs' rfl
          simp only [htr', List.mem_append, List.mem_cons,
            List.not_mem_nil, or_false, Prod.mk.injEq, reduceCtorEq,
            false_and, false_or] at hmem
          rcases hmem with hmem | hmem
          · -- checked before the add, added after it: a race
            obtain ⟨a, b, rfl⟩ := List.append_of_mem hmem
            refine hrace ⟨hs', hs, w, s₁, s, a, b, post', [], ?_, hok, ?_⟩
            · rw [htr']
              simp
            · exact ⟨hconf.1.symm, hconf.2.imp Ne.symm Ne.symm⟩
          · -- checked after the add: the check saw the pin
            exact (hpost (.check hs', w) hmem).not_conflicts hok hconf
        · intro t ht
          rcases List.mem_append.1 ht with ht | ht
          · exact hpost t ht
          · rw [List.mem_singleton.1 ht]
            exact hpinned

/-- In every run of handshakes and gossip in which no handshake's check
and add are raced, once a handshake has written a node into the table no
later state has the node under another identity key or another mix
key. -/
theorem pins_immutable (P : Prims) (json : List KnownNode → List UInt8)
    (s₀ s : LinkState) (ps : List (Link Unit)) (tr : LinkTrace)
    (h : Reach (Opening P json) (fun _ _ => True) s₀ s ps tr)
    (hrace : ¬ Raced tr) (pre post : LinkTrace) (hs : Handshake)
    (s₁ : LinkState) (htr : tr = pre ++ (.add hs, s₁) :: post)
    (hother : hs.nodeId ≠ s₁.routingTable.ourNodeId) :
    ∀ t ∈ post.map Prod.snd ++ [s], ∀ known,
      t.routingTable.getNode hs.nodeId = some known →
        known.identityPublicKey = some hs.identityPublicKey
          ∧ known.publicKey = hs.publicKey := by
  obtain ⟨hlast, hpost⟩ := pinned_after h hrace htr hother
  have hpinned : ∀ t ∈ post.map Prod.snd ++ [s], Pinned hs t := by
    intro t ht
    rcases List.mem_append.1 ht with ht | ht
    · obtain ⟨step, hstep, rfl⟩ := List.mem_map.1 ht
      exact hpost step hstep
    · rw [List.mem_singleton.1 ht]
      exact hlast
  intro t ht known hknown
  obtain ⟨known', hknown', hpublic, hidentity⟩ := hpinned t ht
  obtain rfl := Option.some.inj (hknown.symm.trans hknown')
  exact ⟨hidentity, hpublic⟩

-- ==== two dials at the same time

/-- A dial that runs to its end. -/
def dial (recvs : List (List UInt8)) : Link Unit := do
  let _ ← connectToPeer .plain quietDial "" recvs

/-- What is left of a dial once its server is authenticated. -/
def dialTail (hs : Handshake) (recvs : List (List UInt8)) : Link Unit := do
  let _ ← (do registerPeer quietDial "" hs
              return (.ok ⟨hs.nodeId, recvs⟩ : Except String Established))

/-- The nonces after one more was found fresh. -/
def nonceCache (nonce : UInt8) (cache : FMap (Bytes 32) Nat) :
    FMap (Bytes 32) Nat :=
  (TransportState.checkNonceCache (quietEnv 0 0) (Bytes.fill 32 nonce)
    cache).2

/-- The state after a dial's checks. -/
def dialed (nonce : UInt8) (s : LinkState) : LinkState :=
  let cache := nonceCache (nonce + 1) (nonceCache nonce s.handshakeNonces)
  { s with handshakeNonces := cache }

/-- Runs of dials from a node that knows nobody. -/
abbrev QuietReach := Reach (Opening .plain fun _ => []) (fun _ _ => True)
  quietLink

/-- A dial gets its server authenticated before anything else happens. -/
theorem reach_dialTail {s : LinkState} (ps₁ ps₂ : List (Link Unit))
    {tr : LinkTrace} {key nonce : UInt8}
    (hopening : (TransportState.checkNonceCache (quietEnv 0 0)
      (Bytes.fill 32 nonce) s.handshakeNonces).1 = true)
    (hfresh : (TransportState.checkNonceCache (quietEnv 0 0)
      (Bytes.fill 32 (nonce + 1)) (nonceCache nonce
        s.handshakeNonces)).1 = true)
    (hknown : s.routingTable.continues (quietServer key nonce) = true)
    (h : QuietReach s (ps₁ ++ dial (dialRecvs key nonce [] []) :: ps₂)
      tr) :
    ∃ tr', QuietReach (dialed nonce s)
        (ps₁ ++ dialTail (quietServer key nonce) [] :: ps₂) (tr ++ tr')
      ∧ ∀ hs s, (.add hs, s) ∉ tr' := by
  have hcheck : TransportState.checkNonceCache (quietEnv 0 0)
      (Bytes.fill 32 nonce) s.handshakeNonces
      = (true, nonceCache nonce s.handshakeNonces) := Prod.ext hopening rfl
  obtain ⟨hout, hpost⟩ := quietDial_alone [] [] hcheck hfresh hknown
  rw [dial, connectToPeer, bind_assoc] at h
  obtain ⟨tr', hreach, hacts⟩ :=
    Reach.drain_part (fun _ _ => trivial) _ _ _ _ _ _ h
  rw [hout, hpost] at hreach
  refine ⟨tr', hreach, fun hs t hmem => ?_⟩
  have hact := List.mem_map_of_mem (f := Prod.fst) hmem
  rw [hacts] at hact
  obtain ⟨s₁, s₂, hquiet⟩ :=
    (authenticateServer_quiet quietDial _).of_mem_acts hact
  exact hquiet.2.1 hs rfl

/-- The state after an authenticated server was added. -/
def added (hs : Handshake) (s : LinkState) : LinkState :=
  { s with routingTable := s.routingTable.addNode (hs.asKnown "") }

/-- Then its server can be added. -/
theorem reach_added {s : LinkState} (ps₁ ps₂ : List (Link Unit))
    {tr : LinkTrace} {hs : Handshake} {recvs : List (List UInt8)}
    (h : QuietReach s (ps₁ ++ dialTail hs recvs :: ps₂) tr) :
    ∃ p, QuietReach (added hs s) (ps₁ ++ p :: ps₂)
      (tr ++ [(.add hs, s)]) :=
  ⟨_, Reach.exec ps₁ ps₂ (.add hs) (added hs) _ h trivial⟩

theorem reach_dial {s : LinkState} {ps : List (Link Unit)}
    {tr : LinkTrace} (recvs : List (List UInt8)) (h : QuietReach s ps tr) :
    QuietReach s (dial recvs :: ps) tr :=
  .spawn _ (.outbound quietDial "" recvs) h

/-- The node is dialed twice at the same time, each dial is checked before
the other is added, and gossip has it under other keys: both dials found
the same keys, so they do not race, and the pin stays. -/
theorem pins_immutable_redialed :
    ∃ s ps tr pre s₁ post, QuietReach s ps tr ∧ ¬ Raced tr
      ∧ tr = pre ++ (.add (quietServer 5 1), s₁) :: post
      ∧ (∃ s₂, (.add (quietServer 5 3), s₂) ∈ post)
      ∧ (∃ s₃, (.gossip (rumourGossip 6), s₃) ∈ post)
      ∧ ∀ t ∈ post.map Prod.snd ++ [s], ∀ known,
        t.routingTable.getNode (quietServer 5 1).nodeId = some known →
          known.identityPublicKey
              = some (quietServer 5 1).identityPublicKey
            ∧ known.publicKey = (quietServer 5 1).publicKey := by
  have hspawn := reach_dial (dialRecvs 5 1 [] [])
    (reach_dial (dialRecvs 5 3 [] []) .init)
  obtain ⟨tr, hchecked, hnone⟩ := reach_dialTail []
    [dial (dialRecvs 5 3 [] [])] rfl (by decide) rfl hspawn
  obtain ⟨tr', hboth, hnone'⟩ := reach_dialTail
    [dialTail (quietServer 5 1) []] [] (by decide) (by decide) rfl hchecked
  obtain ⟨p, hone⟩ := reach_added [] [dialTail (quietServer 5 3) []] hboth
  obtain ⟨q, htwo⟩ := reach_added [p] [] hone
  obtain ⟨heard, hgossip, hacts⟩ := htwo.sequential (fun _ _ => trivial)
    (.gossip 0 (rumourGossip 6))
  -- both adds are of the same keys
  have hkeys : ∀ hs t, (.add hs, t) ∈ [] ++ tr ++ tr'
      ++ [(.add (quietServer 5 1), dialed 3 (dialed 1 quietLink))]
      ++ [(.add (quietServer 5 3), added (quietServer 5 1)
        (dialed 3 (dialed 1 quietLink)))] ++ heard →
      hs.publicKey = Bytes.fill 32 5
        ∧ hs.identityPublicKey = Bytes.fill 32 5 := by
    intro hs t hmem
    simp only [List.mem_append, List.mem_singleton, List.not_mem_nil,
      false_or, Prod.mk.injEq, LinkAct.add.injEq] at hmem
    rcases hmem with (((hmem | hmem) | ⟨rfl, -⟩) | ⟨rfl, -⟩) | hmem
    · exact absurd hmem (hnone hs t)
    · exact absurd hmem (hnone' hs t)
    · exact ⟨rfl, rfl⟩
    · exact ⟨rfl, rfl⟩
    · have hact := List.mem_map_of_mem (f := Prod.fst) hmem
      rw [hacts] at hact
      rcases List.mem_pair.1 hact with h | h <;> cases h
  have hrace : ¬ Raced ([] ++ tr ++ tr'
      ++ [(.add (quietServer 5 1), dialed 3 (dialed 1 quietLink))]
      ++ [(.add (quietServer 5 3), added (quietServer 5 1)
        (dialed 3 (dialed 1 quietLink)))] ++ heard) := by
    rintro ⟨hs, hs', s₁, s₂, s₃, a, b, c, e, htr, -, -, hne⟩
    have hlast := hkeys hs s₃ (by rw [htr]; simp)
    have hfirst := hkeys hs' s₂ (by rw [htr]; simp)
    rcases hne with hne | hne
    · exact hne (hfirst.1.trans hlast.1.symm)
    · exact hne (hfirst.2.trans hlast.2.symm)
  have hsplit : [] ++ tr ++ tr'
      ++ [(.add (quietServer 5 1), dialed 3 (dialed 1 quietLink))]
      ++ [(.add (quietServer 5 3), added (quietServer 5 1)
        (dialed 3 (dialed 1 quietLink)))] ++ heard
      = ([] ++ tr ++ tr')
        ++ (.add (quietServer 5 1), dialed 3 (dialed 1 quietLink))
          :: ((.add (quietServer 5 3), added (quietServer 5 1)
            (dialed 3 (dialed 1 quietLink))) :: heard) := by
    simp only [List.append_assoc, List.cons_append, List.nil_append]
  have hrumour : LinkAct.gossip (rumourGossip 6) ∈ heard.map Prod.fst := by
    rw [hacts]
    exact List.mem_cons_of_mem _ List.mem_cons_self
  obtain ⟨⟨l, s₃⟩, hmem, rfl⟩ := List.mem_map.1 hrumour
  exact ⟨_, _, _, _, _, _, hgossip, hrace, hsplit,
    ⟨_, List.mem_cons_self⟩, ⟨s₃, List.mem_cons_of_mem _ hmem⟩,
    pins_immutable _ _ _ _ _ _ hgossip hrace _ _ _ _ hsplit (by decide)⟩

/-- Two dials reach servers that present themselves as one node under
two sets of keys. Both are authenticated against an empty table, both
are added, and the keys of the first are gone. -/
theorem both_added :
    ∃ s ps tr, QuietReach s ps tr
      ∧ (∃ pre s₁ post, tr = pre ++ (.add (quietServer 5 1), s₁) :: post
        ∧ (quietServer 5 1).nodeId ≠ s₁.routingTable.ourNodeId)
      ∧ ∃ known, s.routingTable.getNode (quietServer 5 1).nodeId
          = some known
        ∧ known.identityPublicKey
          ≠ some (quietServer 5 1).identityPublicKey
        ∧ known.publicKey ≠ (quietServer 5 1).publicKey := by
  have hspawn := reach_dial (dialRecvs 5 1 [] [])
    (reach_dial (dialRecvs 6 3 [] []) .init)
  obtain ⟨tr, hchecked, -⟩ := reach_dialTail []
    [dial (dialRecvs 6 3 [] [])] rfl (by decide) rfl hspawn
  obtain ⟨tr', hboth, -⟩ := reach_dialTail [dialTail (quietServer 5 1) []]
    [] (by decide) (by decide) rfl hchecked
  obtain ⟨p, hone⟩ := reach_added [] [dialTail (quietServer 6 3) []] hboth
  obtain ⟨q, htwo⟩ := reach_added [p] [] hone
  refine ⟨_, _, _, htwo, ⟨_, _, _, List.append_assoc _ _ _, ?_⟩, ?_⟩
  · decide
  · exact ⟨(quietServer 6 3).asKnown "", rfl, by decide, by decide⟩

end StaticNet
