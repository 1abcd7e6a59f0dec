/-
Whole runs of the network: what was sent comes out at the end of the
route, each body at most once, and all of them when everything was
delivered.
-/
import StaticNet.Node.Proofs.Shipment
import StaticNet.Sphinx.Replay

namespace StaticNet

section Runs

variable {P : Prims} {S : Shipment}
  {J : List Nat → ReassemblyManager → List Outcome → Prop} {net : MixNet}
  {ks : List Nat} {legs : List Leg} {timely : Reading → Prop}
  {quiet : ReassemblyManager → ReassemblyManager → Prop}

namespace Shipment

-- ============== runs

/-- Every allowed move keeps the invariant. -/
theorem Sound.step (hb : S.Built P) (hJ : Collects S J timely quiet)
    (h : Sound P S J net ks legs) {mv : NetMove}
    (hallowed : S.Allowed P timely quiet net mv) :
    ∃ ks' legs', Sound P S J (net.step P mv) ks' legs'
      ∧ (S.Linked net.nodes → Kept P S net.nodes legs →
        Kept P S (net.step P mv).nodes legs') := by
  cases mv with
  | deliver i r => exact h.deliver hb hJ hallowed
  | other id s =>
      obtain ⟨hs, hquiet⟩ := hallowed
      refine ⟨ks, legs, h.unrelated hs fun hid => ?_, fun _ hkept => ?_⟩
      · subst hid
        exact hJ.quiet ks _ _ _ h.collected (hquiet rfl)
      · refine hkept.extend (List.Subset.refl _) ?_
        intro k hk l next rest hsuf hseen
        exact .inl ((seen_unrelated hs hk
          (hsuf.subset List.mem_cons_self)).1 hseen)

/-- And so does every allowed run. -/
theorem Sound.run (hb : S.Built P) (hJ : Collects S J timely quiet)
    {moves : List NetMove} (h : Sound P S J net ks legs)
    (hall : S.AllAllowed P timely quiet net moves) :
    ∃ ks' legs', Sound P S J (net.run P moves) ks' legs'
      ∧ (S.AllLinked P net moves → Kept P S net.nodes legs →
        Kept P S (net.run P moves).nodes legs') := by
  induction moves generalizing net ks legs with
  | nil => exact ⟨ks, legs, h, fun _ hkept => hkept⟩
  | cons mv moves ih =>
      obtain ⟨hone, hrest⟩ := hall
      obtain ⟨ks', legs', hsound, hkeeps⟩ := h.step hb hJ hone
      obtain ⟨ks'', legs'', hsound', hkeeps'⟩ := ih hsound hrest
      exact ⟨ks'', legs'', hsound', fun hlinked hkept =>
        hkeeps' hlinked.2 (hkeeps hlinked.1 hkept)⟩

/-- Once everything was delivered, all bodies have come out. -/
theorem Kept.complete (h : Sound P S J net ks legs)
    (hkept : Kept P S net.nodes legs) (hsettled : net.Settled) {k : Nat}
    (hk : k < S.bodies.length) : k ∈ ks := by
  have hseen : ∀ leg ∈ legs, Seen P net.nodes leg.layer := by
    intro leg hmem
    obtain ⟨i, hi, hget⟩ := List.mem_iff_getElem.1 hmem
    obtain ⟨leg', hleg', hseen⟩ :=
      h.crossed i (hsettled i (h.sent.length_eq ▸ hi))
    rw [List.getElem?_eq_getElem hi, hget] at hleg'
    rwa [Option.some.inj hleg']
  -- along the packet, from its first layer on
  have hleg : ∀ (passed : List Layer) (l : Layer) (rest : List Layer),
      S.layers P k = passed ++ l :: rest → ⟨k, l, rest⟩ ∈ legs := by
    intro passed
    induction passed using List.reverseRecOn with
    | nil => exact fun l rest hsplit => hkept.started k hk l rest hsplit
    | append_singleton passed before ih =>
        intro l rest hsplit
        rw [List.append_assoc] at hsplit
        exact hkept.passed k hk before l rest ⟨passed, hsplit.symm⟩
          (hseen _ (ih before (l :: rest) hsplit))
  refine (h.arrived k).2 ⟨hk, fun l hlast => ?_⟩
  have hsplit := List.dropLast_append_getLast? l hlast
  exact hseen _ (hleg _ l [] hsplit.symm)

end Shipment

end Runs

-- ======== deliveries

/-- Deliver what was sent at these indices, one after the other. -/
def deliveries (r : Reading) (is : List Nat) : List NetMove :=
  is.map (NetMove.deliver · r)

section Deliveries

variable {P : Prims} {net₀ net : MixNet} {m : Nat} {r : Reading}

/-- A packet leaves a tag more at a node at most, and goes on to a peer of
it at most. -/
theorem handleSphinx_few (P : Prims) (s : MessageState) (sender id : NodeId)
    (r : Reading) (packet : SphinxPacket) :
    let out := handleSphinx P s sender r packet
    let letters := (out.1.toOption.getD []).filterMap (Outcome.letter id)
    out.2.connections = s.connections
      ∧ out.2.mixNode.seenTags.card ≤ s.mixNode.seenTags.card + 1
      ∧ (letters = [] ∨ ∃ next ∈ s.connections, ∃ fwd,
        letters = [⟨id, next, .sphinx fwd⟩]) := by
  have htags : (processPacketHybridWithKeys P s.mixNode s.kemSecret packet
      r.draws).2.seenTags.card ≤ s.mixNode.seenTags.card + 1 := by
    rcases (MixCall.step_tags P s.mixNode
      (.hybrid s.kemSecret packet r.draws)).2 with ⟨-, h⟩ | ⟨t, -, -, h⟩
    · exact (congrArg (·.seen.card) h).trans_le (Nat.le_succ _)
    · exact (congrArg (·.seen.card) h).trans_le (Fifo.card_push_le t)
  unfold handleSphinx
  generalize processPacketHybridWithKeys P s.mixNode s.kemSecret packet
    r.draws = processed at htags
  obtain ⟨result, node⟩ := processed
  split
  · exact ⟨rfl, Nat.le_succ _, .inl rfl⟩
  cases result with
  | error e => exact ⟨rfl, htags, .inl rfl⟩
  | ok outcome =>
      obtain ⟨nextHop, flag, fwd, body⟩ := outcome
      cases flag with
      | destination =>
          cases body with
          | none => exact ⟨rfl, htags, .inl rfl⟩
          | some body =>
              obtain ⟨requests, hstate⟩ := handleBody_state
                { s with mixNode := node } sender body r.requestAt
              refine ⟨?_, ?_, .inl (handleBody_stays _ sender id body
                r.requestAt).1⟩
              · show (handleBody _ sender body r.requestAt).2.connections = _
                rw [hstate]
              · show (handleBody _ sender body
                  r.requestAt).2.mixNode.seenTags.card ≤ _
                rw [hstate]
                exact htags
      | forward =>
          cases fwd with
          | none => exact ⟨rfl, htags, .inl rfl⟩
          | some fwd =>
              refine ⟨rfl, htags, ?_⟩
              by_cases hconn : nextHop ∈ s.connections
              · refine .inr ⟨nextHop, hconn, fwd, ?_⟩
                show ((MessageState.forward { s with mixNode := node }
                  nextHop (.sphinx fwd)).filterMap (Outcome.letter id)) = _
                rw [MessageState.forward, if_pos hconn]
                rfl
              · refine .inl ?_
                show ((MessageState.forward { s with mixNode := node }
                  nextHop (.sphinx fwd)).filterMap (Outcome.letter id)) = _
                rw [MessageState.forward, if_neg hconn]
                rfl

/-- One delivery of a packet, told by what it adds. -/
theorem MixNet.deliver_packet {i : Nat} {letter : Letter}
    {packet : SphinxPacket} (hget : net.sent[i]? = some letter)
    (hmsg : letter.msg = .sphinx packet) :
    ∃ s new,
      (net.deliver P i r).nodes
          = Function.update net.nodes letter.receiver s
        ∧ (net.deliver P i r).sent = net.sent ++ new
        ∧ (net.deliver P i r).delivered = net.delivered ++ [i]
        ∧ s.connections = (net.nodes letter.receiver).connections
        ∧ s.mixNode.seenTags.card
          ≤ (net.nodes letter.receiver).mixNode.seenTags.card + 1
        ∧ (new = [] ∨ ∃ next ∈ (net.nodes letter.receiver).connections,
          ∃ fwd, new = [⟨letter.receiver, next, .sphinx fwd⟩]) := by
  have hout : handleMessage P (net.nodes letter.receiver) letter.sender r
      letter.msg = handleSphinx P ((net.nodes letter.receiver).noteActivity
        letter.sender r.activityAt) letter.sender r packet := by
    rw [hmsg]
    rfl
  obtain ⟨hconn, htags, hnew⟩ := handleSphinx_few P
    ((net.nodes letter.receiver).noteActivity letter.sender r.activityAt)
    letter.sender letter.receiver r packet
  rw [MixNet.deliver_eq hget hout]
  exact ⟨_, _, rfl, rfl, rfl, hconn, htags, hnew⟩

/-- What at most `m` deliveries of packets make of a network. -/
structure MixNet.Grown (net₀ : MixNet) (m : Nat) (net : MixNet) :
    Prop where
  packets : ∀ letter ∈ net.sent, ∃ packet, letter.msg = .sphinx packet
  connections : ∀ id,
    (net.nodes id).connections = (net₀.nodes id).connections
  tags : ∀ id, (net.nodes id).mixNode.seenTags.card
    ≤ (net₀.nodes id).mixNode.seenTags.card + m
  letters : net.sent.length ≤ net₀.sent.length + m
  onward : ∀ i letter, net.sent[i]? = some letter →
    i < net₀.sent.length ∨ ∃ id, letter.receiver ∈ (net₀.nodes id).connections

namespace MixNet

theorem grown_self (h : ∀ letter ∈ net.sent, ∃ packet,
    letter.msg = .sphinx packet) : net.Grown 0 net where
  packets := h
  connections _ := rfl
  tags _ := Nat.le_refl _
  letters := Nat.le_refl _
  onward _ _ hget := .inl (List.getElem?_eq_some_iff.1 hget).1

theorem Grown.mono {m' : Nat} (h : net₀.Grown m net) (hle : m ≤ m') :
    net₀.Grown m' net :=
  ⟨h.packets, h.connections, fun id => (h.tags id).trans (by omega),
    h.letters.trans (by omega), h.onward⟩

theorem Grown.deliver (h : net₀.Grown m net) (i : Nat) :
    net₀.Grown (m + 1) (net.deliver P i r) := by
  cases hget : net.sent[i]? with
  | none =>
      have hsame : net.deliver P i r = net := by
        unfold MixNet.deliver
        simp only [hget]
      rw [hsame]
      exact h.mono (Nat.le_succ m)
  | some letter =>
      obtain ⟨packet, hmsg⟩ := h.packets _ (List.mem_of_getElem? hget)
      obtain ⟨s, new, hnodes, hsent, -, hconn, htags, hnew⟩ :=
        deliver_packet (P := P) (r := r) hget hmsg
      have hone : new.length ≤ 1 := by
        rcases hnew with rfl | ⟨_, _, _, rfl⟩
        · exact Nat.zero_le 1
        · exact Nat.le_refl 1
      refine ⟨?_, fun id => ?_, fun id => ?_, ?_, ?_⟩
      · rw [hsent]
        intro letter' hmem
        rcases List.mem_append.1 hmem with hmem | hmem
        · exact h.packets letter' hmem
        · rcases hnew with rfl | ⟨_, _, fwd, rfl⟩
          · cases hmem
          · obtain rfl := List.mem_singleton.1 hmem
            exact ⟨fwd, rfl⟩
      · rw [hnodes, ← h.connections id]
        by_cases hid : id = letter.receiver
        · rw [hid, Function.update_self, hconn]
        · rw [Function.update_of_ne hid]
      · have hold := h.tags id
        rw [hnodes]
        by_cases hid : id = letter.receiver
        · subst hid
          rw [Function.update_self]
          omega
        · rw [Function.update_of_ne hid]
          omega
      · have hold := h.letters
        rw [hsent, List.length_append]
        omega
      · rw [hsent]
        intro j letter' hj
        by_cases hlt : j < net.sent.length
        · rw [List.getElem?_append_left hlt] at hj
          exact h.onward j letter' hj
        · rw [List.getElem?_append_right (Nat.le_of_not_lt hlt)] at hj
          have hmem := List.mem_of_getElem? hj
          rcases hnew with rfl | ⟨next, hnext, fwd, rfl⟩
          · cases hmem
          · obtain rfl := List.mem_singleton.1 hmem
            rw [h.connections] at hnext
            exact .inr ⟨_, hnext⟩

theorem run_append (moves moves' : List NetMove) :
    net.run P (moves ++ moves') = (net.run P moves).run P moves' := by
  induction moves generalizing net with
  | nil => rfl
  | cons mv moves ih => exact ih

theorem Grown.deliveries (h : net₀.Grown m net) (is : List Nat) :
    net₀.Grown (m + is.length) (net.run P (deliveries r is)) := by
  induction is generalizing net m with
  | nil => exact h
  | cons i is ih =>
      rw [List.length_cons, Nat.add_comm is.length 1, ← Nat.add_assoc]
      exact ih (h.deliver i)

/-- What was delivered stays so, and what is delivered here is. -/
theorem Grown.mem_delivered (h : net₀.Grown m net) {is : List Nat} {i : Nat}
    (hi : i ∈ net.delivered ∨ (i ∈ is ∧ i < net.sent.length)) :
    i ∈ (net.run P (StaticNet.deliveries r is)).delivered := by
  induction is generalizing net m with
  | nil => exact hi.resolve_right fun h => List.not_mem_nil h.1
  | cons j is ih =>
      refine ih (h.deliver j) ?_
      cases hget : net.sent[j]? with
      | none =>
          have hsame : net.deliver P j r = net := by
            unfold MixNet.deliver
            simp only [hget]
          show i ∈ (net.deliver P j r).delivered
            ∨ (i ∈ is ∧ i < (net.deliver P j r).sent.length)
          rw [hsame]
          refine hi.imp_right fun ⟨hmem, hlt⟩ => ⟨?_, hlt⟩
          rcases List.mem_cons.1 hmem with rfl | hmem
          · rw [List.getElem?_eq_getElem hlt] at hget
            cases hget
          · exact hmem
      | some letter =>
          obtain ⟨packet, hmsg⟩ := h.packets _ (List.mem_of_getElem? hget)
          obtain ⟨s, new, -, hsent, hdelivered, -⟩ :=
            deliver_packet (P := P) (r := r) hget hmsg
          show i ∈ (net.deliver P j r).delivered
            ∨ (i ∈ is ∧ i < (net.deliver P j r).sent.length)
          rw [hsent, hdelivered, List.length_append]
          rcases hi with hi | ⟨hmem, hlt⟩
          · exact .inl (List.mem_append_left _ hi)
          · rcases List.mem_cons.1 hmem with rfl | hmem
            · exact .inl (List.mem_append_right _ (List.mem_singleton.2 rfl))
            · exact .inr ⟨hmem, by omega⟩

/-- From nodes without peers nothing goes on. -/
theorem Grown.dead_ends (h : net₀.Grown m net) {is : List Nat}
    (hend : ∀ i ∈ is, ∀ letter, net.sent[i]? = some letter →
      (net₀.nodes letter.receiver).connections = ∅) :
    (net.run P (StaticNet.deliveries r is)).sent = net.sent := by
  induction is generalizing net m with
  | nil => rfl
  | cons i is ih =>
      have hsame : (net.deliver P i r).sent = net.sent := by
        cases hget : net.sent[i]? with
        | none =>
            unfold MixNet.deliver
            simp only [hget]
        | some letter =>
            obtain ⟨packet, hmsg⟩ := h.packets _ (List.mem_of_getElem? hget)
            obtain ⟨s, new, -, hsent, -, -, -, hnew⟩ :=
              deliver_packet (P := P) (r := r) hget hmsg
            rw [h.connections,
              hend i List.mem_cons_self letter hget] at hnew
            rcases hnew with rfl | ⟨_, hnext, -⟩
            · rw [hsent, List.append_nil]
            · exact absurd hnext (Finset.notMem_empty _)
      refine (ih (h.deliver i) fun j hj letter hget => ?_).trans hsame
      rw [hsame] at hget
      exact hend j (List.mem_cons_of_mem _ hj) letter hget

/-- Where no peer of a node has peers, two rounds settle everything: what
was there, and what has come of it. -/
theorem settled_rounds (hpackets : ∀ letter ∈ net.sent, ∃ packet,
      letter.msg = .sphinx packet)
    (hend : ∀ id, ∀ next ∈ (net.nodes id).connections,
      (net.nodes next).connections = ∅)
    {first last : List Nat} (hfirst : ∀ i < net.sent.length, i ∈ first)
    (hlast : ∀ i ∈ last, net.sent.length ≤ i)
    (hall : ∀ i, net.sent.length ≤ i →
      i < net.sent.length + first.length → i ∈ last) :
    (net.run P (StaticNet.deliveries r (first ++ last))).Settled := by
  have hself := grown_self hpackets
  have hgrown := hself.deliveries (P := P) (r := r) first
  have hsame := hgrown.dead_ends (P := P) (r := r)
    fun i (hi : i ∈ last) letter hget => by
      rcases hgrown.onward i letter hget with hlt | ⟨id, hmem⟩
      · have hle := hlast i hi
        omega
      · exact hend id _ hmem
  unfold StaticNet.deliveries at hsame hgrown ⊢
  rw [List.map_append, run_append]
  intro i hi
  rw [hsame] at hi
  have hlen := hgrown.letters
  refine hgrown.mem_delivered (r := r) ?_
  by_cases hlt : i < net.sent.length
  · exact .inl (hself.mem_delivered (.inr ⟨hfirst i hlt, hlt⟩))
  · exact .inr ⟨hall i (Nat.le_of_not_lt hlt) (by omega), hi⟩

end MixNet

variable {S : Shipment} {timely : Reading → Prop}
  {quiet : ReassemblyManager → ReassemblyManager → Prop}

namespace Shipment

/-- Deliveries are allowed as long as every memory has room. -/
theorem allAllowed_deliveries (h : net₀.Grown m net) {is : List Nat}
    (htimely : timely r) (hroom : ∀ id,
      (net₀.nodes id).mixNode.seenTags.card + m + is.length
        ≤ MAX_SEEN_TAGS) :
    S.AllAllowed P timely quiet net (deliveries r is) := by
  induction is generalizing net m with
  | nil => trivial
  | cons i is ih =>
      refine ⟨⟨htimely, fun letter _ st _ _ hfull => ?_⟩,
        ih (h.deliver i) fun id => ?_⟩
      · have htags := h.tags letter.receiver
        have hlt := hroom letter.receiver
        rw [List.length_cons] at hlt
        omega
      · have hlt := hroom id
        rw [List.length_cons] at hlt
        omega

/-- Deliveries cut no connection. -/
theorem allLinked_deliveries (h : net₀.Grown m net) {is : List Nat}
    (hlinked : S.Linked net₀.nodes) :
    S.AllLinked P net (deliveries r is) := by
  induction is generalizing net m with
  | nil =>
      intro a b hab
      rw [h.connections]
      exact hlinked a b hab
  | cons i is ih =>
      refine ⟨fun a b hab => ?_, ih (h.deliver i)⟩
      rw [h.connections]
      exact hlinked a b hab

end Shipment

end Deliveries

-- ========= the start

section Start

variable {P : Prims} {S : Shipment} {nodes : NodeId → MessageState}
  {packets : List SphinxPacket}

theorem createPacketHybrid_ok {d : PacketDraws} {route : HybridRoute}
    {body : List UInt8} {packet : SphinxPacket}
    (h : createPacketHybrid P d route body = .ok packet) :
    route.hops ≠ [] ∧ route.hops.length ≤ MAX_HOPS
      ∧ body.length ≤ BODY_SIZE
      ∧ ∃ layers, hybridLayers P d route.hops = .ok layers
        ∧ packet =
          { header := buildHeader P SPHINX_VERSION_HYBRID d
              route.destination
              (onion P (innerBody P layers route.destination body)) layers
            kemCiphertexts := kemBlock d layers
            body := onion P (innerBody P layers route.destination body)
              layers } := by
  unfold createPacketHybrid at h
  split at h
  · cases h
  next hhops =>
    split at h
    · cases h
    next hbody =>
      split at h
      · cases h
      · rw [not_or] at hhops
        refine ⟨fun hnil => hhops.1 (by rw [hnil]; rfl),
          Nat.le_of_not_lt hhops.2, Nat.le_of_not_lt hbody, ?_⟩
        cases hlayers : hybridLayers P d route.hops with
        | error e =>
            rw [hlayers] at h
            cases h
        | ok layers =>
            rw [hlayers] at h
            exact ⟨layers, rfl, (Except.ok.inj h).symm⟩

namespace Shipment

/-- The `k`-th packet is that of the `k`-th body. -/
theorem made (h : bodyPackets P S.draws S.route 0 S.bodies = .ok packets)
    {k : Nat} (hk : k < S.bodies.length) :
    ∃ packet, packets[k]? = some packet
      ∧ createPacketHybrid P (S.draws k) S.route (S.bodies.getD k [])
        = .ok packet := by
  have hall := bodyPackets_get h
  have hlen := hall.length_eq
  rw [List.length_zipIdx] at hlen
  have hget := hall.get (by rwa [List.length_zipIdx]) (hlen ▸ hk)
  refine ⟨_, List.getElem?_eq_getElem (hlen ▸ hk), ?_⟩
  simpa [List.getD_eq_getElem?_getD, List.getElem?_eq_getElem hk]
    using hget

/-- Honest hops open the layers of every packet. -/
theorem opens_of_honest (hdh : P.DhCommutes)
    (h : ∀ hop ∈ S.route.hops, ∀ d, HonestHybrid P
      ⟨(nodes hop.nodeId).mixNode, (nodes hop.nodeId).kemSecret, d⟩ hop)
    (k : Nat) :
    ∃ layers, hybridLayers P (S.draws k) S.route.hops = .ok layers
      ∧ Chained P layers
      ∧ layers.map Layer.nodeId = S.route.hops.map HybridRouteHop.nodeId
      ∧ ∀ l ∈ layers, ∀ d, OpensHybrid P
        ⟨(nodes l.nodeId).mixNode, (nodes l.nodeId).kemSecret, d⟩ l := by
  have hstops : ∀ d : MixDraws, List.Forall₂ (HonestHybrid P)
      (S.route.hops.map fun hop =>
        (⟨(nodes hop.nodeId).mixNode, (nodes hop.nodeId).kemSecret, d⟩ :
          Stop)) S.route.hops := by
    intro d
    rw [List.forall₂_map_left_iff, List.forall₂_same]
    exact fun hop hmem => h hop hmem d
  have hspec := fun d => hybridLayers_honest hdh (d := S.draws k) (hstops d)
  obtain ⟨layers, hlayers, hchain, -, hids⟩ :=
    hspec ⟨fun _ => 0, fun _ => 0, 0⟩
  refine ⟨layers, hlayers, hchain, hids, fun l hl d => ?_⟩
  obtain ⟨layers', hlayers', -, hopens, -⟩ := hspec d
  obtain rfl := Except.ok.inj (hlayers.symm.trans hlayers')
  obtain ⟨i, hi, rfl⟩ := List.mem_iff_getElem.1 hl
  have hlen := hopens.length_eq
  have hopen := hopens.get (hlen ▸ hi) hi
  rw [List.length_map] at hlen
  have hi' : i < S.route.hops.length := hlen ▸ hi
  have hid : layers[i].nodeId = S.route.hops[i].nodeId := by
    have hget := congrArg (·[i]?) hids
    simpa [List.getElem?_map, List.getElem?_eq_getElem hi,
      List.getElem?_eq_getElem hi'] using hget
  rw [hid]
  simpa using hopen

/-- Over honest hops whatever fits is built. -/
theorem packets_of_honest (hdh : P.DhCommutes)
    (h : ∀ hop ∈ S.route.hops, ∀ d, HonestHybrid P
      ⟨(nodes hop.nodeId).mixNode, (nodes hop.nodeId).kemSecret, d⟩ hop)
    (hne : S.route.hops ≠ []) (hmax : S.route.hops.length ≤ MAX_HOPS)
    (hfits : ∀ body ∈ S.bodies, body.length ≤ BODY_SIZE) :
    ∃ packets, bodyPackets P S.draws S.route 0 S.bodies = .ok packets := by
  have hall : ∀ (bodies : List (List UInt8)) (i : Nat),
      (∀ body ∈ bodies, body.length ≤ BODY_SIZE) →
      ∃ packets, bodyPackets P S.draws S.route i bodies = .ok packets := by
    intro bodies
    induction bodies with
    | nil => exact fun _ _ => ⟨[], rfl⟩
    | cons body bodies ih =>
        intro i hbodies
        rw [List.forall_mem_cons] at hbodies
        obtain ⟨rest, hrest⟩ := ih (i + 1) hbodies.2
        obtain ⟨layers, hlayers, -⟩ := opens_of_honest hdh h i
        have hlen := List.length_pos_iff.2 hne
        have hkeys : (S.route.hops.any fun hop =>
            hop.kemPublicKey.length ≠ KEM_PUBLIC_KEY_SIZE) = false := by
          rw [List.any_eq_false]
          intro hop hmem hlt
          exact of_decide_eq_true hlt
            (h hop hmem ⟨fun _ => 0, fun _ => 0, 0⟩).kem_pair.public_length
        rw [bodyPackets, createPacketHybrid, if_neg (by omega),
          if_neg (Nat.not_lt.2 hbodies.1), hkeys, hlayers, hrest]
        exact ⟨_, rfl⟩
  exact hall S.bodies 0 hfits

theorem layers_eq {k : Nat} {layers : List Layer}
    (h : hybridLayers P (S.draws k) S.route.hops = .ok layers) :
    S.layers P k = layers := by
  unfold Shipment.layers
  rw [h]
  rfl

theorem Ready.built (hdh : P.DhCommutes) (haead : P.AeadCorrect)
    (h : S.Ready P nodes) (hne : S.bodies ≠ [])
    (hok : bodyPackets P S.draws S.route 0 S.bodies = .ok packets) :
    S.Built P := by
  have hfits : ∀ {k : Nat}, k < S.bodies.length →
      (S.bodies.getD k []).length ≤ BODY_SIZE := by
    intro k hk
    obtain ⟨packet, -, hmade⟩ := made hok hk
    exact (createPacketHybrid_ok hmade).2.2.1
  refine ⟨fun k hk => innerBody_length haead (hfits hk),
    fun k hk l hl => innerBody_opens haead (hfits hk) hl,
    fun k _ => ?_, fun k _ => ?_, ?_, h.apart⟩
  · obtain ⟨layers, hlayers, hchain, -⟩ := opens_of_honest hdh h.honest k
    rw [layers_eq hlayers]
    exact hchain
  · obtain ⟨layers, hlayers, -, hids, -⟩ := opens_of_honest hdh h.honest k
    rw [layers_eq hlayers]
    exact hids
  · obtain ⟨packet, -, hmade⟩ := made hok (List.length_pos_iff.2 hne)
    exact (createPacketHybrid_ok hmade).1

/-- The packets as they are handed to the first hop: each on its first
leg. -/
theorem Ready.started (hdh : P.DhCommutes) (haead : P.AeadCorrect)
    (h : S.Ready P nodes) (hne : S.bodies ≠ [])
    (hok : bodyPackets P S.draws S.route 0 S.bodies = .ok packets)
    {J : List Nat → ReassemblyManager → List Outcome → Prop}
    (hJ : J [] (nodes S.last).pendingRequests []) :
    ∃ legs, Sound P S J (S.start nodes packets) [] legs
      ∧ Kept P S nodes legs := by
  have hb := h.built hdh haead hne hok
  have hlen : S.bodies.length = packets.length := by
    rw [← (bodyPackets_get hok).length_eq, List.length_zipIdx]
  have hfirst : ∀ k (hk : k < S.bodies.length), ∃ leg : Leg,
      leg.index = k ∧ S.layers P k = leg.layer :: leg.rest
        ∧ ∃ packet, packets[k]? = some packet
          ∧ S.At P leg ⟨S.sender, S.route.firstHop, .sphinx packet⟩ := by
    intro k hk
    obtain ⟨packet, hget, hmade⟩ := made hok hk
    obtain ⟨hhops, hmax, -, layers, hlayers, hpacket⟩ :=
      createPacketHybrid_ok hmade
    obtain ⟨layers', hlayers', -, hids, hopens⟩ := opens_of_honest hdh h.honest k
    obtain rfl := Except.ok.inj (hlayers.symm.trans hlayers')
    have heq := layers_eq hlayers
    cases layers with
    | nil => exact absurd (List.map_eq_nil_iff.1 hids.symm) hhops
    | cons l rest =>
        refine ⟨⟨k, l, rest⟩, rfl, heq, packet, hget, ?_, packet, rfl, ?_⟩
        · unfold HybridRoute.firstHop
          cases hroute : S.route.hops with
          | nil => exact absurd hroute hhops
          | cons hop hops =>
              rw [hroute] at hids
              exact (List.cons.inj hids).1.symm
        · have hcount : (l :: rest).length ≤ MAX_HOPS := by
            have hlen := congrArg List.length hids
            rw [List.length_map, List.length_map] at hlen
            omega
          have hblock : (kemBlock (S.draws k) (l :: rest)).length
              = KEM_BLOCK_SIZE :=
            length_kemBlock_of (fun l' hl' =>
              (hopens l' hl' ⟨fun _ => 0, fun _ => 0, 0⟩).1) hcount
          have hfly := InFlight.built (P := P) SPHINX_VERSION_HYBRID
            (S.draws k) S.route.destination (onion P (S.inner P k))
            (S.inner P k) hcount
            (rfl : kemBlock (S.draws k) (l :: rest) = _)
          rw [hblock] at hfly
          unfold Shipment.inner at hfly ⊢
          rw [heq] at hfly ⊢
          rw [hpacket]
          exact hfly
  choose f hindex hsplit g hget hat using hfirst
  refine ⟨List.ofFn fun k : Fin S.bodies.length => f k k.2,
    ⟨fun k hk l hl d => ?_, ?_, ?_, nofun, .nil, ?_, hJ, fun _ _ => rfl⟩,
    ?_, ?_⟩
  · obtain ⟨layers, hlayers, -, -, hopens⟩ := opens_of_honest hdh h.honest k
    rw [layers_eq hlayers] at hl
    exact hopens l hl d
  · unfold Shipment.start
    rw [List.forall₂_map_right_iff]
    refine List.forall₂_of_length_eq_of_get ?_ fun k hk _ => ?_
    · rw [List.length_ofFn, hlen]
    · rw [List.length_ofFn] at hk
      obtain ⟨_, hpacket⟩ := List.getElem?_eq_some_iff.1 (hget k hk)
      simpa [hpacket] using hat k hk
  · intro leg hmem
    obtain ⟨k, rfl⟩ := (List.mem_ofFn' _ _).1 hmem
    refine ⟨?_, ?_⟩
    · rw [hindex]
      exact k.2
    · rw [hindex, ← hsplit]
  · intro k
    refine iff_of_false (List.not_mem_nil) ?_
    rintro ⟨hk, hall⟩
    obtain ⟨l, hlast, hl⟩ := hb.last_mem hk
    exact h.unseen _ (mem_stamps hk hl) (hall l hlast)
  · intro k hk l rest hlayers
    have hleg : f k hk = ⟨k, l, rest⟩ := by
      have hcons := (hsplit k hk).symm.trans hlayers
      have hidx := hindex k hk
      generalize f k hk = leg at hcons hidx
      obtain ⟨index, layer, rest'⟩ := leg
      obtain ⟨rfl, rfl⟩ := List.cons.inj hcons
      exact congrArg (Leg.mk · layer rest') hidx
    rw [← hleg]
    exact (List.mem_ofFn' _ _).2 ⟨⟨k, hk⟩, rfl⟩
  · intro k hk l next rest hsuf hseen
    have hl := hsuf.subset List.mem_cons_self
    exact absurd hseen (h.unseen _ (mem_stamps hk hl))

/-- Over any run the bodies come out at the last node, each at most once,
and nothing anywhere else; on a linked route, when everything was
delivered, all of them. -/
theorem carried (hdh : P.DhCommutes) (haead : P.AeadCorrect)
    (h : S.Ready P nodes) (hne : S.bodies ≠ [])
    (hok : bodyPackets P S.draws S.route 0 S.bodies = .ok packets)
    {J : List Nat → ReassemblyManager → List Outcome → Prop}
    {timely : Reading → Prop}
    {quiet : ReassemblyManager → ReassemblyManager → Prop}
    (hJ : Collects S J timely quiet)
    (hstart : J [] (nodes S.last).pendingRequests [])
    {moves : List NetMove}
    (hall : S.AllAllowed P timely quiet (S.start nodes packets) moves) :
    let net := (S.start nodes packets).run P moves
    ∃ ks : List Nat, ks.Nodup ∧ (∀ k ∈ ks, k < S.bodies.length)
      ∧ J ks (net.nodes S.last).pendingRequests (net.handed S.last)
      ∧ (∀ id, id ≠ S.last → net.handed id = [])
      ∧ (S.AllLinked P (S.start nodes packets) moves → net.Settled →
        ∀ k < S.bodies.length, k ∈ ks) := by
  have hb := h.built hdh haead hne hok
  obtain ⟨legs, hsound, hkept⟩ := h.started hdh haead hne hok hstart
  obtain ⟨ks, legs', hsound', hkeeps⟩ := hsound.run hb hJ hall
  exact ⟨ks, hsound'.once, fun k hk => ((hsound'.arrived k).1 hk).1,
    hsound'.collected, hsound'.elsewhere, fun hlinked hsettled k hk =>
      Kept.complete hsound' (hkeeps hlinked hkept) hsettled hk⟩

end Shipment

end Start

end StaticNet
