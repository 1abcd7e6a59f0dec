/-
What gossip can change about handshakes and routes.

Two runs are compared: one of handshakes and gossip, and the same one
with the gossip left out. A gossiped entry stands in the table until a
handshake replaces it, and until then a handshake of its id is held
against it, and a KEM key it carries makes it a hop. So gossip is a hint
and no more in the runs in which no gossip adds an entry with a KEM key
and no handshake, in order otherwise, meets a gossiped entry of other
keys (`gossip_is_hint`). The simulation that shows it keeps the ids
whose entry is a hint.
-/
import StaticNet.Handshake.Stream

namespace StaticNet

open Proc

/-- A gossip, or a handshake that is verified and then added. -/
inductive HintEvent
  | gossip (g : PeerGossip)
  | handshake (env : Env) (address : String) (hs : Handshake)

namespace HintEvent

def isHandshake : HintEvent → Bool
  | gossip _ => false
  | handshake _ _ _ => true

/-- One event: `process_gossip`, or `verify_handshake` and, where it
accepts, `add_node`. -/
def step (P : Prims) (json : List KnownNode → List UInt8) (s : LinkState) :
    HintEvent → LinkState
  | gossip g =>
      { s with routingTable := s.routingTable.processGossip P json g }
  | handshake env address hs =>
      let verified := (verifyHandshake P env hs).post s
      if (verifyHandshake P env hs).out s then
        { verified with
          routingTable := verified.routingTable.addNode
            (hs.asKnown address) }
      else verified

def run (P : Prims) (json : List KnownNode → List UInt8) (s : LinkState)
    (es : List HintEvent) : LinkState := es.foldl (step P json) s

end HintEvent

open HintEvent

variable {P : Prims} {json : List KnownNode → List UInt8}

-- ======= the verdict

/-- What `verify_handshake` asks of a handshake before it looks at the
table: signature, KEM key, and a fresh nonce. -/
def inOrder (P : Prims) (env : Env) (hs : Handshake) (s : LinkState) :
    Bool :=
  hs.verify P
    && (hs.kemPublicKey.map List.length).getD 0 == KEM_PUBLIC_KEY_SIZE
    && (TransportState.checkNonceCache env hs.nonce s.handshakeNonces).1

theorem verifyHandshake_out (env : Env) (hs : Handshake) (s : LinkState) :
    (verifyHandshake P env hs).out s
      = (inOrder P env hs s && s.routingTable.continues hs) := by
  by_cases hverify : hs.verify P = true
  · by_cases hkem : (hs.kemPublicKey.map List.length).getD 0
        = KEM_PUBLIC_KEY_SIZE
    · cases hfresh : (TransportState.checkNonceCache env hs.nonce
        s.handshakeNonces).1 with
      | false =>
          simp [verifyHandshake, checkHandshakeNonce, inOrder, hverify,
            hkem, hfresh]
      | true =>
          simp [verifyHandshake, checkHandshakeNonce, inOrder, hverify,
            hkem, hfresh]
    · simp [verifyHandshake, inOrder, hverify, hkem]
  · simp [verifyHandshake, inOrder, hverify]

/-- The nonces after a handshake was verified. -/
def noncesAfter (P : Prims) (env : Env) (hs : Handshake)
    (cache : FMap (Bytes 32) Nat) : FMap (Bytes 32) Nat :=
  if hs.verify P = true ∧ (hs.kemPublicKey.map List.length).getD 0
      = KEM_PUBLIC_KEY_SIZE then
    (TransportState.checkNonceCache env hs.nonce cache).2
  else cache

theorem verifyHandshake_post (env : Env) (hs : Handshake)
    (s : LinkState) :
    (verifyHandshake P env hs).post s
      = { s with handshakeNonces :=
            noncesAfter P env hs s.handshakeNonces } := by
  by_cases hverify : hs.verify P = true
  · by_cases hkem : (hs.kemPublicKey.map List.length).getD 0
        = KEM_PUBLIC_KEY_SIZE
    · cases hfresh : (TransportState.checkNonceCache env hs.nonce
        s.handshakeNonces).1 with
      | false =>
          simp [verifyHandshake, checkHandshakeNonce, noncesAfter,
            hverify, hkem, hfresh]
      | true =>
          simp [verifyHandshake, checkHandshakeNonce, noncesAfter,
            hverify, hkem, hfresh]
    · simp [verifyHandshake, noncesAfter, hverify, hkem]
  · simp [verifyHandshake, noncesAfter, hverify]

/-- What a handshake leaves of the table and of the nonces. -/
theorem step_handshake (env : Env) (address : String) (hs : Handshake)
    (s : LinkState) :
    ((handshake env address hs).step P json s).routingTable
        = (if (verifyHandshake P env hs).out s then
            s.routingTable.addNode (hs.asKnown address)
          else s.routingTable)
      ∧ ((handshake env address hs).step P json s).handshakeNonces
        = noncesAfter P env hs s.handshakeNonces := by
  unfold HintEvent.step
  dsimp only
  rw [verifyHandshake_post]
  split <;> exact ⟨rfl, rfl⟩

-- ============= hints

/-- The ids whose entry is a hint, after one more event. -/
def hintsAfter (P : Prims) (json : List KnownNode → List UInt8)
    (s : LinkState) (hints : Finset NodeId) : HintEvent → Finset NodeId
  | gossip g => hints ∪ ((s.routingTable.processGossip P json g).nodes.keys
      \ s.routingTable.nodes.keys)
  | handshake env _ hs =>
      if (verifyHandshake P env hs).out s then hints.erase hs.nodeId
      else hints

/-- A run, with the ids whose entry is a hint. -/
def track (P : Prims) (json : List KnownNode → List UInt8) (s : LinkState)
    (es : List HintEvent) : LinkState × Finset NodeId :=
  es.foldl (fun r e => (e.step P json r.1, hintsAfter P json r.1 r.2 e))
    (s, ∅)

/-- A gossip that adds no entry with a KEM key; a handshake that is not
in order anyway, or does not meet a hint, or agrees with it. -/
def Agreeable (P : Prims) (json : List KnownNode → List UInt8)
    (s : LinkState) (hints : Finset NodeId) : HintEvent → Prop
  | gossip g => ∀ id known, s.routingTable.getNode id = none →
      (s.routingTable.processGossip P json g).getNode id = some known →
      known.kemPublicKey = none
  | handshake env _ hs => inOrder P env hs s = true →
      hs.nodeId ∈ hints → s.routingTable.continues hs = true

/-- A run of agreeable events. -/
def AgreeableRun (P : Prims) (json : List KnownNode → List UInt8)
    (s : LinkState) (es : List HintEvent) : Prop :=
  ∀ pre e post, es = pre ++ e :: post →
    Agreeable P json (track P json s pre).1 (track P json s pre).2 e

theorem run_append (s : LinkState) (es : List HintEvent) (e : HintEvent) :
    run P json s (es ++ [e]) = e.step P json (run P json s es) := by
  simp [run]

theorem track_append (s : LinkState) (es : List HintEvent)
    (e : HintEvent) :
    track P json s (es ++ [e])
      = (e.step P json (track P json s es).1,
        hintsAfter P json (track P json s es).1 (track P json s es).2 e) := by
  simp [track]

theorem track_fst (s : LinkState) (es : List HintEvent) :
    (track P json s es).1 = run P json s es := by
  induction es using List.reverseRecOn with
  | nil => rfl
  | append_singleton es e ih =>
      rw [track_append, ih, run_append]

/-- Two states that differ in hints only. -/
structure Hinted (hints : Finset NodeId) (s t : LinkState) : Prop where
  nonces_eq : s.handshakeNonces = t.handshakeNonces
  ours_eq : s.routingTable.ourNodeId = t.routingTable.ourNodeId
  ours_none : s.routingTable.ourNodeId ∉ hints
  same : ∀ id, id ∉ hints →
    s.routingTable.getNode id = t.routingTable.getNode id
  hint : ∀ id, id ∈ hints → t.routingTable.getNode id = none
    ∧ ∃ known, s.routingTable.getNode id = some known
      ∧ known.kemPublicKey = none

namespace Hinted

variable {hints : Finset NodeId} {s t : LinkState}

theorem inOrder_eq (h : Hinted hints s t) (env : Env) (hs : Handshake) :
    inOrder P env hs s = inOrder P env hs t := by
  rw [inOrder, inOrder, h.nonces_eq]

/-- A handshake that meets no hint, or agrees with it, fares the same
without the gossip. -/
theorem verdict_eq (h : Hinted hints s t) {env : Env} {address : String}
    {hs : Handshake}
    (hok : Agreeable P json s hints (.handshake env address hs)) :
    (verifyHandshake P env hs).out s = (verifyHandshake P env hs).out t := by
  rw [verifyHandshake_out, verifyHandshake_out, ← h.inOrder_eq env hs]
  cases horder : inOrder P env hs s with
  | false => rfl
  | true =>
      by_cases hmem : hs.nodeId ∈ hints
      · have hwithout : t.routingTable.continues hs = true := by
          rw [RoutingTable.continues, (h.hint _ hmem).1]
        rw [hok horder hmem, hwithout]
      · rw [RoutingTable.continues, RoutingTable.continues,
          h.same _ hmem]

/-- A gossip adds hints and changes nothing else. -/
theorem gossip (h : Hinted hints s t) {g : PeerGossip}
    (hok : Agreeable P json s hints (.gossip g)) :
    Hinted (hintsAfter P json s hints (.gossip g))
      ((HintEvent.gossip g).step P json s) t := by
  obtain ⟨hours, hself⟩ :=
    @RoutingTable.processGossip_ours P json s.routingTable g
  refine ⟨h.nonces_eq, hours.trans h.ours_eq, ?_, ?_, ?_⟩
  · change (s.routingTable.processGossip P json g).ourNodeId ∉ _
    rw [hours, hintsAfter, Finset.mem_union, Finset.mem_sdiff,
      FMap.mem_keys_iff, FMap.mem_keys_iff]
    rintro (hmem | ⟨hmem, hnone⟩)
    · exact h.ours_none hmem
    · obtain ⟨known, hknown⟩ := hmem
      exact hnone ⟨known, hself.symm.trans hknown⟩
  · intro id hid
    simp only [hintsAfter, Finset.mem_union, Finset.mem_sdiff, not_or,
      not_and_not_right] at hid
    rw [← h.same id hid.1]
    change (s.routingTable.processGossip P json g).getNode id = _
    cases hget : s.routingTable.getNode id with
    | some known => exact RoutingTable.getNode_processGossip hget g
    | none =>
        cases hget' : (s.routingTable.processGossip P json g).getNode id with
        | none => rfl
        | some known =>
            have hmem := hid.2 (FMap.mem_keys_of_get hget')
            obtain ⟨known', hknown'⟩ := (FMap.mem_keys_iff _ _).1 hmem
            rw [show s.routingTable.nodes.get id = none from hget]
              at hknown'
            cases hknown'
  · intro id hid
    simp only [hintsAfter, Finset.mem_union, Finset.mem_sdiff] at hid
    rcases hid with hid | ⟨hid, hnew⟩
    · obtain ⟨hnone, known, hknown, hkem⟩ := h.hint id hid
      exact ⟨hnone, known, RoutingTable.getNode_processGossip hknown g,
        hkem⟩
    · obtain ⟨known, hknown⟩ := (FMap.mem_keys_iff _ _).1 hid
      have hget : s.routingTable.getNode id = none := by
        rw [FMap.mem_keys_iff, not_exists] at hnew
        exact Option.eq_none_iff_forall_ne_some.2 hnew
      refine ⟨?_, known, hknown, hok id known hget hknown⟩
      have hout : id ∉ hints := by
        intro hmem
        obtain ⟨-, known', hknown', -⟩ := h.hint id hmem
        rw [hget] at hknown'
        cases hknown'
      rw [← h.same id hout, hget]

/-- Both tables have the same entry for a node that was just added. -/
theorem addNode_self (h : Hinted hints s t) {hs : Handshake}
    (address : String) :
    (s.routingTable.addNode (hs.asKnown address)).getNode hs.nodeId
      = (t.routingTable.addNode (hs.asKnown address)).getNode
        hs.nodeId := by
  by_cases hours : hs.nodeId = s.routingTable.ourNodeId
  · -- our own id is never written
    have hkept : ¬ (hs.asKnown address).nodeId
        ≠ s.routingTable.ourNodeId := not_ne_iff.2 hours
    have hkept' : ¬ (hs.asKnown address).nodeId
        ≠ t.routingTable.ourNodeId := not_ne_iff.2 (hours.trans h.ours_eq)
    rw [RoutingTable.addNode, if_neg hkept, RoutingTable.addNode,
      if_neg hkept']
    exact h.same _ (hours ▸ h.ours_none)
  · have hne : (hs.asKnown address).nodeId ≠ t.routingTable.ourNodeId :=
      fun heq => hours (heq.trans h.ours_eq.symm)
    exact (RoutingTable.getNode_addNode_self hours).trans
      (RoutingTable.getNode_addNode_self hne).symm

/-- A handshake does to both states the same, and what it writes is no
hint. -/
theorem handshake (h : Hinted hints s t) {env : Env} {address : String}
    {hs : Handshake}
    (hok : Agreeable P json s hints (.handshake env address hs)) :
    Hinted (hintsAfter P json s hints (.handshake env address hs))
      ((HintEvent.handshake env address hs).step P json s)
      ((HintEvent.handshake env address hs).step P json t) := by
  obtain ⟨htable, hnonces⟩ :=
    @step_handshake P json env address hs s
  obtain ⟨htable', hnonces'⟩ :=
    @step_handshake P json env address hs t
  rw [← h.verdict_eq hok] at htable'
  have hcache := hnonces.trans ((congrArg (noncesAfter P env hs)
    h.nonces_eq).trans hnonces'.symm)
  rw [hintsAfter]
  cases hout : (verifyHandshake P env hs).out s with
  | false =>
      rw [hout, if_neg Bool.false_ne_true] at htable htable'
      refine ⟨hcache, ?_, ?_, ?_, ?_⟩
      · rw [htable, htable', h.ours_eq]
      · rw [htable]
        exact h.ours_none
      · intro id hid
        rw [htable, htable']
        exact h.same id hid
      · intro id hid
        rw [htable, htable']
        exact h.hint id hid
  | true =>
      rw [hout, if_pos rfl] at htable htable'
      refine ⟨hcache, ?_, ?_, ?_, ?_⟩
      · rw [htable, htable', RoutingTable.ourNodeId_addNode,
          RoutingTable.ourNodeId_addNode, h.ours_eq]
      · rw [htable, RoutingTable.ourNodeId_addNode]
        exact fun hmem => h.ours_none (Finset.mem_of_mem_erase hmem)
      · intro id hid
        rw [htable, htable']
        by_cases hself : id = hs.nodeId
        · subst hself
          exact h.addNode_self address
        · have hout : id ∉ hints := fun hmem =>
            hid (Finset.mem_erase.2 ⟨hself, hmem⟩)
          rw [RoutingTable.getNode_addNode_ne hself,
            RoutingTable.getNode_addNode_ne hself]
          exact h.same id hout
      · intro id hid
        obtain ⟨hne, hid⟩ := Finset.mem_erase.1 hid
        rw [htable, htable', RoutingTable.getNode_addNode_ne hne,
          RoutingTable.getNode_addNode_ne hne]
        exact h.hint id hid

end Hinted

theorem AgreeableRun.init {s₀ : LinkState} {es : List HintEvent}
    {e : HintEvent} (h : AgreeableRun P json s₀ (es ++ [e])) :
    AgreeableRun P json s₀ es :=
  fun pre e' post heq => h pre e' (post ++ [e]) (by rw [heq]; simp)

/-- The run and the run without its gossip differ in hints only. -/
theorem hinted_run {s₀ : LinkState} {es : List HintEvent}
    (h : AgreeableRun P json s₀ es) :
    Hinted (track P json s₀ es).2 (run P json s₀ es)
      (run P json s₀ (es.filter isHandshake)) := by
  induction es using List.reverseRecOn with
  | nil =>
      exact ⟨rfl, rfl, Finset.notMem_empty _, fun _ _ => rfl,
        fun _ hid => absurd hid (Finset.notMem_empty _)⟩
  | append_singleton es e ih =>
      have hrest := h.init
      have hlast := h es e [] rfl
      rw [track_fst] at hlast
      rw [track_append, track_fst, run_append, List.filter_append]
      cases e with
      | gossip g =>
          rw [show [HintEvent.gossip g].filter isHandshake = [] from rfl,
            List.append_nil]
          exact (ih hrest).gossip hlast
      | handshake env address hs =>
          rw [show [HintEvent.handshake env address hs].filter isHandshake
            = [.handshake env address hs] from rfl, run_append]
          exact (ih hrest).handshake hlast

-- ==== where entries come from

/-- An entry that a handshake of the run wrote, one that was verified in
its turn. -/
def Sworn (P : Prims) (json : List KnownNode → List UInt8)
    (s₀ : LinkState) (es : List HintEvent) (known : KnownNode) : Prop :=
  ∃ pre env address hs post,
    es = pre ++ .handshake env address hs :: post
      ∧ (verifyHandshake P env hs).out (run P json s₀ pre) = true
      ∧ known = hs.asKnown address

theorem Sworn.append {s₀ : LinkState} {es : List HintEvent}
    {known : KnownNode} (h : Sworn P json s₀ es known) (e : HintEvent) :
    Sworn P json s₀ (es ++ [e]) known := by
  obtain ⟨pre, env, address, hs, post, rfl, hok, hknown⟩ := h
  exact ⟨pre, env, address, hs, post ++ [e], by simp, hok, hknown⟩

/-- In a node that started with an empty table, an entry that is no hint
was written by a handshake. -/
theorem sworn_run {s₀ : LinkState}
    (hfresh : ∀ id, s₀.routingTable.getNode id = none)
    {es : List HintEvent} (h : AgreeableRun P json s₀ es) {id : NodeId}
    {known : KnownNode} (hid : id ∉ (track P json s₀ es).2)
    (hget : (run P json s₀ es).routingTable.getNode id = some known) :
    Sworn P json s₀ es known := by
  induction es using List.reverseRecOn generalizing known with
  | nil =>
      rw [show run P json s₀ [] = s₀ from rfl, hfresh] at hget
      cases hget
  | append_singleton es e ih =>
      rw [track_append, track_fst] at hid
      rw [run_append] at hget
      cases e with
      | gossip g =>
          -- the entry was there before, or it is a hint
          simp only [hintsAfter, Finset.mem_union, Finset.mem_sdiff,
            not_or, not_and_not_right] at hid
          have hmem := hid.2 (FMap.mem_keys_of_get hget)
          obtain ⟨known', hknown'⟩ := (FMap.mem_keys_iff _ _).1 hmem
          have hkept := @RoutingTable.getNode_processGossip _ _ P json _
            hknown' g
          obtain rfl := Option.some.inj (hget.symm.trans hkept)
          exact (ih h.init hid.1 hknown').append _
      | handshake env address hs =>
          obtain ⟨htable, -⟩ :=
            @step_handshake P json env address hs (run P json s₀ es)
          rw [htable] at hget
          rw [hintsAfter] at hid
          cases hout : (verifyHandshake P env hs).out
            (run P json s₀ es) with
          | false =>
              rw [hout, if_neg Bool.false_ne_true] at hget hid
              exact (ih h.init hid hget).append _
          | true =>
              rw [hout, if_pos rfl] at hget hid
              by_cases hself : id = hs.nodeId
              · subst hself
                by_cases hours : hs.nodeId
                    = (run P json s₀ es).routingTable.ourNodeId
                · -- our own id is never written
                  have hkept : ¬ (hs.asKnown address).nodeId
                      ≠ (run P json s₀ es).routingTable.ourNodeId :=
                    not_ne_iff.2 hours
                  rw [RoutingTable.addNode, if_neg hkept] at hget
                  have hnone := (hinted_run h.init).ours_none
                  exact (ih h.init (hours ▸ hnone) hget).append _
                · have hadded := RoutingTable.getNode_addNode_self
                    (show (hs.asKnown address).nodeId ≠ _ from hours)
                  obtain rfl := Option.some.inj (hget.symm.trans hadded)
                  exact ⟨es, env, address, hs, [], rfl, hout, rfl⟩
              · rw [RoutingTable.getNode_addNode_ne hself] at hget
                have hout' : id ∉ (track P json s₀ es).2 := fun hmem =>
                  hid (Finset.mem_erase.2 ⟨hself, hmem⟩)
                exact (ih h.init hout' hget).append _

-- ============== hops

/-- Put one node first. -/
def bringFront (n : KnownNode) (l : List KnownNode) : List KnownNode :=
  if n ∈ l then n :: l.erase n else l

theorem bringFront_perm (n : KnownNode) (l : List KnownNode) :
    (bringFront n l).Perm l := by
  unfold bringFront
  split
  · exact (List.perm_cons_erase ‹n ∈ l›).symm
  · exact List.Perm.refl l

/-- The intermediate hops that `build_hybrid_route` may choose on the
way to a destination. -/
def routeHops (table : RoutingTable) (destination : NodeId) :
    Set HybridRouteHop :=
  { hop | ∃ o shuffle destPublicKey destKemPublicKey route,
    (∀ l, (shuffle l).Perm l)
      ∧ table.buildHybridRoute o shuffle destination destPublicKey
        destKemPublicKey = some route
      ∧ hop ∈ route.hops.dropLast }

/-- The intermediate hops that `build_self_return_route` may choose. -/
def returnHops (table : RoutingTable) (nodeId : NodeId) :
    Set HybridRouteHop :=
  { hop | ∃ o shuffle ourPublicKey ourKemPublicKey,
    (∀ l, (shuffle l).Perm l)
      ∧ hop ∈ (table.buildSelfReturnRoute o shuffle nodeId ourPublicKey
        ourKemPublicKey).hops.dropLast }

/-- The entries a predicate accepts, in an order of the table. -/
def entries (o : IterOrder NodeId) (m : FMap NodeId KnownNode)
    (p : KnownNode → Bool) : List KnownNode :=
  ((o.iter m.keys).filterMap m.get).filter p

/-- A shuffle brings any of enough nodes among the first few. -/
theorem exists_shuffle {nodes : List KnownNode} {hop : HybridRouteHop} :
    (∃ shuffle : List KnownNode → List KnownNode,
        (∀ l, (shuffle l).Perm l) ∧ hop ∈ ((shuffle nodes).take
          MIN_HOPS).map RoutingTable.asHop)
      ↔ ∃ n ∈ nodes, hop = RoutingTable.asHop n := by
  constructor
  · rintro ⟨shuffle, hperm, hhop⟩
    obtain ⟨n, hn, rfl⟩ := List.mem_map.1 hhop
    exact ⟨n, (hperm nodes).subset (List.mem_of_mem_take hn), rfl⟩
  · rintro ⟨n, hn, rfl⟩
    refine ⟨bringFront n, bringFront_perm n, List.mem_map_of_mem ?_⟩
    rw [bringFront, if_pos hn, MIN_HOPS, List.take_succ_cons]
    exact List.mem_cons_self

theorem mem_routeHops {table : RoutingTable} {destination : NodeId}
    {hop : HybridRouteHop} :
    hop ∈ routeHops table destination
      ↔ ∃ o, MIN_HOPS ≤ (table.candidates o (some destination)).length
        ∧ ∃ n ∈ table.candidates o (some destination),
          hop = RoutingTable.asHop n := by
  constructor
  · rintro ⟨o, shuffle, pub, kem, route, hperm, hroute, hhop⟩
    unfold RoutingTable.buildHybridRoute at hroute
    dsimp only at hroute
    split at hroute
    · cases hroute
    · obtain rfl := Option.some.inj hroute
      rw [List.dropLast_concat] at hhop
      exact ⟨o, by omega, exists_shuffle.1 ⟨shuffle, hperm, hhop⟩⟩
  · rintro ⟨o, hmany, hnode⟩
    obtain ⟨shuffle, hperm, hhop⟩ := exists_shuffle.2 hnode
    have hroute : table.buildHybridRoute o shuffle destination
        (Bytes.zero 32) []
        = some
          { hops := ((shuffle (table.candidates o
                (some destination))).take MIN_HOPS).map RoutingTable.asHop
              ++ [⟨destination, Bytes.zero 32, []⟩]
            destination := destination } := by
      unfold RoutingTable.buildHybridRoute
      dsimp only
      rw [if_neg (by omega)]
    refine ⟨o, shuffle, Bytes.zero 32, [], _, hperm, hroute, ?_⟩
    rw [List.dropLast_concat]
    exact hhop

/-- The nodes of the table that may stand on the way back to us. -/
def backNodes (table : RoutingTable) (o : IterOrder NodeId)
    (nodeId : NodeId) : List KnownNode :=
  entries o table.nodes fun n =>
    n.nodeId ≠ nodeId && n.kemPublicKey.isSome

theorem mem_returnHops {table : RoutingTable} {nodeId : NodeId}
    {hop : HybridRouteHop} :
    hop ∈ returnHops table nodeId
      ↔ ∃ o, MIN_HOPS ≤ (backNodes table o nodeId).length
        ∧ ∃ n ∈ backNodes table o nodeId, hop = RoutingTable.asHop n := by
  constructor
  · rintro ⟨o, shuffle, pub, kem, hperm, hhop⟩
    rw [RoutingTable.buildSelfReturnRoute, List.dropLast_concat] at hhop
    change hop ∈ (if (backNodes table o nodeId).length < MIN_HOPS then []
      else ((shuffle (backNodes table o nodeId)).take MIN_HOPS).map
        RoutingTable.asHop) at hhop
    by_cases hfew : (backNodes table o nodeId).length < MIN_HOPS
    · rw [if_pos hfew] at hhop
      cases hhop
    · rw [if_neg hfew] at hhop
      exact ⟨o, by omega, exists_shuffle.1 ⟨shuffle, hperm, hhop⟩⟩
  · rintro ⟨o, hmany, hnode⟩
    obtain ⟨shuffle, hperm, hhop⟩ := exists_shuffle.2 hnode
    refine ⟨o, shuffle, Bytes.zero 32, [], hperm, ?_⟩
    rw [RoutingTable.buildSelfReturnRoute, List.dropLast_concat]
    change hop ∈ (if (backNodes table o nodeId).length < MIN_HOPS then []
      else ((shuffle (backNodes table o nodeId)).take MIN_HOPS).map
        RoutingTable.asHop)
    rw [if_neg (by omega)]
    exact hhop

/-- Tables whose accepted entries agree yield the same entries. -/
theorem entries_perm (o : IterOrder NodeId) {m m' : FMap NodeId KnownNode}
    {p : KnownNode → Bool}
    (h : ∀ id, (m.get id).filter p = (m'.get id).filter p) :
    (entries o m p).Perm (entries o m' p) := by
  have hlist : ∀ m : FMap NodeId KnownNode, entries o m p
      = ((o.iter m.keys).filter fun id =>
          ((m.get id).filter p).isSome).filterMap
        fun id => (m.get id).filter p := by
    intro m
    rw [entries, List.filter_filterMap, List.filterMap_filter]
    congr 1
    funext id
    cases (m.get id).filter p <;> rfl
  have hkey : ∀ (m : FMap NodeId KnownNode) id,
      ((m.get id).filter p).isSome = true → id ∈ m.keys := by
    intro m id hsome
    obtain ⟨known, hknown⟩ := Option.isSome_iff_exists.1 hsome
    exact FMap.mem_keys_of_get (Option.filter_eq_some_iff.1 hknown).1
  rw [hlist m, hlist m']
  simp only [h]
  refine List.Perm.filterMap _ ?_
  rw [List.perm_ext_iff_of_nodup ((o.nodup _).filter _)
    ((o.nodup _).filter _)]
  intro id
  rw [List.mem_filter, List.mem_filter, o.mem_iter, o.mem_iter]
  constructor
  · rintro ⟨-, hsome⟩
    exact ⟨hkey m' id hsome, hsome⟩
  · rintro ⟨-, hsome⟩
    exact ⟨hkey m id (by rw [h id]; exact hsome), hsome⟩

/-- A hint is no hop, and everything else stands in both tables. -/
theorem Hinted.filter_eq {hints : Finset NodeId} {s t : LinkState}
    (h : Hinted hints s t) {p : KnownNode → Bool}
    (hp : ∀ n, p n = true → n.kemPublicKey.isSome = true) (id : NodeId) :
    (s.routingTable.nodes.get id).filter p
      = (t.routingTable.nodes.get id).filter p := by
  by_cases hid : id ∈ hints
  · obtain ⟨hnone, known, hknown, hkem⟩ := h.hint id hid
    have hreject : p known = false := by
      cases hcase : p known with
      | false => rfl
      | true =>
          have hsome := hp known hcase
          rw [hkem] at hsome
          cases hsome
    rw [show s.routingTable.nodes.get id = some known from hknown,
      show t.routingTable.nodes.get id = none from hnone,
      Option.filter_some, hreject]
    rfl
  · rw [show s.routingTable.nodes.get id = t.routingTable.nodes.get id
      from h.same id hid]

theorem Hinted.candidates_perm {hints : Finset NodeId} {s t : LinkState}
    (h : Hinted hints s t) (o : IterOrder NodeId) (destination : NodeId) :
    (s.routingTable.candidates o (some destination)).Perm
      (t.routingTable.candidates o (some destination)) := by
  rw [RoutingTable.candidates, RoutingTable.candidates, h.ours_eq]
  refine entries_perm o (h.filter_eq ?_)
  intro n hn
  simp only [Bool.and_eq_true] at hn
  exact hn.2

theorem Hinted.backNodes_perm {hints : Finset NodeId} {s t : LinkState}
    (h : Hinted hints s t) (o : IterOrder NodeId) (nodeId : NodeId) :
    (backNodes s.routingTable o nodeId).Perm
      (backNodes t.routingTable o nodeId) := by
  refine entries_perm o (h.filter_eq ?_)
  intro n hn
  simp only [Bool.and_eq_true] at hn
  exact hn.2

/-- The same hops are chosen with the gossip and without it. -/
theorem Hinted.hops_eq {hints : Finset NodeId} {s t : LinkState}
    (h : Hinted hints s t) :
    (∀ destination, routeHops s.routingTable destination
        = routeHops t.routingTable destination)
      ∧ ∀ nodeId, returnHops s.routingTable nodeId
        = returnHops t.routingTable nodeId := by
  constructor
  · intro destination
    ext hop
    rw [mem_routeHops, mem_routeHops]
    refine exists_congr fun o => ?_
    have hperm := h.candidates_perm o destination
    rw [hperm.length_eq]
    simp only [hperm.mem_iff]
  · intro nodeId
    ext hop
    rw [mem_returnHops, mem_returnHops]
    refine exists_congr fun o => ?_
    have hperm := h.backNodes_perm o nodeId
    rw [hperm.length_eq]
    simp only [hperm.mem_iff]

/-- A hop under the keys of a handshake that was verified in the run. -/
def SwornHop (P : Prims) (json : List KnownNode → List UInt8)
    (s₀ : LinkState) (es : List HintEvent) (hop : HybridRouteHop) : Prop :=
  ∃ pre env address hs post,
    es = pre ++ .handshake env address hs :: post
      ∧ (verifyHandshake P env hs).out (run P json s₀ pre) = true
      ∧ hop.nodeId = hs.nodeId ∧ hop.classicalPublicKey = hs.publicKey
      ∧ hs.kemPublicKey = some hop.kemPublicKey

/-- A node with a KEM key in the table is a hop a handshake vouches
for. -/
theorem swornHop_of_entry {s₀ : LinkState}
    (hfresh : ∀ id, s₀.routingTable.getNode id = none)
    {es : List HintEvent} (h : AgreeableRun P json s₀ es)
    {o : IterOrder NodeId} {p : KnownNode → Bool}
    (hp : ∀ n, p n = true → n.kemPublicKey.isSome = true) {n : KnownNode}
    (hn : n ∈ entries o (run P json s₀ es).routingTable.nodes p) :
    SwornHop P json s₀ es (RoutingTable.asHop n) := by
  obtain ⟨hget, haccept⟩ := List.mem_filter.1 hn
  obtain ⟨id, -, hid⟩ := List.mem_filterMap.1 hget
  obtain ⟨kem, hkem⟩ := Option.isSome_iff_exists.1 (hp n haccept)
  have hout : id ∉ (track P json s₀ es).2 := by
    intro hmem
    obtain ⟨-, known, hknown, hnone⟩ := (hinted_run h).hint id hmem
    obtain rfl := Option.some.inj (hknown.symm.trans hid)
    rw [hkem] at hnone
    cases hnone
  obtain ⟨pre, env, address, hs, post, hes, hok, rfl⟩ :=
    sworn_run hfresh h hout hid
  refine ⟨pre, env, address, hs, post, hes, hok, rfl, rfl, ?_⟩
  rw [RoutingTable.asHop, hkem]
  exact hkem

/-- In every run of agreeable events, deleting the gossip changes neither
the verdict on a later handshake that is agreeable too nor the hops that
routes may be built over, and these have their keys from verified
handshakes. -/
theorem gossip_is_hint (P : Prims) (json : List KnownNode → List UInt8)
    (s₀ : LinkState) (hfresh : ∀ id, s₀.routingTable.getNode id = none)
    (es : List HintEvent) (h : AgreeableRun P json s₀ es) :
    (∀ env address hs,
        Agreeable P json (run P json s₀ es) (track P json s₀ es).2
          (.handshake env address hs) →
        (verifyHandshake P env hs).out (run P json s₀ es)
          = (verifyHandshake P env hs).out
            (run P json s₀ (es.filter isHandshake)))
      ∧ (∀ destination,
        routeHops (run P json s₀ es).routingTable destination
          = routeHops (run P json s₀ (es.filter isHandshake)).routingTable
            destination)
      ∧ (∀ nodeId,
        returnHops (run P json s₀ es).routingTable nodeId
          = returnHops (run P json s₀ (es.filter isHandshake)).routingTable
            nodeId)
      ∧ ∀ hop,
        (∃ destination,
            hop ∈ routeHops (run P json s₀ es).routingTable destination)
          ∨ (∃ nodeId,
            hop ∈ returnHops (run P json s₀ es).routingTable nodeId) →
        SwornHop P json s₀ es hop := by
  have hinted := hinted_run h
  refine ⟨fun env address hs hok => hinted.verdict_eq hok,
    hinted.hops_eq.1, hinted.hops_eq.2, ?_⟩
  rintro hop (⟨destination, hhop⟩ | ⟨nodeId, hhop⟩)
  · obtain ⟨o, -, n, hn, rfl⟩ := mem_routeHops.1 hhop
    refine swornHop_of_entry hfresh h ?_ hn
    intro n hn
    simp only [Bool.and_eq_true] at hn
    exact hn.2
  · obtain ⟨o, -, n, hn, rfl⟩ := mem_returnHops.1 hhop
    refine swornHop_of_entry hfresh h ?_ hn
    intro n hn
    simp only [Bool.and_eq_true] at hn
    exact hn.2

/-- A node that knows nobody takes the rumour. -/
theorem rumourGossip_taken (key : UInt8) :
    quietLink.routingTable.processGossip .plain (fun _ => [])
        (rumourGossip key)
      = quietLink.routingTable.addNode (rumour key) := by
  rw [RoutingTable.processGossip,
    if_neg (not_not.2 (rumourGossip_verify key))]
  rfl

/-- The rumour agrees with the node: the gossip is agreeable, and the
node's handshake fares as without it. -/
theorem gossip_is_hint_rumour :
    (verifyHandshake .plain (quietEnv 0 0) (quietServer 5 1)).out
        (run .plain (fun _ => []) quietLink [.gossip (rumourGossip 5)])
      = (verifyHandshake .plain (quietEnv 0 0) (quietServer 5 1)).out
        (run .plain (fun _ => []) quietLink
          ([HintEvent.gossip (rumourGossip 5)].filter isHandshake)) := by
  have hrun : AgreeableRun .plain (fun _ => []) quietLink
      [.gossip (rumourGossip 5)] := by
    intro pre e post heq
    have hnil : pre = [] ∧ e = .gossip (rumourGossip 5) := by
      cases pre with
      | nil => exact ⟨rfl, (List.cons.inj heq).1.symm⟩
      | cons e' pre =>
          exact absurd (congrArg List.length heq) (by simp)
    obtain ⟨rfl, rfl⟩ := hnil
    intro id known hnew hknown
    rw [show (track .plain (fun _ => []) quietLink []).1 = quietLink
      from rfl, rumourGossip_taken] at hknown
    by_cases hid : id = (rumour 5).nodeId
    · subst hid
      rw [RoutingTable.getNode_addNode_self (by decide)] at hknown
      obtain rfl := Option.some.inj hknown
      rfl
    · rw [RoutingTable.getNode_addNode_ne hid] at hknown
      cases hknown
  refine (gossip_is_hint .plain (fun _ => []) quietLink (fun _ => rfl) _
    hrun).1 _ "" _ ?_
  intro _ _
  have htable : (run .plain (fun _ => []) quietLink
      [.gossip (rumourGossip 5)]).routingTable
      = quietLink.routingTable.addNode (rumour 5) := rumourGossip_taken 5
  rw [htable]
  rfl

/-- The rumour has other keys: after the gossip the node is turned away,
without it it is verified. -/
theorem rumour_turns_away :
    (verifyHandshake .plain (quietEnv 0 0) (quietServer 5 1)).out
        (run .plain (fun _ => []) quietLink [.gossip (rumourGossip 6)])
        = false
      ∧ (verifyHandshake .plain (quietEnv 0 0) (quietServer 5 1)).out
        (run .plain (fun _ => []) quietLink
          ([HintEvent.gossip (rumourGossip 6)].filter isHandshake))
        = true := by
  have hkey : ((quietServer 5 1).kemPublicKey.map List.length).getD 0
      = KEM_PUBLIC_KEY_SIZE := List.length_replicate
  refine ⟨?_, (verifyHandshake_alone (quietServer_verify 5 1) hkey rfl
    rfl).1⟩
  have htable : (run .plain (fun _ => []) quietLink
      [.gossip (rumourGossip 6)]).routingTable
      = quietLink.routingTable.addNode (rumour 6) := rumourGossip_taken 6
  have hother : (quietLink.routingTable.addNode (rumour 6)).continues
      (quietServer 5 1) = false := by decide
  rw [verifyHandshake_out, htable, hother, Bool.and_false]

end StaticNet
