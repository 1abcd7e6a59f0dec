/-
A network of honest nodes, and what they come to know of each other.

# Handshakes and gossip

A node knows of another by a handshake with it, which gives it the keys
and the address, or by a gossip of a third, which gives it neither KEM key
nor address. Both write the one routing table, and a handshake is held
against what a gossip wrote before. Gossip goes through a mix network, so
it comes late, twice, out of order or never, and to anyone.

# Nobody is in the way

What stands in a table is true of the node it is about (`Mesh.Honest`), so
no gossip turns a node away, and no handshake.

# Everybody gets to know

Of the tables only the ids are kept, and of the gossip the ids it names:
then a network is a case of parties that pass on what they know
(`hearsay_step`).
-/
import StaticNet.Handshake.Hints
import StaticNet.Handshake.Honest
import StaticNet.Lib.Hearsay
import StaticNet.Routing.Gossip

namespace StaticNet

open Proc

-- ======= the network

/-- What one tick of `gossip_loop` signs. -/
def gossipRound (P : Prims) (json : List KnownNode → List UInt8)
    (s : LinkState) (o : Sampling) : PeerGossip :=
  s.routingTable.createSignedGossip P json o 50 s.identityKey

/-- Everyone there is, each under its own id. -/
structure Population where
  who : NodeId → Persona
  nodeId : ∀ n, (who n).nodeId = n
  kem : ∀ n, (who n).kemPublicKey.length = KEM_PUBLIC_KEY_SIZE

structure Mesh where
  links : NodeId → LinkState
  /-- the gossips that were sent -/
  said : List PeerGossip
  /-- who accepted whose handshake -/
  met : Finset (NodeId × NodeId)

/-- A handshake of `b` comes to `a`; `a` sends a gossip; the `i`th gossip
comes to `b`. -/
inductive MeshMove
  | greet (a b : NodeId) (env : Env) (nonce : Bytes 32) (address : String)
  | gossip (a : NodeId) (o : Sampling)
  | deliver (i : ℕ) (b : NodeId)

namespace Mesh

variable (P : Prims) (json : List KnownNode → List UInt8)
  (pop : Population)

/-- Everyone has just started. -/
def new : Mesh where
  links := fun a => (pop.who a).link P
  said := []
  met := ∅

def step (M : Mesh) : MeshMove → Mesh
  | .greet a b env nonce address =>
      let hs := (pop.who b).handshake P nonce
      { M with
        links := Function.update M.links a
          (HintEvent.step P json (M.links a) (.handshake env address hs))
        met :=
          if (verifyHandshake P env hs).out (M.links a) = true then
            insert (a, b) M.met
          else M.met }
  | .gossip a o =>
      { M with said := M.said ++ [gossipRound P json (M.links a) o] }
  | .deliver i b =>
      match M.said[i]? with
      | none => M
      | some g =>
          { M with
            links := Function.update M.links b
              (HintEvent.step P json (M.links b) (.gossip g)) }

def run (M : Mesh) (moves : List MeshMove) : Mesh :=
  moves.foldl (step P json pop) M

-- ========= the truth

end Mesh

/-- What is gossiped of a node. -/
def Persona.rumour (P : Prims) (me : Persona) : KnownNode where
  nodeId := me.nodeId
  publicKey := me.mixPublicKey
  address := ""
  kemPublicKey := none
  computeEnabled := me.computeEnabled
  computeCapacity := me.computeCapacity
  identityPublicKey := some (P.edPublic me.identityKey)

/-- An entry tells the truth about the node: all of its keys where they
met, and otherwise all but the KEM key. -/
structure KnownNode.TrueOf (P : Prims) (n : KnownNode) (me : Persona)
    (met : Prop) [Decidable met] : Prop where
  stripped : n.stripped = me.rumour P
  kem : n.kemPublicKey = if met then some me.kemPublicKey else none

theorem KnownNode.TrueOf.nodeId {P : Prims} {n : KnownNode} {pop : Population}
    {id : NodeId} {met : Prop} [Decidable met]
    (h : n.TrueOf P (pop.who id) met) : n.nodeId = id := by
  have hid := congrArg KnownNode.nodeId h.stripped
  exact hid.trans (pop.nodeId id)

namespace Mesh

variable (P : Prims) (json : List KnownNode → List UInt8)
  (pop : Population)

/-- A gossip that can be believed. -/
structure Believed (g : PeerGossip) : Prop where
  verify : g.verify P json = true
  sender : g.identityPublicKey = P.edPublic (pop.who g.fromNode).identityKey
  peers : ∀ peer ∈ g.peers, peer = (pop.who peer.nodeId).rumour P

structure Honest (M : Mesh) : Prop where
  key : ∀ a, (M.links a).identityKey = (pop.who a).identityKey
  ours : ∀ a, (M.links a).routingTable.ourNodeId = a
  own : ∀ a, (M.links a).routingTable.getNode a = none
  entry : ∀ a id n, (M.links a).routingTable.getNode id = some n →
    n.TrueOf P (pop.who id) ((a, id) ∈ M.met)
  /-- whom a node has met, it has -/
  met : ∀ a id, (a, id) ∈ M.met → id ≠ a →
    ∃ n, (M.links a).routingTable.getNode id = some n
  said : ∀ g ∈ M.said, Believed P json pop g

variable {P} {json} {pop} {M : Mesh}

theorem new_honest : (new P pop).Honest P json pop where
  key := fun _ => rfl
  ours := fun a => pop.nodeId a
  own := fun _ => rfl
  entry := fun _ _ _ h => by cases h
  met := fun _ _ h => absurd h (Finset.notMem_empty _)
  said := fun _ h => absurd h List.not_mem_nil


-- ========= the steps

/-- Nothing that a node has heard is against another one. -/
theorem Honest.continues (h : M.Honest P json pop) (a b : NodeId)
    (nonce : Bytes 32) : (M.links a).routingTable.continues
      ((pop.who b).handshake P nonce) = true := by
  unfold RoutingTable.continues
  rw [show ((pop.who b).handshake P nonce).nodeId = b from pop.nodeId b]
  cases hget : (M.links a).routingTable.getNode b with
  | none => rfl
  | some n =>
      have htrue := (h.entry a b n hget).stripped
      have hkey : n.publicKey = (pop.who b).mixPublicKey :=
        congrArg KnownNode.publicKey htrue
      have hidentity : n.identityPublicKey
          = some (P.edPublic (pop.who b).identityKey) :=
        congrArg KnownNode.identityPublicKey htrue
      dsimp only
      rw [hkey, hidentity]
      unfold Persona.handshake
      simp

/-- So a handshake is accepted as soon as its nonce is new. -/
theorem Honest.accepts (hsigns : P.Signs) (h : M.Honest P json pop)
    (a b : NodeId) (env : Env) (nonce : Bytes 32) :
    (verifyHandshake P env ((pop.who b).handshake P nonce)).out (M.links a)
      = (TransportState.checkNonceCache env nonce
          (M.links a).handshakeNonces).1 := by
  have hverify := (pop.who b).handshake_verify hsigns (pop.kem b) nonce
  have hkem : ((((pop.who b).handshake P nonce).kemPublicKey.map
      List.length).getD 0) = KEM_PUBLIC_KEY_SIZE := pop.kem b
  rw [verifyHandshake_out, h.continues, Bool.and_true, inOrder, hverify,
    hkem, beq_self_eq_true, Bool.true_and, Bool.true_and]
  rfl

/-- What a node gossips can be believed. -/
theorem Honest.believed (hsigns : P.Signs) (h : M.Honest P json pop)
    (a : NodeId) (o : Sampling) :
    Believed P json pop (gossipRound P json (M.links a) o) where
  verify := RoutingTable.createSignedGossip_verify o 50 _ hsigns
  sender := by
    have hfrom : (gossipRound P json (M.links a) o).fromNode = a := h.ours a
    rw [hfrom, ← h.key a]
    rfl
  peers := by
    intro peer hpeer
    obtain ⟨id, n, hget, rfl⟩ := @RoutingTable.of_mem_unsignedGossip
      (M.links a).routingTable o 50 peer hpeer
    have htrue := h.entry a id n hget
    have hid : n.stripped.nodeId = id := htrue.nodeId
    rw [hid]
    exact htrue.stripped

/-- A gossip that can be believed is taken. -/
theorem Honest.takes (h : M.Honest P json pop) {g : PeerGossip}
    (hg : Believed P json pop g) (b : NodeId) :
    (M.links b).routingTable.processGossip P json g
      = g.peers.foldl RoutingTable.takePeer (M.links b).routingTable := by
  have hcontinues : (M.links b).routingTable.senderContinues g = true := by
    unfold RoutingTable.senderContinues
    cases hget : (M.links b).routingTable.nodes.get g.fromNode with
    | none => rfl
    | some n =>
        have hpin : n.identityPublicKey
            = some (P.edPublic (pop.who g.fromNode).identityKey) :=
          congrArg KnownNode.identityPublicKey
            (h.entry b g.fromNode n hget).stripped
        dsimp only
        rw [hpin]
        exact decide_eq_true hg.sender.symm
  unfold RoutingTable.processGossip
  rw [if_neg (not_not.2 hg.verify), if_neg (not_not.2 hcontinues)]

/-- What one node does leaves the others as they are. -/
theorem Honest.of_link (h : M.Honest P json pop) {a : NodeId}
    {s : LinkState} {met : Finset (NodeId × NodeId)}
    (hkey : s.identityKey = (M.links a).identityKey)
    (hours : s.routingTable.ourNodeId = a)
    (hown : s.routingTable.getNode a = none)
    (hentry : ∀ id n, s.routingTable.getNode id = some n →
      n.TrueOf P (pop.who id) ((a, id) ∈ met))
    (hmet : ∀ id, (a, id) ∈ met → id ≠ a →
      ∃ n, s.routingTable.getNode id = some n)
    (hothers : ∀ c id, c ≠ a → ((c, id) ∈ met ↔ (c, id) ∈ M.met)) :
    ({ M with links := Function.update M.links a s, met := met } :
      Mesh).Honest P json pop where
  key := by
    intro c
    by_cases hc : c = a
    · subst hc
      dsimp only
      rw [Function.update_self, hkey, h.key]
    · dsimp only
      rw [Function.update_of_ne hc, h.key]
  ours := by
    intro c
    by_cases hc : c = a
    · subst hc
      dsimp only
      rw [Function.update_self, hours]
    · dsimp only
      rw [Function.update_of_ne hc, h.ours]
  own := by
    intro c
    by_cases hc : c = a
    · subst hc
      dsimp only
      rw [Function.update_self, hown]
    · dsimp only
      rw [Function.update_of_ne hc, h.own]
  entry := by
    intro c id n hget
    dsimp only at hget ⊢
    by_cases hc : c = a
    · subst hc
      rw [Function.update_self] at hget
      exact hentry id n hget
    · rw [Function.update_of_ne hc] at hget
      have htrue := h.entry c id n hget
      refine ⟨htrue.stripped, htrue.kem.trans ?_⟩
      exact if_congr (hothers c id hc).symm rfl rfl
  met := by
    intro c id hin hne
    dsimp only at hin ⊢
    by_cases hc : c = a
    · subst hc
      rw [Function.update_self]
      exact hmet id hin hne
    · rw [Function.update_of_ne hc]
      exact h.met c id ((hothers c id hc).1 hin) hne
  said := h.said

theorem identityKey_hint (s : LinkState) (e : HintEvent) :
    (e.step P json s).identityKey = s.identityKey := by
  cases e with
  | gossip g => rfl
  | handshake env address hs =>
      unfold HintEvent.step
      dsimp only
      rw [verifyHandshake_post]
      split <;> rfl

theorem Honest.greet (h : M.Honest P json pop) (a b : NodeId) (env : Env)
    (nonce : Bytes 32) (address : String) :
    (step P json pop M (.greet a b env nonce address)).Honest P json
      pop := by
  have hkey := @identityKey_hint P json (M.links a)
    (.handshake env address ((pop.who b).handshake P nonce))
  have htable := (@step_handshake P json env address
    ((pop.who b).handshake P nonce) (M.links a)).1
  have hid : (((pop.who b).handshake P nonce).asKnown address).nodeId = b :=
    pop.nodeId b
  unfold step
  dsimp only
  split
  · next hok =>
      rw [if_pos hok] at htable
      have hown : b = a → (M.links a).routingTable.addNode
          (((pop.who b).handshake P nonce).asKnown address)
          = (M.links a).routingTable := by
        intro hba
        rw [RoutingTable.addNode, if_neg]
        rw [hid, h.ours, hba]
        exact not_not.2 rfl
      have hget : ∀ id, id ≠ b → ((M.links a).routingTable.addNode
          (((pop.who b).handshake P nonce).asKnown address)).getNode id
          = (M.links a).routingTable.getNode id := fun id hne =>
        RoutingTable.getNode_addNode_ne (by rwa [hid])
      have hnew : b ≠ a → ((M.links a).routingTable.addNode
          (((pop.who b).handshake P nonce).asKnown address)).getNode b
          = some (((pop.who b).handshake P nonce).asKnown address) := by
        intro hne
        have hself := @RoutingTable.getNode_addNode_self
          (M.links a).routingTable
          (((pop.who b).handshake P nonce).asKnown address)
          (by rwa [hid, h.ours])
        rwa [hid] at hself
      refine h.of_link hkey ?_ ?_ ?_ ?_ ?_
      · rw [htable, RoutingTable.ourNodeId_addNode, h.ours]
      · rw [htable]
        by_cases hba : b = a
        · rw [hown hba, h.own]
        · rw [hget a (Ne.symm hba), h.own]
      · intro id n hn
        rw [htable] at hn
        by_cases hidb : id = b
        · subst hidb
          by_cases hba : id = a
          · rw [hown hba, hba, h.own] at hn
            cases hn
          · rw [hnew hba] at hn
            obtain rfl := Option.some.inj hn
            refine ⟨rfl, ?_⟩
            rw [if_pos (Finset.mem_insert_self _ _)]
            rfl
        · rw [hget id hidb] at hn
          have htrue := h.entry a id n hn
          refine ⟨htrue.stripped, htrue.kem.trans (if_congr ?_ rfl rfl)⟩
          rw [Finset.mem_insert, Prod.mk.injEq]
          simp [hidb]
      · intro id hin hne
        rw [htable]
        by_cases hidb : id = b
        · subst hidb
          exact ⟨_, hnew hne⟩
        · rw [hget id hidb]
          refine h.met a id ?_ hne
          rcases Finset.mem_insert.1 hin with heq | hin
          · exact absurd (Prod.mk.inj heq).2 hidb
          · exact hin
      · intro c id hc
        rw [Finset.mem_insert, Prod.mk.injEq]
        simp [hc]
  · next hok =>
      rw [if_neg hok] at htable
      refine h.of_link hkey ?_ ?_ ?_ ?_ fun _ _ _ => Iff.rfl
      · rw [htable, h.ours]
      · rw [htable, h.own]
      · rw [htable]
        exact h.entry a
      · rw [htable]
        exact h.met a

theorem Honest.deliver (h : M.Honest P json pop) (i : ℕ) (b : NodeId) :
    (step P json pop M (.deliver i b)).Honest P json pop := by
  unfold step
  dsimp only
  split
  · exact h
  · next g hg =>
      have hbelieved := h.said g (List.mem_of_getElem? hg)
      have htable : (HintEvent.step P json (M.links b)
          (.gossip g)).routingTable = g.peers.foldl RoutingTable.takePeer
            (M.links b).routingTable := h.takes hbelieved b
      have hours := RoutingTable.foldl_takePeer_ours g.peers
        (M.links b).routingTable
      rw [h.ours] at hours
      refine h.of_link rfl ?_ ?_ ?_ ?_ fun _ _ _ => Iff.rfl
      · rw [htable, hours.1]
      · rw [htable, hours.2, h.own]
      · intro id n hn
        rw [htable] at hn
        rcases RoutingTable.of_getNode_foldl_takePeer g.peers _ hn with
          hold | ⟨hnone, hmem, hid⟩
        · exact h.entry b id n hold
        · have hrumour := hbelieved.peers n hmem
          rw [hid] at hrumour
          have hunmet : (b, id) ∉ M.met := by
            intro hin
            have hne : id ≠ b := by
              intro hself
              rw [hself, hours.2, h.own] at hn
              cases hn
            obtain ⟨m, hm⟩ := h.met b id hin hne
            rw [hm] at hnone
            cases hnone
          rw [hrumour]
          refine ⟨rfl, ?_⟩
          rw [if_neg hunmet]
          rfl
      · intro id hin hne
        obtain ⟨n, hn⟩ := h.met b id hin hne
        rw [htable]
        exact ⟨n, RoutingTable.getNode_foldl_takePeer g.peers hn⟩

theorem Honest.step (hsigns : P.Signs) (h : M.Honest P json pop)
    (mv : MeshMove) : (Mesh.step P json pop M mv).Honest P json pop := by
  cases mv with
  | greet a b env nonce address => exact h.greet a b env nonce address
  | gossip a o =>
      refine { h with said := fun g hg => ?_ }
      rcases List.mem_append.1 hg with hg | hg
      · exact h.said g hg
      · obtain rfl := List.mem_singleton.1 hg
        exact h.believed hsigns a o
  | deliver i b => exact h.deliver i b

theorem Honest.run (hsigns : P.Signs) (h : M.Honest P json pop)
    (moves : List MeshMove) :
    (Mesh.run P json pop M moves).Honest P json pop := by
  induction moves generalizing M with
  | nil => exact h
  | cons mv moves ih => exact ih (h.step hsigns mv)

-- ===== the knowledge

section Knowledge

/-- Whom a node knows of, itself included. -/
def knows (M : Mesh) (a : NodeId) : Finset NodeId :=
  insert a (M.links a).routingTable.nodes.keys

def hearsay (M : Mesh) : Hearsay NodeId NodeId where
  known := M.knows
  said := M.said.map PeerGossip.names

variable (P) (json) (pop)

/-- What a move is to what is known. -/
def tale (M : Mesh) : MeshMove → Hearsay.Tale NodeId NodeId
  | .greet a b env nonce _ =>
      if (verifyHandshake P env ((pop.who b).handshake P nonce)).out
        (M.links a) = true then .learn a b
      else .idle
  | .gossip a o => .say a (gossipRound P json (M.links a) o).names
  | .deliver i b => .hear i b

def tales (M : Mesh) : List MeshMove → List (Hearsay.Tale NodeId NodeId)
  | [] => []
  | mv :: moves =>
      M.tale P json pop mv :: (step P json pop M mv).tales moves

variable {P} {json} {pop}

theorem Honest.keyed (h : M.Honest P json pop) (a : NodeId) :
    (M.links a).routingTable.Keyed :=
  fun id n hget => (h.entry a id n hget).nodeId

/-- A changed link changes what its own node knows. -/
theorem knows_update (M : Mesh) (a : NodeId) (s : LinkState)
    (met : Finset (NodeId × NodeId)) (known : Finset NodeId)
    (hknown : insert a s.routingTable.nodes.keys = known) :
    ({ M with links := Function.update M.links a s, met := met } :
      Mesh).knows = Function.update M.knows a known := by
  funext c
  unfold knows
  dsimp only
  by_cases hc : c = a
  · subst hc
    rw [Function.update_self, Function.update_self, hknown]
  · rw [Function.update_of_ne hc, Function.update_of_ne hc]

theorem knows_addNode {table : RoutingTable} {node : KnownNode}
    {a : NodeId} (ha : table.ourNodeId = a) :
    insert a (table.addNode node).nodes.keys
      = insert node.nodeId (insert a table.nodes.keys) := by
  unfold RoutingTable.addNode
  split
  · exact Finset.insert_comm _ _ _
  · next hours =>
      rw [not_not.1 hours, ha, Finset.insert_idem]

/-- A network passes on what it knows. -/
theorem hearsay_step (h : M.Honest P json pop) (mv : MeshMove) :
    (step P json pop M mv).hearsay
      = M.hearsay.step (M.tale P json pop mv) := by
  cases mv with
  | greet a b env nonce address =>
      have htable := (@step_handshake P json env address
        ((pop.who b).handshake P nonce) (M.links a)).1
      unfold step tale
      dsimp only
      split
      · next hok =>
          rw [if_pos hok] at htable
          have hknown := knows_update M a (HintEvent.step P json (M.links a)
            (.handshake env address ((pop.who b).handshake P nonce)))
            (insert (a, b) M.met) (insert b (M.knows a)) (by
              rw [htable, knows_addNode (h.ours a)]
              show insert (pop.who b).nodeId _ = _
              rw [pop.nodeId b]
              rfl)
          unfold hearsay
          rw [hknown]
          rfl
      · next hok =>
          rw [if_neg hok] at htable
          have hknown := knows_update M a (HintEvent.step P json (M.links a)
            (.handshake env address ((pop.who b).handshake P nonce)))
            M.met (M.knows a) (by rw [htable]; rfl)
          unfold hearsay
          rw [hknown, Function.update_eq_self]
          rfl
  | gossip a o =>
      have hknown : M.knows a ∩ (gossipRound P json (M.links a) o).names
          = (gossipRound P json (M.links a) o).names :=
        Finset.inter_eq_right.2
          ((RoutingTable.names_unsignedGossip_subset o 50 (h.keyed a)).trans
            (Finset.subset_insert _ _))
      unfold step tale hearsay Hearsay.step
      dsimp only
      rw [hknown, List.map_append]
      rfl
  | deliver i b =>
      unfold step tale hearsay Hearsay.step
      dsimp only
      rw [List.getElem?_map]
      cases hg : M.said[i]? with
      | none => rfl
      | some g =>
          have hbelieved := h.said g (List.mem_of_getElem? hg)
          have hsane : ∀ peer ∈ g.peers, RoutingTable.Sane peer := by
            intro peer hpeer
            rw [hbelieved.peers peer hpeer]
            exact ⟨show "".utf8ByteSize ≤ 256 by decide, rfl⟩
          have hkeys := RoutingTable.keys_foldl_takePeer g.peers hsane
            (M.links b).routingTable
          rw [h.ours] at hkeys
          have hknown := knows_update M b (HintEvent.step P json (M.links b)
            (.gossip g)) M.met (M.knows b ∪ g.names) (by
              show insert b ((M.links b).routingTable.processGossip P json
                g).nodes.keys = _
              rw [h.takes hbelieved b]
              exact hkeys)
          dsimp only [Option.map_some]
          rw [hknown]

theorem hearsay_run (hsigns : P.Signs) (h : M.Honest P json pop)
    (moves : List MeshMove) : (run P json pop M moves).hearsay
      = M.hearsay.run (M.tales P json pop moves) := by
  induction moves generalizing M with
  | nil => rfl
  | cons mv moves ih =>
      refine (ih (h.step hsigns mv)).trans ?_
      rw [hearsay_step h mv]
      rfl

theorem tales_take (M : Mesh) (moves : List MeshMove) (k : ℕ) :
    (M.tales P json pop moves).take k
      = M.tales P json pop (moves.take k) := by
  induction moves generalizing M k with
  | nil =>
      rw [List.take_nil]
      exact List.take_nil
  | cons mv moves ih =>
      cases k with
      | zero => rfl
      | succ k =>
          show M.tale P json pop mv :: List.take k _ = _
          rw [ih]
          rfl

end Knowledge

-- ======== the routes

/-- The hop was met by `a`, and stands under the keys it has. -/
structure MetHop (pop : Population) (M : Mesh) (a : NodeId)
    (hop : HybridRouteHop) : Prop where
  met : (a, hop.nodeId) ∈ M.met
  classical : hop.classicalPublicKey = (pop.who hop.nodeId).mixPublicKey
  kem : hop.kemPublicKey = (pop.who hop.nodeId).kemPublicKey

/-- An entry with a KEM key is a node that was met. -/
theorem Honest.asHop (h : M.Honest P json pop) {a id : NodeId}
    {n : KnownNode}
    (hget : (M.links a).routingTable.getNode id = some n)
    (hsome : n.kemPublicKey.isSome = true) :
    MetHop pop M a (RoutingTable.asHop n) := by
  have htrue := h.entry a id n hget
  have hid : n.nodeId = id := htrue.nodeId
  have hkem := htrue.kem
  have hmet : (a, id) ∈ M.met := by
    by_contra hnot
    rw [if_neg hnot] at hkem
    rw [hkem] at hsome
    cases hsome
  rw [if_pos hmet] at hkem
  have hmix : n.publicKey = (pop.who id).mixPublicKey :=
    congrArg KnownNode.publicKey htrue.stripped
  have hhop : (RoutingTable.asHop n).nodeId = id := hid
  refine ⟨hhop ▸ hmet, ?_, ?_⟩
  · rw [hhop]
    exact hmix
  · rw [hhop]
    show n.kemPublicKey.getD [] = _
    rw [hkem]
    rfl

/-- The nodes a builder takes from a table, by whatever it asks of them
beside a KEM key. -/
theorem Honest.taken (h : M.Honest P json pop) {a : NodeId}
    {o : IterOrder NodeId} {keep : KnownNode → Bool}
    {shuffle : List KnownNode → List KnownNode}
    (hshuffle : ∀ l, (shuffle l).Perm l) (hkeep : ∀ n, keep n = true →
      n.kemPublicKey.isSome = true) (k : ℕ) {hop : HybridRouteHop}
    (hhop : hop ∈ ((shuffle (((o.iter
      (M.links a).routingTable.nodes.keys).filterMap
        (M.links a).routingTable.nodes.get).filter keep)).take k).map
          RoutingTable.asHop) : MetHop pop M a hop := by
  obtain ⟨n, hn, rfl⟩ := List.mem_map.1 hhop
  have hcandidate := (hshuffle _).subset (List.mem_of_mem_take hn)
  obtain ⟨hlisted, hfilter⟩ := List.mem_filter.1 hcandidate
  obtain ⟨id, -, hget⟩ := List.mem_filterMap.1 hlisted
  exact h.asHop hget (hkeep n hfilter)

/-- A route goes over nodes that were met, under the keys they have. -/
theorem Honest.route (h : M.Honest P json pop) {a destination : NodeId}
    {o : IterOrder NodeId} {shuffle : List KnownNode → List KnownNode}
    (hshuffle : ∀ l, (shuffle l).Perm l) {destPub : Bytes 32}
    {destKem : List UInt8} {route : HybridRoute}
    (hroute : (M.links a).routingTable.buildHybridRoute o shuffle
      destination destPub destKem = some route)
    {hop : HybridRouteHop} (hhop : hop ∈ route.hops.dropLast) :
    MetHop pop M a hop := by
  unfold RoutingTable.buildHybridRoute at hroute
  dsimp only at hroute
  split at hroute
  · cases hroute
  · obtain rfl := Option.some.inj hroute
    rw [List.dropLast_concat] at hhop
    exact h.taken hshuffle
      (fun n hn => (Bool.and_eq_true _ _ ▸ hn).2) _ hhop

/-- So does the way back that a node builds to itself. -/
theorem Honest.selfReturn (h : M.Honest P json pop) {a : NodeId}
    {o : IterOrder NodeId} {shuffle : List KnownNode → List KnownNode}
    (hshuffle : ∀ l, (shuffle l).Perm l) {ourPub : Bytes 32}
    {ourKem : List UInt8} {hop : HybridRouteHop}
    (hhop : hop ∈ ((M.links a).routingTable.buildSelfReturnRoute o shuffle a
      ourPub ourKem).hops.dropLast) : MetHop pop M a hop := by
  unfold RoutingTable.buildSelfReturnRoute at hhop
  dsimp only at hhop
  rw [List.dropLast_concat] at hhop
  split at hhop
  · cases hhop
  · exact h.taken hshuffle
      (fun n hn => (Bool.and_eq_true _ _ ▸ hn).2) _ hhop

-- ========== together

/-- In a network of honest nodes, whatever they do: what stands in a table
is true, nobody is turned away but for a nonce that was used, routes there
and back go over nodes that were met, a gossip names everyone that its
sender knows of up to fifty, and whoever is heard of along a chain of
gossips is known at its end. -/
theorem gossip_spreads (P : Prims) (hsigns : P.Signs)
    (json : List KnownNode → List UInt8) (pop : Population)
    (moves : List MeshMove) :
    (∀ a id n, ((run P json pop (new P pop) moves).links
        a).routingTable.getNode id = some n →
      n.TrueOf P (pop.who id)
        ((a, id) ∈ (run P json pop (new P pop) moves).met))
      ∧ (∀ a b env nonce,
        (verifyHandshake P env ((pop.who b).handshake P nonce)).out
            ((run P json pop (new P pop) moves).links a)
          = (TransportState.checkNonceCache env nonce
              ((run P json pop (new P pop) moves).links
                a).handshakeNonces).1)
      ∧ (∀ a destination o shuffle destPub destKem route,
        (∀ l, (shuffle l).Perm l) →
        ((run P json pop (new P pop) moves).links
          a).routingTable.buildHybridRoute o shuffle destination destPub
            destKem = some route →
        ∀ hop ∈ route.hops.dropLast,
          MetHop pop (run P json pop (new P pop) moves) a hop)
      ∧ (∀ a o shuffle ourPub ourKem, (∀ l, (shuffle l).Perm l) →
        ∀ hop ∈ (((run P json pop (new P pop) moves).links
          a).routingTable.buildSelfReturnRoute o shuffle a ourPub
            ourKem).hops.dropLast,
          MetHop pop (run P json pop (new P pop) moves) a hop)
      ∧ (∀ a o, ((run P json pop (new P pop) moves).links
          a).routingTable.nodes.keys.card ≤ 50 →
        (gossipRound P json ((run P json pop (new P pop) moves).links a)
          o).names
          = ((run P json pop (new P pop) moves).links
              a).routingTable.nodes.keys)
      ∧ ∀ x a m b n, Hearsay.Passes (new P pop).hearsay
          ((new P pop).tales P json pop moves) x a m b n →
        x ∈ (run P json pop (new P pop) (moves.take m)).knows a →
        x ∈ (run P json pop (new P pop) (moves.take n)).knows b := by
  have hhonest := (@new_honest P json pop).run hsigns moves
  refine ⟨hhonest.entry, hhonest.accepts hsigns, ?_, ?_, ?_, ?_⟩
  · intro a destination o shuffle destPub destKem route hshuffle hroute hop
      hhop
    exact hhonest.route hshuffle hroute hhop
  · intro a o shuffle ourPub ourKem hshuffle hop hhop
    exact hhonest.selfReturn hshuffle hhop
  · intro a o hfew
    exact RoutingTable.names_unsignedGossip o 50 (hhonest.keyed a) hfew
  · intro x a m b n hpasses hknown
    have hrun : ∀ k, (run P json pop (new P pop) (moves.take k)).hearsay
        = (new P pop).hearsay.run
          (((new P pop).tales P json pop moves).take k) := by
      intro k
      rw [tales_take]
      exact hearsay_run hsigns new_honest _
    have hthere := hpasses.known (by
      rw [← hrun]
      exact hknown)
    rw [← hrun] at hthere
    exact hthere

def sameKeys : Population where
  who := fun id =>
    { nodeId := id
      identityKey := Bytes.zero 32
      mixPublicKey := Bytes.zero 32
      kemPublicKey := List.replicate 1184 0
      computeEnabled := false
      computeCapacity := 0 }
  nodeId := fun _ => rfl
  kem := fun _ => List.length_replicate

def plainSampling : Sampling where
  order := IterOrder.bytewise
  shuffle := id
  shuffled := List.Perm.refl

/-- A node hears of another one from a third. -/
theorem gossip_spreads_third :
    Bytes.fill 16 2 ∈ (run .plain (fun _ => []) sameKeys
      (new .plain sameKeys)
      [.greet (Bytes.fill 16 1) (Bytes.fill 16 2) (quietEnv 0 0)
        (Bytes.zero 32) "", .gossip (Bytes.fill 16 1) plainSampling,
        .deliver 0 (Bytes.fill 16 3)]).knows (Bytes.fill 16 3) := by
  have hne : Bytes.fill 16 2 ≠ Bytes.fill 16 1 := by decide
  generalize Bytes.fill 16 1 = one at hne ⊢
  generalize Bytes.fill 16 2 = two at hne ⊢
  generalize Bytes.fill 16 3 = three
  let json : List KnownNode → List UInt8 := fun _ => []
  let start := new .plain sameKeys
  let greet : MeshMove := .greet one two (quietEnv 0 0) (Bytes.zero 32) ""
  let moves : List MeshMove := [greet, .gossip one plainSampling,
    .deliver 0 three]
  let met := run .plain json sameKeys start [greet]
  -- the handshake is accepted, so the one knows the other
  have haccepts := (gossip_spreads .plain plain_signs json sameKeys []).2.1
    one two (quietEnv 0 0) (Bytes.zero 32)
  have hok : (verifyHandshake .plain (quietEnv 0 0)
      ((sameKeys.who two).handshake .plain (Bytes.zero 32))).out
        (start.links one) = true :=
    haccepts.trans (checkNonceCache_unseen rfl)
  have htale : start.tale .plain json sameKeys greet
      = .learn one two := by
    unfold tale
    dsimp only [greet]
    rw [if_pos hok]
  have hknows : met.knows one = insert two (insert one ∅) := by
    have hknown := congrFun (congrArg Hearsay.known
      (hearsay_step (@new_honest .plain json sameKeys) greet)) one
    rw [htale] at hknown
    refine hknown.trans ?_
    unfold Hearsay.step
    dsimp only
    rw [Function.update_self]
    rfl
  -- which is all it has to tell
  have htold : two ∈ (gossipRound .plain json (met.links one)
      plainSampling).names := by
    have hall := (gossip_spreads .plain plain_signs json sameKeys
      [greet]).2.2.2.2.1 one plainSampling
    rw [hall]
    · have hmem : two ∈ met.knows one := by
        rw [hknows]
        exact Finset.mem_insert_self _ _
      rcases Finset.mem_insert.1 hmem with heq | hmem
      · exact absurd heq hne
      · exact hmem
    · have hsub : (met.links one).routingTable.nodes.keys
          ⊆ met.knows one := Finset.subset_insert _ _
      refine (Finset.card_le_card hsub).trans ?_
      rw [hknows]
      refine (Finset.card_insert_le _ _).trans ?_
      exact (Nat.succ_le_succ (Finset.card_insert_le _ _)).trans (by decide)
  -- and it comes to the third one
  have hfirst : (start.tales .plain json sameKeys moves).take 1
      = [.learn one two] := by
    show [start.tale .plain json sameKeys greet] = _
    rw [htale]
  have hpasses : Hearsay.Passes start.hearsay
      (start.tales .plain json sameKeys moves) two one 1 three 3 := by
    refine .told .here rfl htold (show 1 < 2 by decide) ?_
    rw [hfirst]
    rfl
  have hheard := (gossip_spreads .plain plain_signs json sameKeys
    moves).2.2.2.2.2 _ _ _ _ _ hpasses
  apply hheard
  show two ∈ met.knows one
  rw [hknows]
  exact Finset.mem_insert_self _ _

end Mesh

end StaticNet
