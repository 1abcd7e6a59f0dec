/-
What becomes of the accepts a rotation proposal draws.

# Two registries

`rotation_loop` notes each proposal in `pending_proposals`. The accept
handler looks the id up in `pending_swaps`, where `begin_swap_proposal`
would have put it ("call this immediately before sending the
`SwapProposal`"); the loop does not call that, and no other task of the
node does. What is in `pending_swaps` comes from proposals received, and
an entry's peer is then the sender its proposal names, which the id
covers. A proposal the node sent names the node itself, so no entry
under its id has the peer it was sent to, and the accept is dropped.

# The invariant

Every section either leaves the pending table's entries with their
peers, or opens an entry for a received proposal (`Linked`). So in every
state a pool of tasks reaches, each entry goes back to a received
proposal with its id and its peer.
-/
import StaticNet.Node.Proofs.Walks
import StaticNet.Swap.Proofs.Reservation

namespace StaticNet

open Proc NodeState

-- ====== the sections

/-- What a section does to the pending table and what it sends: entries
keep their peers or are opened as `K` allows, and a proposal is sent in
the name of `me` to somebody else. -/
def Linked (me : NodeId) (K : ProposalId → NodeId → Prop) (l : NodeAct)
    (n n' : NodeState) : Prop :=
  Traced K n.transport.swapState.pendingSwaps
      n'.transport.swapState.pendingSwaps
    ∧ ∀ dest p, l = .propose dest p → p.fromNode = me ∧ dest ≠ me

variable {N : NodeSetup} {E : NodeEvent → Prop} {me : NodeId}
  {K : ProposalId → NodeId → Prop} {cfg : NodeConfig} {env : Env}

/-- A section beside the pending table. -/
theorem linked_aside {l : NodeAct} {n n' : NodeState}
    (hl : ∀ dest p, l ≠ .propose dest p)
    (h : n'.transport.swapState.pendingSwaps
      = n.transport.swapState.pendingSwaps) : Linked me K l n n' := by
  refine ⟨?_, fun dest p heq => absurd heq (hl dest p)⟩
  rw [h]
  exact .refl _

theorem linked_read {α : Type} {l : NodeAct} (f : NodeState → α)
    (hl : ∀ dest p, l ≠ .propose dest p) :
    Sections (Linked me K) (Proc.read l f) :=
  fun _ => ⟨linked_aside hl rfl, trivial⟩

theorem linked_write {l : NodeAct} {upd : NodeState → NodeState}
    (hl : ∀ dest p, l ≠ .propose dest p)
    (h : ∀ n, (upd n).transport.swapState.pendingSwaps
      = n.transport.swapState.pendingSwaps) :
    Sections (Linked me K) (Proc.write l upd) :=
  fun n => ⟨linked_aside hl (h n), trivial⟩

theorem linked_atom {α : Type} {l : NodeAct}
    {f : NodeState → α × NodeState}
    (hl : ∀ dest p, l ≠ .propose dest p)
    (h : ∀ n, (f n).2.transport.swapState.pendingSwaps
      = n.transport.swapState.pendingSwaps) :
    Sections (Linked me K) (Proc.atom l f) :=
  fun n => ⟨linked_aside hl (h n), trivial⟩

/-- A handler of the transport, by its effects. -/
theorem linked_onTransport {α : Type} {M : PendingSwap → Prop}
    {p : Handler α} (hp : Sections (Effect M) p)
    (hK : ∀ pid peer, NewFor M pid peer → K pid peer) :
    Sections (Linked me K) (onTransport p) := by
  refine hp.zoom ?_
  intro l n s' heffect
  refine ⟨?_, nofun⟩
  intro pid swap' hget
  rcases heffect.traced pid swap' hget with hold | hnew
  · exact .inl hold
  · exact .inr (hK pid _ hnew)

/-- A handler of the transport that leaves the pending table. -/
theorem linked_beside {α : Type} {p : Handler α}
    (hp : Sections (fun _ s s' => s'.swapState.pendingSwaps
      = s.swapState.pendingSwaps) p) :
    Sections (Linked me K) (onTransport p) :=
  hp.zoom fun _ _ _ h => linked_aside nofun h

-- ========= the tasks

/-- Whatever is aside is linked. -/
theorem Aside.linked {l : NodeAct} {n n' : NodeState} (h : Aside l n n') :
    Linked me K l n n' :=
  ⟨h.swaps.traced, fun dest p heq => absurd heq (h.silent dest p)⟩

/-- The guarantee has all that is mild. -/
theorem linked_closed : Closed fun _ p => Sections (Linked me K) p :=
  closed_sections fun _ _ _ h => h.toAside.linked

theorem linked_response (P : Prims) (r : ChunkResponse) :
    Sections (Linked me K) (handleChunkResponse P cfg env r) := by
  refine linked_closed.response ?_ ?_
  · exact linked_onTransport (M := fun _ => False) (effects_retrieval _ _)
      fun _ _ h => h.elim fun _ h => h.1.elim
  · exact (aside_cacheRetrievedChunk _ _ _ _ _).mono
      fun _ _ _ h => h.linked

theorem beside_dropExpired (ids : List ChunkId) :
    Sections (fun _ s s' => s'.swapState.pendingSwaps
      = s.swapState.pendingSwaps) (dropExpired ids) := by
  induction ids with
  | nil => trivial
  | cons c rest ih =>
      exact fun _ => ⟨rfl, fun _ => ⟨rfl, fun _ => ⟨rfl, ih⟩⟩⟩

theorem linked_lease (P : Prims) (now : Nat) (e : LeaseEvent) :
    Sections (Linked me K) (onTransport (e.program P now)) := by
  apply linked_beside
  cases e with
  | heartbeat hb => exact fun _ => ⟨rfl, fun _ => ⟨rfl, trivial⟩⟩
  | tick order => exact fun _ => ⟨rfl, trivial⟩
  | sweep order =>
      refine Sections.bind ?_ fun _ => trivial
      intro s
      exact ⟨rfl, (beside_dropExpired _).bind fun _ _ => ⟨rfl, trivial⟩⟩

/-- The only task that sends proposals does so in the node's name, to a
peer that is another node. -/
theorem linked_proposeAll (P : Prims) (renv : RotateEnv)
    (masterKey : SymmetricKey) (known : List NodeId)
    (senders : FMap NodeId Unit) (i : Nat)
    (chunks : List (ChunkId × List UInt8)) :
    Sections (Linked me K)
      (proposeAll P renv me masterKey known senders i chunks) := by
  induction chunks generalizing i with
  | nil => trivial
  | cons chunk rest ih =>
      obtain ⟨chunkId, data⟩ := chunk
      unfold proposeAll
      dsimp only
      split
      next => exact ih _
      next hpeer =>
        refine Sections.bind (linked_read _ nofun) ?_
        intro binding
        cases binding with
        | none => exact ih _
        | some binding =>
            have hne : known.getD (renv.pick i % known.length) me ≠ me := by
              intro heq
              exact hpeer (by rw [heq]; simp)
            refine Sections.bind ?_ fun _ => (ih _).bind fun _ => trivial
            refine Sections.bind (linked_write nofun fun _ => rfl) ?_
            intro _
            refine Sections.bind (fun n => ⟨⟨.refl _, ?_⟩, trivial⟩) ?_
            · rintro dest p heq
              injection heq with hdest hp
              rw [← hdest, ← hp]
              exact ⟨rfl, hne⟩
            intro _
            refine Sections.bind (linked_read _ nofun) ?_
            intro created
            refine Sections.bind (linked_write nofun fun _ => rfl) ?_
            intro _
            exact linked_write nofun fun _ => rfl

theorem linked_rotationTick (P : Prims) (rcfg : RotationConfig)
    (renv : RotateEnv) :
    Sections (Linked me K) (rotationTick P rcfg me renv) := by
  refine linked_closed.rotationTick ?_ ?_
  · intro masterKey known senders eligible
    exact linked_proposeAll P renv masterKey known senders 0 eligible
  · intro order maxCached turns
    exact (aside_evictExcessCache _ _ _).mono fun _ _ _ h => h.linked

theorem linked_storeRepaired (now : Nat) (contentId : ContentId)
    (chunkId : ChunkId) (data : List UInt8) (createdAt : Nat) :
    Sections (Linked me K)
      (storeRepairedChunk now contentId chunkId data createdAt) := by
  refine Sections.bind (linked_read _ nofun) ?_
  intro actual
  refine Sections.bind (linked_atom nofun fun _ => rfl) ?_
  intro fits
  split
  · trivial
  refine Sections.bind (linked_write nofun ?_) ?_
  · intro n
    unfold putRepaired
    split <;> rfl
  intro _
  exact Sections.bind (linked_write nofun fun _ => rfl) fun _ => trivial

/-- A proposal among the calls of a run, by its id and sender. -/
def Received (N : NodeSetup) (E : NodeEvent → Prop) (pid : ProposalId)
    (peer : NodeId) : Prop :=
  ∃ env p, E (.proposal env p) ∧ proposalId N.prims p = pid
    ∧ p.fromNode = peer

/-- Every section of every task of the node is linked to the proposals
received. -/
theorem linked_program {e : NodeEvent} (he : E e) :
    Sections (Linked N.nodeId (Received N E)) (e.program N) := by
  cases e with
  | proposal env p =>
      refine linked_onTransport (effects_program (.proposal env p)) ?_
      rintro pid peer ⟨swap, ⟨retId, rfl⟩, rfl, rfl⟩
      exact ⟨env, p, he, rfl, rfl⟩
  | accept env a =>
      exact linked_onTransport (effects_program (.accept env a))
        fun _ _ h => h.elim fun _ h => h.1.elim
  | commit env c =>
      exact linked_onTransport (effects_program (.commit env c))
        fun _ _ h => h.elim fun _ h => h.1.elim
  | abort env a =>
      exact linked_onTransport (effects_program (.abort env a))
        fun _ _ h => h.elim fun _ h => h.1.elim
  | reject r =>
      exact linked_beside fun _ => ⟨rfl, fun _ => ⟨rfl, trivial⟩⟩
  | response env r => exact linked_response N.prims r
  | expirePending env =>
      refine Sections.bind ?_ fun _ => trivial
      refine linked_onTransport (M := fun _ => False) ?_
        fun _ _ h => h.elim fun _ h => h.1.elim
      apply Sections.bind
      · exact fun s => ⟨.expired _ s _, trivial⟩
      intro expired
      exact (effects_releaseExpired _ _).bind fun _ => trivial
  | retrievals order replySession sent =>
      exact (still_retrievals order replySession sent).mono
        fun _ _ _ h => h.toAside.linked
  | lease now e => exact linked_lease N.prims now e
  | rotation env => exact linked_rotationTick N.prims _ env
  | repair env manifest =>
      exact (linked_closed.repair linked_storeRepaired N.erasure env
        manifest).bind fun _ => trivial

-- ========== the runs

/-- The proposals a pool of tasks has sent, and the origins of its
pending entries. -/
theorem reach_linked {n₀ n : NodeState} {ps : List (Task Unit)}
    {tr : List (Step NodeAct NodeState)}
    (hempty : n₀.transport.swapState.pendingSwaps = ∅)
    (hreach : Reach (TaskOf N E) (fun _ _ => True) n₀ n ps tr) :
    (∀ dest p n₁, (NodeAct.propose dest p, n₁) ∈ tr →
        p.fromNode = N.nodeId ∧ dest ≠ N.nodeId)
      ∧ ∀ pid swap, n.transport.swapState.pendingSwaps.get pid = some swap →
          Received N E pid swap.peer := by
  have hinv := hreach.invariant
    (I := fun tr n =>
      (∀ dest p n₁, (NodeAct.propose dest p, n₁) ∈ tr →
        p.fromNode = N.nodeId ∧ dest ≠ N.nodeId)
      ∧ ∀ pid swap, n.transport.swapState.pendingSwaps.get pid = some swap →
          Received N E pid swap.peer)
    ⟨nofun, fun pid swap hget => by rw [hempty] at hget; cases hget⟩
    (by
      rintro p ⟨e, he, rfl⟩
      refine Ok.of_sections ?_ (linked_program he) []
      rintro tr l n n' ⟨hsent, horigin⟩ - ⟨htraced, hlabel⟩
      constructor
      · intro dest p n₁ hmem
        rw [List.mem_append, List.mem_singleton] at hmem
        rcases hmem with hmem | heq
        · exact hsent dest p n₁ hmem
        · exact hlabel dest p (congrArg Prod.fst heq).symm
      · intro pid swap' hget
        rcases htraced pid swap' hget with ⟨swap, hold, hpeer⟩ | hnew
        · rw [← hpeer]
          exact horigin pid swap hold
        · exact hnew)
  exact hinv.1

/-- Whatever the node's tasks have done, the accept of a peer to a
proposal the rotation loop sent it finds no pending swap, and leaves the
pending table as it is. The calls of the run are arbitrary but for one
thing: no proposal received has the id of the one sent and another
sender, which would be a collision of blake3. -/
theorem rotation_accept_unmatched (N : NodeSetup) (E : NodeEvent → Prop)
    (n₀ n : NodeState) (ps : List (Task Unit))
    (tr : List (Step NodeAct NodeState))
    (hempty : n₀.transport.swapState.pendingSwaps = ∅)
    (hreach : Reach (TaskOf N E) (fun _ _ => True) n₀ n ps tr)
    (peer : NodeId) (p : SwapProposal)
    (hsent : ∃ n₁, (NodeAct.propose peer p, n₁) ∈ tr)
    (hids : ∀ env q, E (.proposal env q) →
      proposalId N.prims q = proposalId N.prims p →
      q.fromNode = p.fromNode)
    (env : Env) (a : SwapAccept)
    (hid : a.proposalId = proposalId N.prims p)
    (hfrom : a.fromNode = peer) :
    pendingWith a.proposalId a.fromNode n.transport = false
      ∧ ((NodeEvent.accept env a).step N n).transport.swapState.pendingSwaps
        = n.transport.swapState.pendingSwaps := by
  obtain ⟨n₁, hmem⟩ := hsent
  obtain ⟨hsends, horigin⟩ := reach_linked hempty hreach
  obtain ⟨hme, hother⟩ := hsends peer p n₁ hmem
  have hwith : pendingWith a.proposalId a.fromNode n.transport = false := by
    rw [Bool.eq_false_iff]
    intro hwith
    unfold pendingWith SwapState.getPendingSwap at hwith
    obtain ⟨swap, hget, hpeer⟩ := (Option.any_eq_true _ _).1 hwith
    obtain ⟨env', q, hq, hqid, hqfrom⟩ := horigin _ swap hget
    have hqme := hids env' q hq (hqid.trans hid)
    -- the entry's peer is the node itself, not the one that accepted
    apply hother
    calc peer = a.fromNode := hfrom.symm
      _ = swap.peer := (beq_iff_eq.1 hpeer).symm
      _ = q.fromNode := hqfrom.symm
      _ = N.nodeId := hqme.trans hme
  refine ⟨hwith, ?_⟩
  show ((onTransport (handleMaintenanceAccept N.prims env
    a)).post n).transport.swapState.pendingSwaps = _
  rw [post_onTransport]
  dsimp only
  unfold handleMaintenanceAccept
  cases hauth : a.verifySignature N.prims
      && authentic env a.fromNode a.identityPublicKey a.nonce
        n.transport with
  | false =>
      obtain ⟨cache, hpost⟩ := post_signedMessage_ignored
        (adoptAccept N.prims env a ENCRYPTED_CHUNK_SIZE) hauth
      rw [hpost]
      rfl
  | true =>
      rw [post_signedMessage hauth]
      have hheard : pendingWith a.proposalId a.fromNode
          (heard env a.fromNode a.nonce n.transport) = false := hwith
      rw [post_adoptAccept_foreign N.prims env hheard]
      rfl

-- ==== one epoch, concretely

/-- A node that holds one leased chunk with its proof and is connected to
one peer. -/
def rotatingNode : NodeState where
  transport := { roomyNode with
    routingTable := (∅ : FMap NodeId KnownNode).insert (Bytes.fill 16 1)
      (knownPeer 1)
    leaseManager := LeaseManager.new.addLease (Bytes.fill 32 9)
      ⟨Bytes.fill 32 9, 200000, Bytes.zero 32, Bytes.zero 32⟩ }
  contentKeypairs := ∅
  manifests := ∅
  merkleProofs := (∅ : FMap ChunkId _).insert (Bytes.fill 32 9)
    (Bytes.fill 32 3, emptyProof)
  storageKeys := ∅
  chunkMetadata := ∅
  contentRetriever := ContentRetriever.new
  singleChunks := ∅
  rotationState := RotationState.new
  hostBuffer := HostBuffer.new 0
  connections := (∅ : FMap NodeId Unit).insert (Bytes.fill 16 1) ()

/-- Every chunk rotates every epoch. -/
def rotatingSetup : NodeSetup where
  prims := Prims.plain
  erasure := ⟨fun _ _ _ => .error ""⟩
  config := ⟨.full, { RotationConfig.default with rotationPercentage := 100 }⟩
  nodeId := Bytes.fill 16 2

def rotatingEnv : RotateEnv := quietRotation (Bytes.fill 32 4) 6 100

/-- The proposal the epoch sends. -/
def rotatedOffer : SwapProposal :=
  rotationProposal Prims.plain rotatingEnv (Bytes.fill 16 2)
    (Bytes.zero 32) 0 (Bytes.fill 32 9) (Bytes.fill 32 3, emptyProof)

/-- The peer's signed accept. -/
def rotatedAccept : SwapAccept :=
  (createSwapAccept Prims.plain (Bytes.fill 16 1) (Bytes.fill 32 7)
    (Bytes.zero 32) (proposalId Prims.plain rotatedOffer) 86400 110
    (Bytes.fill 32 8)).sign Prims.plain (Bytes.fill 32 1) (Bytes.fill 32 8)

theorem rotatingNode_proposes :
    NodeAct.propose (Bytes.fill 16 1) rotatedOffer
      ∈ ((NodeEvent.rotation rotatingEnv).program rotatingSetup).acts
          rotatingNode := by
  have hat : (((NodeEvent.rotation rotatingEnv).program
      rotatingSetup).acts rotatingNode)[10]?
      = some (.propose (Bytes.fill 16 1) rotatedOffer) := rfl
  exact List.mem_of_getElem? hat

/-- The epoch on its own is a run of the pool, and its proposal is in the
history. -/
theorem rotatingNode_reach :
    ∃ ps tr, Reach (TaskOf rotatingSetup (· = .rotation rotatingEnv))
        (fun _ _ => True) rotatingNode
        ((NodeEvent.rotation rotatingEnv).step rotatingSetup rotatingNode)
        ps tr
      ∧ ∃ n₁, (NodeAct.propose (Bytes.fill 16 1) rotatedOffer, n₁)
          ∈ tr := by
  obtain ⟨tr, hreach, hacts⟩ := Reach.sequential
    (H := TaskOf rotatingSetup (· = .rotation rotatingEnv))
    (C := fun _ _ => True) (fun _ _ => trivial)
    (p := (NodeEvent.rotation rotatingEnv).program rotatingSetup)
    ⟨_, rfl, rfl⟩ (s := rotatingNode) .init
  refine ⟨_, [] ++ tr, hreach, ?_⟩
  have hmem := rotatingNode_proposes
  rw [← hacts] at hmem
  obtain ⟨⟨l, n₁⟩, hstep, hl⟩ := List.mem_map.1 hmem
  obtain rfl : l = _ := hl
  exact ⟨n₁, hstep⟩

/-- One epoch, then the accept. -/
theorem rotation_accept_unmatched_once :
    pendingWith rotatedAccept.proposalId rotatedAccept.fromNode
      ((NodeEvent.rotation rotatingEnv).step rotatingSetup
        rotatingNode).transport = false := by
  obtain ⟨ps, tr, hreach, hsent⟩ := rotatingNode_reach
  exact (rotation_accept_unmatched rotatingSetup _ rotatingNode _ ps tr
    rfl hreach (Bytes.fill 16 1) rotatedOffer hsent nofun
    (quietEnv 7 110) rotatedAccept rfl rfl).1

/-- The epoch sends its proposal, the peer's accept is signed under its
pinned key and comes ten seconds later, and no pending swap with that id
and peer is there to take the return chunk. -/
theorem rotation_swap_stalls :
    NodeAct.propose (Bytes.fill 16 1) rotatedOffer
        ∈ ((NodeEvent.rotation rotatingEnv).program rotatingSetup).acts
          rotatingNode
      ∧ rotatedAccept.proposalId = proposalId Prims.plain rotatedOffer
      ∧ rotatedAccept.fromNode = Bytes.fill 16 1
      ∧ (rotatedAccept.verifySignature Prims.plain
          && authentic (quietEnv 7 110) rotatedAccept.fromNode
            rotatedAccept.identityPublicKey rotatedAccept.nonce
            ((NodeEvent.rotation rotatingEnv).step rotatingSetup
              rotatingNode).transport) = true
      ∧ pendingWith rotatedAccept.proposalId rotatedAccept.fromNode
          ((NodeEvent.rotation rotatingEnv).step rotatingSetup
            rotatingNode).transport = false :=
  ⟨rotatingNode_proposes, rfl, rfl, by decide, by decide⟩

end StaticNet
