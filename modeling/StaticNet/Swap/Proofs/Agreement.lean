/-
Swap agreement between two honest nodes over a lossy network.

# The property

`Agrees`: a proposal id that one node has completed and the other has
aborted is one for which the other node has stored its peer's chunk.

# Where it breaks

A node sends its commit and may then still abort the swap: by timeout,
by an abort message, or because an accept finds no room. If its commit
arrives, the peer completes. `Steady` excludes exactly these aborts,
and the re-opening of an id the node has committed to or aborted.

# The invariant

Per node (`NodeOk`), relative to the ids it has sent commits for
(`mine`) and the ids its peer has (`theirs`): an id in `mine` is still
pending with its commit sent, or its chunk is stored (`kept`); a pending
id is not in the aborted log (`live`); a received commit, and hence a
completion, is for an id in `theirs` (`heard`, `done`). Each edit a
handler can make to the registry keeps this under its own condition (the
`NodeOk` lemmas), and each handler is a composition of such edits. The
completed id is in `theirs`, so the peer kept it, so the peer has either
stored it or has it pending, and then it is not aborted there.
-/
import StaticNet.Lib.Exact
import StaticNet.Swap.Duo
import StaticNet.Swap.Proofs.Gate

namespace StaticNet

open Proc TransportState

-- ========= agreement

/-- What one node completed the other did not abort without storing. -/
def Duo.Agrees (w : Duo) : Prop :=
  ∀ x pid, pid ∈ (w.node x).swapState.completedSwaps →
    pid ∈ (w.node x.other).swapState.abortedSwaps →
    ∃ swap ∈ w.stored x.other, swap.proposalId = pid
      ∧ (w.node x.other).chunkHolder.hasChunk swap.theirChunkId = true

/-- No commit has been sent under this id. -/
def Uncommitted (s : TransportState) (pid : ProposalId) : Prop :=
  ∀ swap, s.swapState.pendingSwaps.get pid = some swap →
    swap.sentCommit = false

/-- The id can be opened afresh: not committed to and not aborted. -/
def Openable (s : TransportState) (pid : ProposalId) : Prop :=
  Uncommitted s pid ∧ pid ∉ s.swapState.abortedSwaps

/-- Would the abort handler act on this message? -/
def abortBinds (P : Prims) (env : Env) (a : SwapAbort)
    (s : TransportState) : Bool :=
  a.verifySignature P
    && authentic env a.fromNode a.identityPublicKey a.nonce s
    && pendingWith a.proposalId a.fromNode s

/-- Handling a payload neither aborts a swap that has sent its commit
nor opens an id that is committed to or aborted. -/
def SteadyAt (P : Prims) (env : Env) : Payload → TransportState → Prop
  | .proposal p, s =>
      opens P env p s = true → Openable s (proposalId P p)
  | .message (.accept a), s =>
      acceptBinds P env a s = true →
      s.storageCapacity.canAccept ENCRYPTED_CHUNK_SIZE 0 = false →
      Uncommitted s a.proposalId
  | .message (.abort a), s =>
      abortBinds P env a s = true → Uncommitted s a.proposalId
  | _, _ => True

/-- An event of the system is steady. -/
def Duo.Steady (P : Prims) (w : Duo) : DuoEvent → Prop
  | .propose x _ p =>
      Openable (w.node x) (proposalId P (w.ownProposal x p))
  | .serve _ _ => True
  | .deliver i env => ∀ pkt y, w.net[i]? = some pkt →
      w.addressee pkt = some y → SteadyAt P env pkt.payload (w.node y)
  | .expire x env => ∀ pid swap,
      (w.node x).swapState.pendingSwaps.get pid = some swap →
      SwapState.timedOut env.now (w.node x).pendingSwapTimeoutSecs swap
        = true →
      swap.sentCommit = false

-- ==== one node's invariant

/-- What holds of a node's registry and holder, given what it has stored
and the ids it (`mine`) and its peer (`theirs`) have committed to. -/
structure NodeOk (m : FMap ProposalId PendingSwap)
    (aborted completed : List ProposalId) (holder : ChunkHolder)
    (stored : List PendingSwap) (mine theirs : List ProposalId)
    (peer : NodeId) : Prop where
  keyed : ∀ pid swap, m.get pid = some swap → swap.proposalId = pid
  peers : ∀ pid swap, m.get pid = some swap → swap.peer = peer
  buffered : ∀ pid swap, m.get pid = some swap → swap.sentCommit = true →
    swap.receivedTheirChunk = true
  live : ∀ pid swap, m.get pid = some swap → pid ∉ aborted
  kept : ∀ pid ∈ mine, (∃ swap, m.get pid = some swap
      ∧ swap.sentCommit = true) ∨ ∃ swap ∈ stored, swap.proposalId = pid
  heard : ∀ pid swap, m.get pid = some swap → swap.receivedCommit = true →
    pid ∈ theirs
  done : ∀ pid ∈ completed, pid ∈ theirs
  held : ∀ swap ∈ stored, holder.hasChunk swap.theirChunkId = true

variable {m : FMap ProposalId PendingSwap}
  {aborted completed mine theirs : List ProposalId} {holder : ChunkHolder}
  {stored : List PendingSwap} {peer : NodeId} {pid : ProposalId}
  {swap : PendingSwap}

theorem mem_pushCapped {log : List ProposalId} {pid' : ProposalId}
    (h : pid' ∈ pushCapped log pid) : pid' ∈ log ∨ pid' = pid := by
  have hmem := List.mem_of_mem_drop h
  simpa using hmem

theorem mem_pushCapped_self (log : List ProposalId) (pid : ProposalId) :
    pid ∈ pushCapped log pid := by
  have hcap : (log ++ [pid]).length - MAX_COMPLETED_SWAPS
      ≤ log.length := by
    rw [List.length_append, List.length_singleton]
    unfold MAX_COMPLETED_SWAPS
    omega
  unfold pushCapped
  rw [List.drop_append_of_le_length hcap]
  exact List.mem_append_right _ (List.mem_singleton_self pid)

/-- The peer's commits only grow. -/
theorem NodeOk.mono_theirs {theirs' : List ProposalId}
    (h : NodeOk m aborted completed holder stored mine theirs peer)
    (hsub : ∀ pid ∈ theirs, pid ∈ theirs') :
    NodeOk m aborted completed holder stored mine theirs' peer :=
  { h with
    heard := fun pid swap hg hr => hsub pid (h.heard pid swap hg hr)
    done := fun pid hp => hsub pid (h.done pid hp) }

/-- Opening a fresh entry under an openable id. -/
theorem NodeOk.insert (swap : PendingSwap)
    (h : NodeOk m aborted completed holder stored mine theirs peer)
    (hsent : swap.sentCommit = false) (hrec : swap.receivedCommit = false)
    (hpeer : swap.peer = peer)
    (hold : ∀ old, m.get swap.proposalId = some old →
      old.sentCommit = false)
    (hlive : swap.proposalId ∉ aborted) :
    NodeOk (m.insert swap.proposalId swap) aborted completed holder stored
      mine theirs peer := by
  -- every lookup is the new entry or an old one
  have hcases : ∀ {pid x}, (m.insert swap.proposalId swap).get pid = some x →
      (pid = swap.proposalId ∧ x = swap) ∨ m.get pid = some x := by
    intro pid x hg
    rw [FMap.get_insert] at hg
    split at hg
    next heq =>
      injection hg with hg
      exact .inl ⟨heq, hg.symm⟩
    next => exact .inr hg
  constructor
  · intro pid x hg
    rcases hcases hg with ⟨rfl, rfl⟩ | hg
    · rfl
    · exact h.keyed pid x hg
  · intro pid x hg
    rcases hcases hg with ⟨rfl, rfl⟩ | hg
    · exact hpeer
    · exact h.peers pid x hg
  · intro pid x hg hs
    rcases hcases hg with ⟨rfl, rfl⟩ | hg
    · rw [hsent] at hs
      cases hs
    · exact h.buffered pid x hg hs
  · intro pid x hg
    rcases hcases hg with ⟨rfl, rfl⟩ | hg
    · exact hlive
    · exact h.live pid x hg
  · intro pid hp
    rcases h.kept pid hp with ⟨x, hg, hs⟩ | hst
    · by_cases heq : pid = swap.proposalId
      · subst heq
        rw [hold x hg] at hs
        cases hs
      · exact .inl ⟨x, (FMap.get_insert_ne m swap heq).trans hg, hs⟩
    · exact .inr hst
  · intro pid x hg hr
    rcases hcases hg with ⟨rfl, rfl⟩ | hg
    · rw [hrec] at hr
      cases hr
    · exact h.heard pid x hg hr
  · exact h.done
  · exact h.held

/-- An update in place that keeps what the invariant reads; a commit
that becomes received must be one the peer has sent. -/
theorem NodeOk.modify {f : PendingSwap → PendingSwap}
    (h : NodeOk m aborted completed holder stored mine theirs peer)
    (hf : ∀ x, (f x).proposalId = x.proposalId ∧ (f x).peer = x.peer
      ∧ (f x).sentCommit = x.sentCommit
      ∧ (f x).receivedTheirChunk = x.receivedTheirChunk)
    (hrec : ∀ x, m.get pid = some x → (f x).receivedCommit = true →
      pid ∈ theirs) :
    NodeOk (m.modify pid f) aborted completed holder stored mine theirs
      peer := by
  have hcases : ∀ {pid' x}, (m.modify pid f).get pid' = some x →
      (∃ y, pid' = pid ∧ m.get pid' = some y ∧ x = f y)
        ∨ m.get pid' = some x := by
    intro pid' x hg
    rw [FMap.get_modify] at hg
    split at hg
    next heq =>
      rw [Option.map_eq_some_iff] at hg
      obtain ⟨y, hy, hx⟩ := hg
      exact .inl ⟨y, heq, hy, hx.symm⟩
    next => exact .inr hg
  constructor
  · intro pid' x hg
    rcases hcases hg with ⟨y, -, hy, rfl⟩ | hg
    · exact (hf y).1.trans (h.keyed pid' y hy)
    · exact h.keyed pid' x hg
  · intro pid' x hg
    rcases hcases hg with ⟨y, -, hy, rfl⟩ | hg
    · exact (hf y).2.1.trans (h.peers pid' y hy)
    · exact h.peers pid' x hg
  · intro pid' x hg hs
    rcases hcases hg with ⟨y, -, hy, rfl⟩ | hg
    · rw [(hf y).2.2.1] at hs
      rw [(hf y).2.2.2]
      exact h.buffered pid' y hy hs
    · exact h.buffered pid' x hg hs
  · intro pid' x hg
    rcases hcases hg with ⟨y, -, hy, rfl⟩ | hg
    · exact h.live pid' y hy
    · exact h.live pid' x hg
  · intro pid' hp
    rcases h.kept pid' hp with ⟨x, hg, hs⟩ | hst
    · by_cases heq : pid' = pid
      · subst heq
        refine .inl ⟨f x, ?_, (hf x).2.2.1.trans hs⟩
        rw [FMap.get_modify_self, hg]
        rfl
      · exact .inl ⟨x, (FMap.get_modify_ne m f heq).trans hg, hs⟩
    · exact .inr hst
  · intro pid' x hg hr
    rcases hcases hg with ⟨y, rfl, hy, rfl⟩ | hg
    · exact hrec y hy hr
    · exact h.heard pid' x hg hr
  · exact h.done
  · exact h.held

/-- Dropping an entry that has not sent its commit, into the aborted
log. -/
theorem NodeOk.abort
    (h : NodeOk m aborted completed holder stored mine theirs peer)
    (hsent : ∀ swap, m.get pid = some swap → swap.sentCommit = false) :
    NodeOk (m.erase pid) (pushCapped aborted pid) completed holder stored
      mine theirs peer := by
  have hcases : ∀ {pid' x}, (m.erase pid).get pid' = some x →
      pid' ≠ pid ∧ m.get pid' = some x := by
    intro pid' x hg
    rw [FMap.get_erase] at hg
    split at hg
    next => cases hg
    next hne => exact ⟨hne, hg⟩
  constructor
  · exact fun pid' x hg => h.keyed pid' x (hcases hg).2
  · exact fun pid' x hg => h.peers pid' x (hcases hg).2
  · exact fun pid' x hg hs => h.buffered pid' x (hcases hg).2 hs
  · intro pid' x hg hmem
    rcases mem_pushCapped hmem with hmem | heq
    · exact h.live pid' x (hcases hg).2 hmem
    · exact (hcases hg).1 heq
  · intro pid' hp
    rcases h.kept pid' hp with ⟨x, hg, hs⟩ | hst
    · by_cases heq : pid' = pid
      · subst heq
        rw [hsent x hg] at hs
        cases hs
      · exact .inl ⟨x, (FMap.get_erase_ne m heq).trans hg, hs⟩
    · exact .inr hst
  · exact fun pid' x hg hr => h.heard pid' x (hcases hg).2 hr
  · exact h.done
  · exact h.held

/-- Buffering the peer's chunk and sending our commit. -/
theorem NodeOk.buffer (data : List UInt8)
    (h : NodeOk m aborted completed holder stored mine theirs peer)
    (hget : m.get pid = some swap) :
    NodeOk (m.insert pid { swap with
        theirChunkData := data
        receivedTheirChunk := true
        sentCommit := true }) aborted completed holder stored
      (mine ++ [pid]) theirs peer := by
  have hkey := h.keyed pid swap hget
  have hcases : ∀ {pid' x}, (m.insert pid { swap with
        theirChunkData := data
        receivedTheirChunk := true
        sentCommit := true }).get pid' = some x →
      (pid' = pid ∧ x = { swap with
        theirChunkData := data
        receivedTheirChunk := true
        sentCommit := true }) ∨ m.get pid' = some x := by
    intro pid' x hg
    rw [FMap.get_insert] at hg
    split at hg
    next heq =>
      injection hg with hg
      exact .inl ⟨heq, hg.symm⟩
    next => exact .inr hg
  constructor
  · intro pid' x hg
    rcases hcases hg with ⟨rfl, rfl⟩ | hg
    · exact hkey
    · exact h.keyed pid' x hg
  · intro pid' x hg
    rcases hcases hg with ⟨rfl, rfl⟩ | hg
    · exact h.peers pid' swap hget
    · exact h.peers pid' x hg
  · intro pid' x hg hs
    rcases hcases hg with ⟨rfl, rfl⟩ | hg
    · rfl
    · exact h.buffered pid' x hg hs
  · intro pid' x hg
    rcases hcases hg with ⟨rfl, rfl⟩ | hg
    · exact h.live pid' swap hget
    · exact h.live pid' x hg
  · intro pid' hp
    by_cases heq : pid' = pid
    · subst heq
      exact .inl ⟨_, FMap.get_insert_self m pid' _, rfl⟩
    · rcases List.mem_append.1 hp with hp | hp
      · rcases h.kept pid' hp with ⟨x, hg, hs⟩ | hst
        · exact .inl ⟨x, (FMap.get_insert_ne m _ heq).trans hg, hs⟩
        · exact .inr hst
      · exact absurd (List.mem_singleton.1 hp) heq
  · intro pid' x hg hr
    rcases hcases hg with ⟨rfl, rfl⟩ | hg
    · exact h.heard pid' swap hget hr
    · exact h.heard pid' x hg hr
  · exact h.done
  · exact h.held

/-- Completing a ready entry and storing its chunk. -/
theorem NodeOk.complete {holder' : ChunkHolder}
    (h : NodeOk m aborted completed holder stored mine theirs peer)
    (hget : m.get pid = some swap) (hready : swap.ready = true)
    (hgrow : ∀ c, holder.hasChunk c = true → holder'.hasChunk c = true)
    (hput : holder'.hasChunk swap.theirChunkId = true) :
    NodeOk (m.erase pid) aborted (pushCapped completed pid) holder'
      (stored ++ [swap]) mine theirs peer := by
  have hflags := AllFlags.of_ready hready
  have hcases : ∀ {pid' x}, (m.erase pid).get pid' = some x →
      m.get pid' = some x := by
    intro pid' x hg
    rw [FMap.get_erase] at hg
    split at hg
    next => cases hg
    next => exact hg
  constructor
  · exact fun pid' x hg => h.keyed pid' x (hcases hg)
  · exact fun pid' x hg => h.peers pid' x (hcases hg)
  · exact fun pid' x hg hs => h.buffered pid' x (hcases hg) hs
  · exact fun pid' x hg => h.live pid' x (hcases hg)
  · intro pid' hp
    by_cases heq : pid' = pid
    · subst heq
      exact .inr ⟨swap, by simp, h.keyed pid' swap hget⟩
    · rcases h.kept pid' hp with ⟨x, hg, hs⟩ | ⟨x, hx, hk⟩
      · exact .inl ⟨x, (FMap.get_erase_ne m heq).trans hg, hs⟩
      · exact .inr ⟨x, List.mem_append_left _ hx, hk⟩
  · exact fun pid' x hg hr => h.heard pid' x (hcases hg) hr
  · intro pid' hp
    rcases mem_pushCapped hp with hp | rfl
    · exact h.done pid' hp
    · exact h.heard pid' swap hget hflags.2.1
  · intro x hx
    rcases List.mem_append.1 hx with hx | hx
    · exact hgrow _ (h.held x hx)
    · rw [List.mem_singleton.1 hx]
      exact hput

-- ======= one handler

variable {P : Prims} {env : Env} {s s' : TransportState}

/-- The invariant of a node in a state. -/
abbrev StateOk (s : TransportState) (stored : List PendingSwap)
    (mine theirs : List ProposalId) (peer : NodeId) : Prop :=
  NodeOk s.swapState.pendingSwaps s.swapState.abortedSwaps
    s.swapState.completedSwaps s.chunkHolder stored mine theirs peer

/-- Every commit among executed sections goes to this node. -/
def CommitsTo (peer : NodeId) (labels : List Act) : Prop :=
  ∀ dest c, Act.send dest (.commit c) ∈ labels → dest = peer

/-- Running a program from a state keeps the invariant, with its puts
and commits accounted for, commits to the peer only, and keeps the
node's identity. -/
def KeepsOk {α : Type} (theirs : List ProposalId) (peer : NodeId)
    (p : Handler α) (s : TransportState) : Prop :=
  ∀ stored mine, StateOk s stored mine theirs peer →
    StateOk (p.post s) (stored ++ putsIn (p.acts s))
        (mine ++ commitsIn (p.acts s)) theirs peer
      ∧ CommitsTo peer (p.acts s) ∧ (p.post s).nodeId = s.nodeId

theorem CommitsTo.append {labels labels' : List Act}
    (h : CommitsTo peer labels) (h' : CommitsTo peer labels') :
    CommitsTo peer (labels ++ labels') := by
  intro dest c hmem
  rcases List.mem_append.1 hmem with hmem | hmem
  · exact h dest c hmem
  · exact h' dest c hmem

theorem KeepsOk.bind {α β : Type} {p : Handler α} {f : α → Handler β}
    (hp : KeepsOk theirs peer p s)
    (hf : KeepsOk theirs peer (f (p.out s)) (p.post s)) :
    KeepsOk theirs peer (p >>= f) s := by
  intro stored mine h
  obtain ⟨hs, hto, hid⟩ := hp stored mine h
  obtain ⟨hs', hto', hid'⟩ := hf _ _ hs
  rw [post_bind, acts_bind]
  refine ⟨?_, hto.append hto', hid'.trans hid⟩
  unfold putsIn commitsIn at hs' ⊢
  rw [List.filterMap_append, List.filterMap_append, ← List.append_assoc,
    ← List.append_assoc]
  exact hs'

theorem keepsOk_pure {α : Type} (a : α) :
    KeepsOk theirs peer (pure a : Handler α) s := by
  intro stored mine h
  refine ⟨?_, nofun, rfl⟩
  show StateOk s (stored ++ []) (mine ++ []) theirs peer
  rw [List.append_nil, List.append_nil]
  exact h

/-- A tame program puts nothing and commits to nothing. -/
theorem tame_outputs {α : Type} {p : Handler α} (h : Sections Tame p) :
    putsIn (p.acts s) = [] ∧ commitsIn (p.acts s) = []
      ∧ CommitsTo peer (p.acts s) := by
  unfold putsIn commitsIn
  rw [List.filterMap_eq_nil_iff, List.filterMap_eq_nil_iff]
  refine ⟨?_, ?_, ?_⟩
  · intro l hl
    obtain ⟨s₁, s₂, -, -, hG⟩ := h.of_mem_acts hl
    cases l with
    | put swap => exact hG.elim
    | _ => rfl
  · intro l hl
    obtain ⟨s₁, s₂, -, -, hG⟩ := h.of_mem_acts hl
    cases l with
    | send dest msg =>
        cases msg with
        | commit c => exact hG.elim
        | _ => rfl
    | _ => rfl
  · intro dest c hl
    obtain ⟨s₁, s₂, -, -, hG⟩ := h.of_mem_acts hl
    exact hG.elim

theorem keepsOk_of_tame {α : Type} {p : Handler α} (h : Sections Tame p)
    (hpost : ∀ stored mine, StateOk s stored mine theirs peer →
      StateOk (p.post s) stored mine theirs peer) :
    KeepsOk theirs peer p s := by
  intro stored mine hs
  obtain ⟨hputs, hcommits, hto⟩ := tame_outputs h
  rw [hputs, hcommits, List.append_nil, List.append_nil]
  exact ⟨hpost stored mine hs, hto,
    h.post_eq TransportState.nodeId (fun _ _ _ hG => hG.2.1) s⟩

/-- A tame program that leaves registry and holder alone. -/
theorem keepsOk_same {α : Type} {p : Handler α} (h : Sections Tame p)
    (hp : (p.post s).swapState.pendingSwaps = s.swapState.pendingSwaps)
    (ha : (p.post s).swapState.abortedSwaps = s.swapState.abortedSwaps)
    (hc : (p.post s).swapState.completedSwaps
      = s.swapState.completedSwaps)
    (hh : (p.post s).chunkHolder = s.chunkHolder) :
    KeepsOk theirs peer p s := by
  apply keepsOk_of_tame h
  intro stored mine hs
  unfold StateOk
  rw [hp, ha, hc, hh]
  exact hs

theorem keepsOk_read {α : Type} {l : Act} {f : TransportState → α}
    (hl : ∀ s, Tame l s s) : KeepsOk theirs peer (read l f) s :=
  keepsOk_same (fun s => ⟨hl s, trivial⟩) rfl rfl rfl rfl

theorem keepsOk_propose {p : SwapProposal}
    (hopen : Openable s (proposalId P p)) :
    KeepsOk theirs peer (beginSwapProposal P env peer p) s := by
  apply keepsOk_of_tame (sections_beginSwapProposal peer p)
  intro stored mine hs
  exact hs.insert (proposerEntry P peer p env.now) rfl rfl rfl hopen.1
    hopen.2

/-- A proposal that is not opened leaves registry and holder alone. -/
theorem proposal_closed {p : SwapProposal} (h : opens P env p s = false) :
    ∃ s', (handleMaintenanceProposal P env p).post s = s'
      ∧ s'.swapState.pendingSwaps = s.swapState.pendingSwaps
      ∧ s'.swapState.abortedSwaps = s.swapState.abortedSwaps
      ∧ s'.swapState.completedSwaps = s.swapState.completedSwaps
      ∧ s'.chunkHolder = s.chunkHolder := by
  rw [post_proposal]
  unfold opens at h
  split
  next hd =>
    rw [hd] at h
    unfold prepareSwap
    rw [post_bind, out_read, post_read, pickReturn_reconciled]
    cases hpick : pickReturn env p s with
    | none => exact ⟨_, rfl, rfl, rfl, rfl, rfl⟩
    | some retId =>
        have hlen : MAX_PENDING_SWAPS
            ≤ s.swapState.pendingSwaps.len := by
          simpa [hpick, Except.isOk, Except.toBool] using h
        simp only [post_bind, out_read, post_read, reconciled_swapState,
          hlen, if_true]
        exact ⟨_, rfl, rfl, rfl, rfl, rfl⟩
  next => exact ⟨_, rfl, rfl, rfl, rfl, rfl⟩

theorem keepsOk_proposal {p : SwapProposal} (hpeer : p.fromNode = peer)
    (hopen : opens P env p s = true → Openable s (proposalId P p)) :
    KeepsOk theirs peer (handleMaintenanceProposal P env p) s := by
  cases ho : opens P env p s with
  | false =>
      obtain ⟨s', hpost, hp, ha, hc, hh⟩ := proposal_closed ho
      rw [← hpost] at hp ha hc hh
      exact keepsOk_same (sections_proposal p) hp ha hc hh
  | true =>
      obtain ⟨retId, -, hpost, -⟩ := run_proposal ho
      apply keepsOk_of_tame (sections_proposal p)
      intro stored mine hs
      rw [hpost]
      generalize ENCRYPTED_CHUNK_SIZE = size
      exact hs.insert (accepterEntry P p retId size env.now) rfl rfl hpeer
        (hopen ho).1 (hopen ho).2

/-- Aborting an uncommitted swap. -/
theorem stateOk_abort (h : Uncommitted s pid)
    (hs : StateOk s stored mine theirs peer) :
    StateOk ((abortAndRelease pid).post s) stored mine theirs peer := by
  cases hg : s.swapState.pendingSwaps.get pid with
  | none =>
      rw [post_abortAndRelease_absent hg]
      exact hs
  | some swap =>
      obtain ⟨-, hp, ha, hc⟩ := abortSwap_of_get hg
      rw [post_abortAndRelease hg]
      unfold StateOk
      rw [updCapacity_swapState, updSwaps_swapState, hp, ha, hc]
      exact hs.abort h

theorem adoptTerms_keeps (a : SwapAccept) (size : Nat) (x : PendingSwap) :
    (adoptTerms a size x).proposalId = x.proposalId
      ∧ (adoptTerms a size x).peer = x.peer
      ∧ (adoptTerms a size x).sentCommit = x.sentCommit
      ∧ (adoptTerms a size x).receivedTheirChunk
        = x.receivedTheirChunk := by
  unfold adoptTerms
  split
  · exact ⟨rfl, rfl, rfl, rfl⟩
  · exact ⟨rfl, rfl, rfl, rfl⟩

theorem adoptTerms_received (a : SwapAccept) (size : Nat)
    (x : PendingSwap) :
    (adoptTerms a size x).receivedCommit = x.receivedCommit := by
  unfold adoptTerms
  split
  · rfl
  · rfl

/-- A message that is not acted on has no outputs: its checks are the
sections of a tame program, the frame around an empty body. -/
theorem ignored_outputs {sender : NodeId} {verified : Bool}
    {identity nonce : Bytes 32} (body : Handler Unit)
    (h : (verified && authentic env sender identity nonce s) = false) :
    putsIn ((signedMessage env sender verified identity nonce
        body).acts s) = []
      ∧ commitsIn ((signedMessage env sender verified identity nonce
        body).acts s) = []
      ∧ CommitsTo peer ((signedMessage env sender verified identity nonce
        body).acts s) := by
  rw [acts_signedMessage_ignored body h]
  exact tame_outputs (sections_signedMessage trivial)

/-- The frame of a signed message reads its checks and leaves registry
and holder alone. -/
theorem keepsOk_signedMessage {sender : NodeId} {verified : Bool}
    {identity nonce : Bytes 32} {body : Handler Unit}
    (hbody : (verified && authentic env sender identity nonce s) = true →
      KeepsOk theirs peer body (heard env sender nonce s)) :
    KeepsOk theirs peer
      (signedMessage env sender verified identity nonce body) s := by
  cases hauth : verified && authentic env sender identity nonce s with
  | true =>
      intro stored mine hs
      rw [post_signedMessage hauth, acts_signedMessage hauth]
      obtain ⟨hs', hto, hid⟩ := hbody hauth stored mine hs
      exact ⟨hs', CommitsTo.append (by simp [CommitsTo]) hto, hid⟩
  | false =>
      obtain ⟨cache, hpost⟩ := post_signedMessage_ignored body hauth
      obtain ⟨hputs, hcommits, hto⟩ := ignored_outputs body hauth
      intro stored mine hs
      rw [hpost, hputs, hcommits, List.append_nil, List.append_nil]
      exact ⟨hs, hto, rfl⟩

theorem keepsOk_adoptAccept {a : SwapAccept}
    (hfull : pendingWith a.proposalId a.fromNode s = true →
      s.storageCapacity.canAccept ENCRYPTED_CHUNK_SIZE 0 = false →
      Uncommitted s a.proposalId) :
    KeepsOk theirs peer (adoptAccept P env a ENCRYPTED_CHUNK_SIZE) s := by
  apply keepsOk_of_tame (sections_adoptAccept a)
  intro stored mine hs
  cases hpeer : pendingWith a.proposalId a.fromNode s with
  | false =>
      rw [post_adoptAccept_foreign P env hpeer]
      exact hs
  | true =>
      cases hroom : s.storageCapacity.canAccept ENCRYPTED_CHUNK_SIZE 0 with
      | true =>
          rw [(run_adoptAccept P env hpeer hroom).1]
          refine hs.modify (adoptTerms_keeps a _) fun x hx hr => ?_
          rw [adoptTerms_received] at hr
          exact hs.heard _ x hx hr
      | false =>
          rw [post_adoptAccept_full P env hpeer hroom]
          exact stateOk_abort (hfull hpeer hroom) hs

theorem keepsOk_abortPending {a : SwapAbort}
    (hun : pendingWith a.proposalId a.fromNode s = true →
      Uncommitted s a.proposalId) :
    KeepsOk theirs peer (abortPending a) s := by
  apply keepsOk_of_tame (sections_abortPending a)
  intro stored mine hs
  unfold abortPending
  rw [post_bind, out_read, post_read]
  cases hpeer : pendingWith a.proposalId a.fromNode s with
  | false => exact hs
  | true => exact stateOk_abort (hun hpeer) hs

/-- Storing keeps what is held, and the swap's chunk is held after. -/
theorem storeChunk_holds (swap : PendingSwap) (s : TransportState) :
    (∀ c, s.chunkHolder.hasChunk c = true →
      ((storeChunk swap).post s).chunkHolder.hasChunk c = true)
      ∧ ((storeChunk swap).post s).chunkHolder.hasChunk swap.theirChunkId
        = true := by
  unfold storeChunk
  rw [post_atom]
  cases hnew : s.chunkHolder.hasChunk swap.theirChunkId with
  | true =>
      simp only [if_true]
      exact ⟨fun _ hc => hc, hnew⟩
  | false =>
      simp only [Bool.false_eq_true, if_false]
      unfold ChunkHolder.hasChunk ChunkHolder.addChunk
      constructor
      · intro c hc
        rw [FMap.contains_eq_true] at hc ⊢
        obtain ⟨d, hd⟩ := hc
        rw [FMap.get_insert]
        split
        · exact ⟨_, rfl⟩
        · exact ⟨d, hd⟩
      · rw [FMap.contains_eq_true]
        exact ⟨_, FMap.get_insert_self _ _ _⟩

/-- After a completion: the chunk is put, then capacity, counts and
leases are brought up to date. -/
theorem stateOk_storeCompleted
    (hget : s.swapState.pendingSwaps.get pid = some swap)
    (hready : swap.ready = true)
    (hs : StateOk s stored mine theirs peer) :
    StateOk ((storeChunk swap).post
        (s.updSwaps fun st => (st.completeSwap pid).2))
      (stored ++ [swap]) mine theirs peer := by
  obtain ⟨-, hp, ha, hc⟩ := completeSwap_of_get hget
  obtain ⟨hgrow, hput⟩ := storeChunk_holds swap
    (s.updSwaps fun st => (st.completeSwap pid).2)
  have hreg : ((storeChunk swap).post (s.updSwaps fun st =>
      (st.completeSwap pid).2)).swapState
      = (s.swapState.completeSwap pid).2 := by
    unfold storeChunk
    rw [post_atom]
    split
    · rfl
    · rfl
  unfold StateOk
  rw [hreg, hp, ha, hc]
  exact hs.complete hget hready hgrow hput

theorem keepsOk_accountStored (swap : PendingSwap) (storedNew : Bool)
    (s : TransportState) :
    KeepsOk theirs peer (accountStored swap storedNew) s := by
  have htame := sections_accountStored swap storedNew
  cases storedNew with
  | false => exact keepsOk_same htame rfl rfl rfl rfl
  | true => exact keepsOk_same htame rfl rfl rfl rfl

theorem keepsOk_finalize (pid : ProposalId) (s : TransportState) :
    KeepsOk theirs peer (finalizeSwapIfReady pid) s := by
  intro stored mine hs
  unfold finalizeSwapIfReady completeIfReady
  rw [post_bind, acts_bind, out_atom, post_atom, acts_atom]
  rcases completeReady_cases pid s with hc | ⟨swap, hg, hready, hc⟩
  · rw [hc]
    refine ⟨?_, by simp [CommitsTo], rfl⟩
    show StateOk s (stored ++ []) (mine ++ []) theirs peer
    rw [List.append_nil, List.append_nil]
    exact hs
  · rw [hc, post_bind, acts_bind]
    have hput := stateOk_storeCompleted hg hready hs
    obtain ⟨hrest, hto, hid⟩ := keepsOk_accountStored swap ((storeChunk swap).out
      (s.updSwaps fun st => (st.completeSwap pid).2)) _ _ _ hput
    rw [List.append_assoc] at hrest
    refine ⟨hrest, CommitsTo.append (by simp [CommitsTo])
      (CommitsTo.append (by simp [CommitsTo, storeChunk]) hto),
      hid.trans ?_⟩
    unfold storeChunk
    rw [post_atom]
    split
    · rfl
    · rfl

theorem keepsOk_commitPending {c : SwapCommit}
    (hsent : c.proposalId ∈ theirs) :
    KeepsOk theirs peer (commitPending c) s := by
  unfold commitPending
  refine KeepsOk.bind (keepsOk_read fun _ => ⟨rfl, rfl, Harmless.refl _⟩) ?_
  rw [out_read, post_read]
  split
  · exact keepsOk_pure ()
  · apply KeepsOk.bind
    · apply keepsOk_of_tame
      · exact fun _ => ⟨⟨rfl, rfl, harmless_modify _ _
          fun _ => ⟨rfl, rfl, rfl, rfl, rfl⟩⟩, trivial⟩
      · intro stored mine hs
        exact hs.modify (fun _ => ⟨rfl, rfl, rfl, rfl⟩)
          fun _ _ _ => hsent
    · exact (keepsOk_finalize _ _).bind (keepsOk_pure ())

/-- The table after a chunk is buffered and the commit claimed. -/
theorem buffered_pendingSwaps {data : List UInt8}
    (hget : s.swapState.pendingSwaps.get pid = some swap) :
    (buffered pid data s).swapState.pendingSwaps
      = s.swapState.pendingSwaps.insert pid { swap with
          theirChunkData := data
          receivedTheirChunk := true
          sentCommit := true } := by
  show (s.swapState.pendingSwaps.modify pid _).modify pid _ = _
  rw [FMap.modify_of_get hget, FMap.modify_of_get
    (FMap.get_insert_self _ _ _), FMap.insert_insert]

/-- The swap a delivered chunk is for is pending under its own id, and
has sent no commit. -/
theorem findAwaiting_pending {chunkId : ChunkId}
    (hs : StateOk s stored mine theirs peer)
    (hfind : findAwaiting env chunkId s = some swap) :
    s.swapState.pendingSwaps.get swap.proposalId = some swap
      ∧ swap.sentCommit = false := by
  unfold findAwaiting at hfind
  rw [Option.map_eq_some_iff] at hfind
  obtain ⟨⟨pid, swap'⟩, hf, heq⟩ := hfind
  dsimp only at heq
  subst heq
  obtain ⟨hget, hawaits⟩ := IterOrder.find_some hf
  refine ⟨?_, ?_⟩
  · rw [hs.keyed pid swap' hget]
    exact hget
  · unfold awaits at hawaits
    cases hsent : swap'.sentCommit with
    | false => rfl
    | true =>
        rw [hs.buffered pid swap' hget hsent] at hawaits
        cases hawaits

/-- A delivered chunk: ignored, refused with an abort of a swap that has
sent no commit, or buffered and committed to. -/
theorem keepsOk_retrieval {chunkId : ChunkId} {data : List UInt8} :
    KeepsOk theirs peer (handleSwapChunkRetrieval P env chunkId data) s := by
  intro stored mine hs
  by_cases hsize : data.length = ENCRYPTED_CHUNK_SIZE
  · cases hfind : findAwaiting env chunkId s with
    | none =>
        unfold handleSwapChunkRetrieval
        rw [if_neg (not_not.2 hsize)]
        refine KeepsOk.bind
          (keepsOk_read fun _ => ⟨rfl, rfl, Harmless.refl _⟩) ?_ stored mine hs
        rw [out_read, hfind]
        exact keepsOk_pure false
    | some swap =>
        obtain ⟨hget, hsent⟩ := findAwaiting_pending hs hfind
        cases hgate : passesGate P swap.contentRoot swap.merkleProof
            data with
        | true =>
            obtain ⟨hpost, hacts⟩ :=
              run_retrieval P hsize hfind hgate hget hsent
            have hbuf := hs.buffer data hget
            rw [← buffered_pendingSwaps hget] at hbuf
            obtain ⟨hfin, hto, hid⟩ := keepsOk_finalize swap.proposalId
              (buffered swap.proposalId data s) _ _ hbuf
            rw [List.append_assoc] at hfin
            rw [hpost, hacts]
            refine ⟨hfin, CommitsTo.append ?_ hto, hid⟩
            intro dest c hmem
            have hdest : dest = swap.peer := by
              simpa using (by simpa using hmem : dest = swap.peer ∧ _).1
            exact hdest.trans (hs.peers _ _ hget)
        | false =>
            unfold handleSwapChunkRetrieval
            rw [if_neg (not_not.2 hsize)]
            have hun : Uncommitted s swap.proposalId := by
              intro x hx
              rw [hget] at hx
              injection hx with hx
              rw [← hx]
              exact hsent
            refine KeepsOk.bind
              (keepsOk_read fun _ => ⟨rfl, rfl, Harmless.refl _⟩) ?_ stored mine hs
            rw [out_read, hfind, post_read]
            simp only [hgate, Bool.not_false, if_true]
            apply keepsOk_of_tame
            · exact sections_abortAndRelease.bind
                fun _ => (sections_sendAbort _ _ _).bind fun _ => trivial
            · intro stored mine hs
              rw [post_bind, post_bind, post_pure]
              exact stateOk_abort hun hs
  · unfold handleSwapChunkRetrieval
    rw [if_pos hsize]
    exact keepsOk_pure false stored mine hs

theorem keepsOk_reject (r : SwapReject) :
    KeepsOk theirs peer (handleMaintenanceReject r) s :=
  keepsOk_same (fun _ => ⟨⟨rfl, rfl, Harmless.refl _⟩,
    fun _ => ⟨⟨rfl, rfl, Harmless.refl _⟩, trivial⟩⟩) rfl rfl rfl rfl

/-- Expiring a list of uncommitted swaps. -/
theorem nodeOk_expireIds (ids : List ProposalId) (st : SwapState)
    (hun : ∀ pid ∈ ids, ∀ swap, st.pendingSwaps.get pid = some swap →
      swap.sentCommit = false)
    (hs : NodeOk st.pendingSwaps st.abortedSwaps st.completedSwaps holder
      stored mine theirs peer) :
    NodeOk (SwapState.expireIds ids st).2.pendingSwaps
      (SwapState.expireIds ids st).2.abortedSwaps
      (SwapState.expireIds ids st).2.completedSwaps holder stored mine
      theirs peer := by
  induction ids generalizing st with
  | nil => exact hs
  | cons pid rest ih =>
      refine ih { st with
        abortedSwaps := pushCapped st.abortedSwaps pid
        pendingSwaps := st.pendingSwaps.erase pid } ?_ ?_
      · intro pid' hmem swap hg
        dsimp only at hg
        rw [FMap.get_erase] at hg
        split at hg
        next => cases hg
        next => exact hun pid' (List.mem_cons_of_mem _ hmem) swap hg
      · dsimp only
        exact hs.abort (hun pid List.mem_cons_self)

theorem releaseExpired_same (l : List PendingSwap) (draw : Nat)
    (s : TransportState) :
    ((releaseExpired P env draw l).post s).swapState = s.swapState
      ∧ ((releaseExpired P env draw l).post s).chunkHolder
        = s.chunkHolder := by
  induction l generalizing draw s with
  | nil => exact ⟨rfl, rfl⟩
  | cons swap rest ih =>
      unfold releaseExpired
      rw [post_bind, post_bind]
      exact ih _ _

theorem keepsOk_expire
    (hun : ∀ pid swap, s.swapState.pendingSwaps.get pid = some swap →
      SwapState.timedOut env.now s.pendingSwapTimeoutSecs swap = true →
      swap.sentCommit = false) :
    KeepsOk theirs peer (expirePendingSwaps P env) s := by
  apply keepsOk_of_tame sections_expire
  intro stored mine hs
  unfold expirePendingSwaps
  rw [post_bind, out_atom, post_atom, post_bind, post_pure]
  obtain ⟨hswaps, hholder⟩ := releaseExpired_same (P := P)
    (s.swapState.expirePendingSwaps env.swapOrder env.now
      s.pendingSwapTimeoutSecs).1 0
    { s with swapState := (s.swapState.expirePendingSwaps env.swapOrder
        env.now s.pendingSwapTimeoutSecs).2 }
  unfold StateOk
  rw [hswaps, hholder]
  apply nodeOk_expireIds _ _ ?_ hs
  intro pid hmem swap hg
  have htime := (List.mem_filter.1 hmem).2
  rw [hg] at htime
  exact hun pid swap hg htime

-- ======== the system

namespace Duo

variable {ids : Side → NodeId} {w : Duo} {x : Side}

/-- What the network carries is addressed to the other node: a proposal,
in the sender's own name, and a commit. -/
def Addressed (ids : Side → NodeId) (pkt : Packet) : Prop :=
  match pkt.payload with
  | .proposal p => pkt.dest = ids pkt.src.other ∧ p.fromNode = ids pkt.src
  | .message (.commit _) => pkt.dest = ids pkt.src.other
  | _ => True

/-- The invariant of the system. -/
structure Ok (ids : Side → NodeId) (w : Duo) : Prop where
  named : ∀ x, (w.node x).nodeId = ids x
  nodes : ∀ x, StateOk (w.node x) (w.stored x) (w.commitsFrom x)
    (w.commitsFrom x.other) (ids x.other)
  packets : ∀ pkt ∈ w.net, Addressed ids pkt

theorem Initial.ok (h : Initial w) : Ok (fun x => (w.node x).nodeId) w where
  named := fun _ => rfl
  nodes := by
    intro x
    have hcommits : ∀ y, w.commitsFrom y = [] := by
      intro y
      unfold commitsFrom
      rw [h.net]
      rfl
    unfold StateOk
    rw [h.swaps x, h.stored x, hcommits, hcommits]
    constructor
    all_goals first | exact fun _ _ hg => nomatch hg | exact nofun
  packets := by
    rw [h.net]
    exact nofun

/-- The commits among a handler's sends are those of its sections. -/
theorem commitsFrom_exec (w : Duo) (x : Side) (p : Handler Unit)
    (y : Side) :
    (w.exec x p).commitsFrom y = w.commitsFrom y
      ++ if y = x then commitsIn (p.acts (w.node x)) else [] := by
  unfold commitsFrom exec sendsIn commitsIn
  rw [List.filterMap_append, List.filterMap_filterMap]
  congr 1
  split
  next heq =>
    subst heq
    congr 1
    funext l
    cases l with
    | send dest msg =>
        cases msg with
        | commit c => simp
        | _ => rfl
    | _ => rfl
  next hne =>
    rw [List.filterMap_eq_nil_iff]
    intro l _
    cases l with
    | send dest msg =>
        cases msg with
        | commit c => simp [Ne.symm hne]
        | _ => rfl
    | _ => rfl

/-- A packet that carries no commit adds none. -/
theorem commitsFrom_push (w : Duo) (pkt : Packet) (y : Side)
    (h : ∀ c, pkt.payload ≠ .message (.commit c)) :
    { w with net := w.net ++ [pkt] }.commitsFrom y = w.commitsFrom y := by
  unfold commitsFrom
  rw [List.filterMap_append]
  refine (congrArg (_ ++ ·) ?_).trans (List.append_nil _)
  rw [List.filterMap_eq_nil_iff]
  intro q hq
  rw [List.mem_singleton.1 hq]
  split
  next c heq => exact absurd heq (h c)
  next => rfl

/-- Handing the network one more packet. -/
theorem Ok.push {pkt : Packet} (h : Ok ids w) (hpkt : Addressed ids pkt)
    (hcommit : ∀ c, pkt.payload ≠ .message (.commit c)) :
    Ok ids { w with net := w.net ++ [pkt] } where
  named := h.named
  nodes := by
    intro x
    rw [commitsFrom_push w pkt x hcommit,
      commitsFrom_push w pkt x.other hcommit]
    exact h.nodes x
  packets := by
    intro q hq
    rcases List.mem_append.1 hq with hq | hq
    · exact h.packets q hq
    · rw [List.mem_singleton.1 hq]
      exact hpkt

/-- A handler that keeps its node's invariant keeps the system's: the
other node sees the peer's commits grow. -/
theorem Ok.exec {p : Handler Unit} (h : Ok ids w)
    (hp : KeepsOk (w.commitsFrom x.other) (ids x.other) p (w.node x)) :
    Ok ids (w.exec x p) := by
  obtain ⟨hs, hto, hid⟩ := hp _ _ (h.nodes x)
  constructor
  · intro y
    show (if y = x then p.post (w.node x) else w.node y).nodeId = ids y
    split
    next heq =>
      rw [heq]
      exact hid.trans (h.named x)
    next => exact h.named y
  · intro y
    rw [commitsFrom_exec, commitsFrom_exec]
    rcases Side.eq_or x y with rfl | rfl
    · rw [if_pos rfl, if_neg (Side.other_ne y), List.append_nil]
      show StateOk (if y = y then p.post (w.node y) else w.node y)
        (if y = y then w.stored y ++ putsIn (p.acts (w.node y))
          else w.stored y) _ _ _
      rw [if_pos rfl, if_pos rfl]
      exact hs
    · rw [if_neg (Side.other_ne x), List.append_nil, Side.other_other,
        if_pos rfl]
      show StateOk (if x.other = x then p.post (w.node x)
          else w.node x.other)
        (if x.other = x then w.stored x ++ putsIn (p.acts (w.node x))
          else w.stored x.other) _ _ _
      rw [if_neg (Side.other_ne x), if_neg (Side.other_ne x)]
      have hother := h.nodes x.other
      rw [Side.other_other] at hother
      exact hother.mono_theirs fun pid hpid => List.mem_append_left _ hpid
  · intro pkt hmem
    rcases List.mem_append.1 hmem with hmem | hmem
    · exact h.packets pkt hmem
    · unfold sendsIn at hmem
      obtain ⟨l, hl, heq⟩ := List.mem_filterMap.1 hmem
      cases l with
      | send dest msg =>
          injection heq with heq
          subst heq
          cases msg with
          | commit c => exact hto dest c hl
          | _ => trivial
      | _ => cases heq

/-- A commit in flight was sent by its source. -/
theorem mem_commitsFrom {pkt : Packet} {c : SwapCommit}
    (hmem : pkt ∈ w.net) (hpay : pkt.payload = .message (.commit c)) :
    c.proposalId ∈ w.commitsFrom pkt.src := by
  unfold commitsFrom
  rw [List.mem_filterMap]
  refine ⟨pkt, hmem, ?_⟩
  rw [hpay]
  simp

/-- A packet for the other node is not delivered to its source. -/
theorem addressee_other (h : Ok ids w) {pkt : Packet}
    (hdest : pkt.dest = ids pkt.src.other)
    (hto : w.addressee pkt = some x) : x = pkt.src.other := by
  unfold addressee at hto
  rw [h.named, hdest, if_pos rfl] at hto
  injection hto with hto
  exact hto.symm

/-- What a packet's handler keeps. A proposal and a commit come from the
peer; the rest may come from anywhere. -/
theorem keepsOk_payload {pkt : Packet} (h : Ok ids w)
    (hmem : pkt ∈ w.net) (hto : w.addressee pkt = some x)
    (hsteady : SteadyAt P env pkt.payload (w.node x)) :
    KeepsOk (w.commitsFrom x.other) (ids x.other)
      (pkt.payload.handler P env) (w.node x) := by
  have haddr := h.packets pkt hmem
  unfold Addressed at haddr
  cases hpay : pkt.payload with
  | proposal p =>
      rw [hpay] at haddr hsteady
      have hx := addressee_other h haddr.1 hto
      rw [hx, Side.other_other]
      rw [hx] at hsteady
      exact keepsOk_proposal haddr.2 hsteady
  | message msg =>
      rw [hpay] at haddr hsteady
      cases msg with
      | accept a =>
          refine keepsOk_signedMessage fun hauth => keepsOk_adoptAccept ?_
          intro hpeer hroom
          exact hsteady (by
            unfold acceptBinds
            rw [hauth, Bool.true_and]
            exact hpeer) hroom
      | reject r => exact keepsOk_reject r
      | commit c =>
          have hx := addressee_other h haddr hto
          have hsent := mem_commitsFrom hmem hpay
          rw [hx, Side.other_other]
          exact keepsOk_signedMessage fun _ => keepsOk_commitPending hsent
      | abort a =>
          refine keepsOk_signedMessage fun hauth => keepsOk_abortPending ?_
          intro hpeer
          exact hsteady (by
            unfold abortBinds
            rw [hauth, Bool.true_and]
            exact hpeer)
  | chunk chunkId data => exact keepsOk_retrieval.bind (keepsOk_pure ())

theorem Ok.step {e : DuoEvent} (h : Ok ids w) (hsteady : Steady P w e) :
    Ok ids (step P w e) := by
  cases e with
  | propose x env p =>
      have hexec : Ok ids (w.exec x do
          let _ ← beginSwapProposal P env (w.node x.other).nodeId
            (w.ownProposal x p)) := by
        apply h.exec
        rw [h.named]
        exact (keepsOk_propose hsteady).bind (keepsOk_pure ())
      exact hexec.push ⟨h.named x.other, h.named x⟩ nofun
  | serve x chunkId =>
      unfold Duo.step
      dsimp only
      split
      next data _ => exact h.push trivial nofun
      next => exact h
  | deliver i env =>
      unfold Duo.step
      dsimp only
      split
      next => exact h
      next pkt hnet =>
        split
        next => exact h
        next y hto =>
          exact h.exec (keepsOk_payload h (List.mem_of_getElem? hnet) hto
            (hsteady pkt y hnet hto))
  | expire x env =>
      exact h.exec ((keepsOk_expire hsteady).bind (keepsOk_pure ()))

/-- A completed id is one the peer committed to: it stored its chunk, or
it still has the swap pending and so has not aborted it. -/
theorem Ok.agrees (h : Ok ids w) : w.Agrees := by
  intro x pid hdone haborted
  have hmine := (h.nodes x).done pid hdone
  rcases (h.nodes x.other).kept pid hmine with
    ⟨swap, hget, -⟩ | ⟨swap, hmem, hkey⟩
  · exact absurd haborted ((h.nodes x.other).live pid swap hget)
  · exact ⟨swap, hmem, hkey, (h.nodes x.other).held swap hmem⟩

theorem Ok.run {es : List DuoEvent} (h : Ok ids w)
    (hsteady : ∀ n (hn : n < es.length),
      Steady P (Duo.run P w (es.take n)) es[n]) :
    ∀ n, Ok ids (Duo.run P w (es.take n)) := by
  intro n
  induction n with
  | zero => exact h
  | succ n ih =>
      by_cases hn : n < es.length
      · rw [List.take_add_one, List.getElem?_eq_getElem hn]
        unfold Duo.run
        rw [List.foldl_append]
        exact ih.step (hsteady n hn)
      · rw [List.take_of_length_le (by omega)]
        rw [List.take_of_length_le (by omega)] at ih
        exact ih

/-- In every run whose events are all steady, the two nodes agree in
every state reached. -/
theorem swap_agreement (P : Prims) (w : Duo) (es : List DuoEvent)
    (hinit : w.Initial)
    (hsteady : ∀ n (hn : n < es.length),
      Steady P (Duo.run P w (es.take n)) es[n]) :
    ∀ n, (Duo.run P w (es.take n)).Agrees :=
  fun n => (hinit.ok.run hsteady n).agrees

-- ==== a lost commit, concretely

/-- A pair of nodes with the network between them. -/
def pair (l r : TransportState) (net : List Packet)
    (storedL storedR : List PendingSwap) : Duo where
  node := fun | .left => l | .right => r
  net := net
  stored := fun | .left => storedL | .right => storedR

variable {l r : TransportState} {net : List Packet}
  {storedL storedR : List PendingSwap} {p : Handler Unit}

theorem exec_left {labels : List Act} (hpost : p.post l = s)
    (hacts : p.acts l = labels) :
    (pair l r net storedL storedR).exec .left p
      = pair s r (net ++ sendsIn .left labels)
          (storedL ++ putsIn labels) storedR := by
  unfold exec pair
  congr 1
  · funext y
    cases y with
    | left => exact hpost
    | right => rfl
  · exact congrArg (fun ls => net ++ sendsIn .left ls) hacts
  · funext y
    cases y with
    | left => exact congrArg (fun ls => storedL ++ putsIn ls) hacts
    | right => rfl

theorem exec_right {labels : List Act} (hpost : p.post r = s)
    (hacts : p.acts r = labels) :
    (pair l r net storedL storedR).exec .right p
      = pair l s (net ++ sendsIn .right labels) storedL
          (storedR ++ putsIn labels) := by
  unfold exec pair
  congr 1
  · funext y
    cases y with
    | left => rfl
    | right => exact hpost
  · exact congrArg (fun ls => net ++ sendsIn .right ls) hacts
  · funext y
    cases y with
    | left => rfl
    | right => exact congrArg (fun ls => storedR ++ putsIn ls) hacts

theorem step_deliver {w : Duo} {i : Nat} {pkt : Packet} {y : Side}
    (hnet : w.net[i]? = some pkt) (hto : w.addressee pkt = some y) :
    step P w (.deliver i env) = w.exec y (pkt.payload.handler P env) := by
  unfold step
  simp only [hnet, hto]

theorem post_chunkPayload (chunkId : ChunkId) (data : List UInt8)
    (s : TransportState) :
    (Payload.handler P env (.chunk chunkId data)).post s
      = (handleSwapChunkRetrieval P env chunkId data).post s := by
  unfold Payload.handler
  rw [post_bind, post_pure]

theorem acts_chunkPayload (chunkId : ChunkId) (data : List UInt8)
    (s : TransportState) :
    (Payload.handler P env (.chunk chunkId data)).acts s
      = (handleSwapChunkRetrieval P env chunkId data).acts s := by
  unfold Payload.handler
  rw [acts_bind, acts_pure, List.append_nil]

/-- A delivery from left to right. -/
theorem deliver_right (P : Prims) (env : Env) (payload : Payload) {i : Nat}
    {dest : NodeId} {labels : List Act}
    (hnet : net[i]? = some ⟨.left, dest, payload⟩)
    (hdest : r.nodeId = dest)
    (hpost : (payload.handler P env).post r = s)
    (hacts : (payload.handler P env).acts r = labels) :
    step P (pair l r net storedL storedR) (.deliver i env)
      = pair l s (net ++ sendsIn .right labels) storedL
          (storedR ++ putsIn labels) := by
  have hto : (pair l r net storedL storedR).addressee
      ⟨.left, dest, payload⟩ = some .right := if_pos hdest
  rw [step_deliver hnet hto, exec_right hpost hacts]

/-- A delivery from right to left. -/
theorem deliver_left (P : Prims) (env : Env) (payload : Payload) {i : Nat}
    {dest : NodeId} {labels : List Act}
    (hnet : net[i]? = some ⟨.right, dest, payload⟩)
    (hdest : l.nodeId = dest)
    (hpost : (payload.handler P env).post l = s)
    (hacts : (payload.handler P env).acts l = labels) :
    step P (pair l r net storedL storedR) (.deliver i env)
      = pair s r (net ++ sendsIn .left labels)
          (storedL ++ putsIn labels) storedR := by
  have hto : (pair l r net storedL storedR).addressee
      ⟨.right, dest, payload⟩ = some .left := if_pos hdest
  rw [step_deliver hnet hto, exec_left hpost hacts]

/-- A node that holds one chunk and has room for three more. -/
def barterNode (seed chunk : UInt8) (data : List UInt8) :
    TransportState :=
  freshNode (Bytes.fill 16 seed) (Bytes.fill 32 seed)
    (ChunkHolder.new.addChunk (Bytes.fill 32 chunk) data (Bytes.zero 32))
    (4 * ENCRYPTED_CHUNK_SIZE)

/-- Two nodes, each with a chunk of this content. -/
def barterStart (data : List UInt8) : Duo :=
  pair (barterNode 1 3 data) (barterNode 2 10 data) [] [] []

theorem barterStart_initial (data : List UInt8) :
    (barterStart data).Initial where
  distinct := by
    show Bytes.fill 16 1 ≠ Bytes.fill 16 2
    decide
  swaps := fun x => by cases x <;> rfl
  net := rfl
  stored := fun x => by cases x <;> rfl

theorem barterNode_opens {data : List UInt8}
    (hsize : data.length = ENCRYPTED_CHUNK_SIZE) :
    opens Prims.plain (quietEnv 21 200) proposerOffer
        (barterNode 2 10 data) = true
      ∧ pickReturn (quietEnv 21 200) proposerOffer (barterNode 2 10 data)
        = some (Bytes.fill 32 10) := by
  have hpick : pickReturn (quietEnv 21 200) proposerOffer
      (barterNode 2 10 data) = some (Bytes.fill 32 10) := by
    unfold pickReturn
    show ((quietEnv 21 200).chunkOrder.find
      ((∅ : FMap ChunkId (List UInt8)).insert (Bytes.fill 32 10) data)
      _).map Prod.fst = _
    rw [IterOrder.find_insert_empty, if_pos (by decide)]
    rfl
  have hbytes : (barterNode 2 10 data).chunkHolder.totalBytes
      = ENCRYPTED_CHUNK_SIZE := by
    rw [← hsize]
    exact ((FMap.sumBy_insert (∅ : FMap ChunkId (List UInt8)) List.length
      (Bytes.fill 32 10) data).trans (Nat.zero_add _))
  refine ⟨?_, hpick⟩
  unfold opens
  rw [hpick, hbytes]
  show ((decideOnSwap Prims.plain proposerOffer
      ((barterNode 2 10 []).storageCapacity.reconcile ENCRYPTED_CHUNK_SIZE)
      (((barterNode 2 10 []).peerChunkCounts.get
        proposerOffer.fromNode).getD 0)
      ENCRYPTED_CHUNK_SIZE 200).isOk && true
    && (barterNode 2 10 []).swapState.pendingSwaps.len
      < MAX_PENDING_SWAPS) = true
  decide

/-- The proposer after its proposal. -/
def barterL₁ (data : List UInt8) : TransportState :=
  (barterNode 1 3 data).updSwaps fun st => st.startPendingSwap
    (proposerEntry Prims.plain (Bytes.fill 16 2) proposerOffer 200)

/-- The accepter after the proposal. -/
def barterR₁ (data : List UInt8) : TransportState :=
  prepared Prims.plain (quietEnv 21 200) proposerOffer (Bytes.fill 32 10)
    ENCRYPTED_CHUNK_SIZE
    (reconciled (quietEnv 21 200) proposerOffer (barterNode 2 10 data))

/-- The accept it answers with. -/
def barterAccept : SwapAccept :=
  answer Prims.plain (quietEnv 21 200) proposerOffer (Bytes.fill 32 10)
    (barterNode 2 10 [])

/-- The proposer after the accept. -/
def barterL₂ (data : List UInt8) : TransportState :=
  adopted barterAccept ENCRYPTED_CHUNK_SIZE
    (heard (quietEnv 31 200) (Bytes.fill 16 2) (Bytes.fill 32 21)
      (barterL₁ data))

/-- The accepter after the proposer's chunk: its commit is out. -/
def barterR₂ (data : List UInt8) : TransportState :=
  buffered offerId data (barterR₁ data)

/-- The commit it sends. -/
def barterCommit : SwapCommit :=
  ownCommit Prims.plain (quietEnv 22 200) offerId (barterR₁ [])

/-- The accepter after its timeout. -/
def barterR₃ (data : List UInt8) : TransportState :=
  (expirePendingSwaps Prims.plain (quietEnv 24 600)).post (barterR₂ data)

/-- The proposer after the accepter's chunk. -/
def barterL₃ (data : List UInt8) : TransportState :=
  buffered offerId data (barterL₂ data)

/-- The proposer's entry once the accepter's commit is in. -/
def barterSwap (data : List UInt8) : PendingSwap :=
  { adoptTerms barterAccept ENCRYPTED_CHUNK_SIZE
      (proposerEntry Prims.plain (Bytes.fill 16 2) proposerOffer 200) with
    theirChunkData := data
    receivedTheirChunk := true
    sentCommit := true
    receivedCommit := true }

/-- The proposer after that commit: the swap is completed. -/
def barterL₄ (data : List UInt8) : TransportState :=
  finalized offerId (barterSwap data)
    ((heard (quietEnv 33 200) (Bytes.fill 16 2) (Bytes.fill 32 22)
      (barterL₃ data)).updSwaps fun st => st.markCommitReceived offerId)

/-- The network up to the second chunk. -/
def barterNet (data : List UInt8) : List Packet :=
  [ ⟨.left, Bytes.fill 16 2, .proposal proposerOffer⟩,
    ⟨.right, Bytes.fill 16 1, .message (.accept barterAccept)⟩,
    ⟨.left, Bytes.fill 16 2, .chunk (Bytes.fill 32 3) data⟩,
    ⟨.right, Bytes.fill 16 1, .message (.commit barterCommit)⟩,
    ⟨.right, Bytes.fill 16 1, .chunk (Bytes.fill 32 10) data⟩ ]

/-- The run: both chunks arrive and both nodes commit; the accepter's
commit arrives, the proposer's does not, and the accepter times out. -/
def barterEvents : List DuoEvent :=
  [ .propose .left (quietEnv 30 200) proposerOffer,
    .deliver 0 (quietEnv 21 200),
    .deliver 1 (quietEnv 31 200),
    .serve .left (Bytes.fill 32 3),
    .deliver 2 (quietEnv 22 200),
    .serve .right (Bytes.fill 32 10),
    .deliver 4 (quietEnv 32 200),
    .deliver 3 (quietEnv 33 200),
    .expire .right (quietEnv 24 600) ]

theorem run_barterProposal {data : List UInt8}
    (hsize : data.length = ENCRYPTED_CHUNK_SIZE) :
    (handleMaintenanceProposal Prims.plain (quietEnv 21 200)
        proposerOffer).post (barterNode 2 10 data) = barterR₁ data
      ∧ (handleMaintenanceProposal Prims.plain (quietEnv 21 200)
        proposerOffer).acts (barterNode 2 10 data)
          = [.activity, .holder, .capacity, .counts, .capacity, .holder,
              .swaps, .capacity, .swaps, .key,
              .send (Bytes.fill 16 1) (.accept barterAccept)] := by
  obtain ⟨hopens, hpick⟩ := barterNode_opens hsize
  obtain ⟨retId, hret, hpost, hacts⟩ := run_proposal hopens
  rw [hpick] at hret
  obtain rfl := Option.some.inj hret
  exact ⟨hpost, hacts⟩

theorem barterL₁_get (data : List UInt8) :
    (barterL₁ data).swapState.pendingSwaps.get offerId
      = some (proposerEntry Prims.plain (Bytes.fill 16 2) proposerOffer
          200) :=
  FMap.get_insert_self _ _ _

theorem run_barterAccept (data : List UInt8) :
    (handleMaintenanceAccept Prims.plain (quietEnv 31 200)
        barterAccept).post (barterL₁ data) = barterL₂ data
      ∧ (handleMaintenanceAccept Prims.plain (quietEnv 31 200)
        barterAccept).acts (barterL₁ data)
          = [.activity, .routing, .nonces, .swaps, .capacity,
              .terms barterAccept] := by
  have hauth : (barterAccept.verifySignature Prims.plain
      && authentic (quietEnv 31 200) barterAccept.fromNode
        barterAccept.identityPublicKey barterAccept.nonce
        (barterL₁ data)) = true := by
    rw [authentic_congr (barterL₁ data) (barterL₁ []) rfl rfl]
    decide
  have hpeer : pendingWith barterAccept.proposalId barterAccept.fromNode
      (heard (quietEnv 31 200) barterAccept.fromNode barterAccept.nonce
        (barterL₁ data)) = true :=
    pendingWith_of_get (barterL₁_get data) rfl
  have hroom : (barterL₁ []).storageCapacity.canAccept
      ENCRYPTED_CHUNK_SIZE 0 = true := by decide
  obtain ⟨hpost, hacts⟩ :=
    run_adoptAccept Prims.plain (quietEnv 31 200) hpeer hroom
  unfold handleMaintenanceAccept
  rw [post_signedMessage hauth, acts_signedMessage hauth, hpost, hacts]
  exact ⟨rfl, rfl⟩

theorem barterR₁_get (data : List UInt8) :
    (barterR₁ data).swapState.pendingSwaps.get offerId
      = some (accepterEntry Prims.plain proposerOffer (Bytes.fill 32 10)
          ENCRYPTED_CHUNK_SIZE 200) :=
  FMap.get_insert_self _ _ _

/-- The accepter buffers the proposer's chunk and commits. -/
theorem run_barterChunkR {data : List UInt8}
    (hsize : data.length = ENCRYPTED_CHUNK_SIZE) :
    (handleSwapChunkRetrieval Prims.plain (quietEnv 22 200)
        (Bytes.fill 32 3) data).post (barterR₁ data) = barterR₂ data
      ∧ (handleSwapChunkRetrieval Prims.plain (quietEnv 22 200)
        (Bytes.fill 32 3) data).acts (barterR₁ data)
          = [.deliver (Bytes.fill 32 3) data,
              .buffer offerId (Bytes.fill 32 3) data, .swaps, .key,
              .send (Bytes.fill 16 1) (.commit barterCommit), .swaps] := by
  have hfind : findAwaiting (quietEnv 22 200) (Bytes.fill 32 3)
      (barterR₁ []) = some (accepterEntry Prims.plain proposerOffer
        (Bytes.fill 32 10) ENCRYPTED_CHUNK_SIZE 200) := by decide
  obtain ⟨hpost, hacts⟩ := run_retrieval (s := barterR₁ data) Prims.plain
    hsize hfind rfl (barterR₁_get data) rfl
  have hwait : ((barterR₂ data).swapState.getPendingSwap offerId).any
      PendingSwap.ready = false := by
    unfold SwapState.getPendingSwap barterR₂
    rw [buffered_pendingSwaps (barterR₁_get data), FMap.get_insert_self]
    rfl
  obtain ⟨hfpost, hfacts⟩ := run_finalize_waiting hwait
  exact ⟨hpost.trans hfpost, hacts.trans (congrArg (_ ++ ·) hfacts)⟩

theorem mem_expireIds_aborted (pid : ProposalId) (st : SwapState) :
    pid ∈ (SwapState.expireIds [pid] st).2.abortedSwaps := by
  simp only [SwapState.expireIds]
  exact mem_pushCapped_self st.abortedSwaps pid

/-- The accepter times out: the swap it has committed to is aborted, and
nothing is stored. -/
theorem barterR₃_aborted (data : List UInt8) :
    offerId ∈ (barterR₃ data).swapState.abortedSwaps := by
  unfold barterR₃ expirePendingSwaps
  rw [post_bind, out_atom, post_atom, post_bind, post_pure,
    (releaseExpired_same _ _ _).1]
  show offerId ∈ ((barterR₂ data).swapState.expirePendingSwaps _ 600
    300).2.abortedSwaps
  unfold SwapState.expirePendingSwaps
  have hids : ((quietEnv 24 600).swapOrder.iter
      (barterR₂ data).swapState.pendingSwaps.keys).filter (fun pid =>
        ((barterR₂ data).swapState.pendingSwaps.get pid).any
          (SwapState.timedOut 600 300)) = [offerId] := by
    have hkeys : (barterR₂ data).swapState.pendingSwaps.keys
        = {offerId} := rfl
    rw [hkeys, IterOrder.iter_singleton]
    unfold barterR₂
    rw [List.filter_cons, buffered_pendingSwaps (barterR₁_get data),
      FMap.get_insert_self]
    rfl
  dsimp only
  rw [hids]
  exact mem_expireIds_aborted offerId _

theorem barterL₂_get (data : List UInt8) :
    (barterL₂ data).swapState.pendingSwaps.get offerId
      = some (adoptTerms barterAccept ENCRYPTED_CHUNK_SIZE
          (proposerEntry Prims.plain (Bytes.fill 16 2) proposerOffer
            200)) := by
  show ((barterL₁ data).swapState.pendingSwaps.modify offerId _).get
    offerId = _
  rw [FMap.get_modify_self, barterL₁_get]
  rfl

/-- The proposer buffers the accepter's chunk and commits too. -/
theorem post_barterChunkL {data : List UInt8}
    (hsize : data.length = ENCRYPTED_CHUNK_SIZE) :
    (handleSwapChunkRetrieval Prims.plain (quietEnv 32 200)
      (Bytes.fill 32 10) data).post (barterL₂ data) = barterL₃ data := by
  have hfind : findAwaiting (quietEnv 32 200) (Bytes.fill 32 10)
      (barterL₂ []) = some (adoptTerms barterAccept ENCRYPTED_CHUNK_SIZE
        (proposerEntry Prims.plain (Bytes.fill 16 2) proposerOffer
          200)) := by decide
  obtain ⟨hpost, -⟩ := run_retrieval (s := barterL₂ data) Prims.plain
    hsize hfind rfl (barterL₂_get data) rfl
  have hwait : ((barterL₃ data).swapState.getPendingSwap offerId).any
      PendingSwap.ready = false := by
    unfold SwapState.getPendingSwap barterL₃
    rw [buffered_pendingSwaps (barterL₂_get data), FMap.get_insert_self]
    rfl
  exact hpost.trans (run_finalize_waiting hwait).1

theorem barterL₃_get (data : List UInt8) :
    (barterL₃ data).swapState.pendingSwaps.get offerId
      = some { barterSwap data with receivedCommit := false } := by
  unfold barterL₃
  rw [buffered_pendingSwaps (barterL₂_get data), FMap.get_insert_self]
  rfl

theorem barterL₃_committed (data : List UInt8) :
    ((barterL₃ data).swapState.markCommitReceived offerId).pendingSwaps.get
      offerId = some (barterSwap data) := by
  show ((barterL₃ data).swapState.pendingSwaps.modify offerId _).get
    offerId = _
  rw [FMap.get_modify_self, barterL₃_get]
  rfl

/-- The accepter's commit completes the proposer's swap. -/
theorem post_barterCommit (data : List UInt8) :
    (handleMaintenanceCommit Prims.plain (quietEnv 33 200)
      barterCommit).post (barterL₃ data) = barterL₄ data := by
  have hauth : (barterCommit.verifySignature Prims.plain
      && authentic (quietEnv 33 200) barterCommit.fromNode
        barterCommit.identityPublicKey barterCommit.nonce
        (barterL₃ data)) = true := by
    rw [authentic_congr (barterL₃ data) (barterL₃ []) rfl rfl]
    decide
  have hpeer : pendingWith barterCommit.proposalId barterCommit.fromNode
      (heard (quietEnv 33 200) barterCommit.fromNode barterCommit.nonce
        (barterL₃ data)) = true := pendingWith_of_get (barterL₃_get data) rfl
  have hnew : (barterL₃ data).chunkHolder.hasChunk (Bytes.fill 32 10)
      = false := by
    show (FMap.insert (∅ : FMap ChunkId (List UInt8)) (Bytes.fill 32 3)
      data).contains (Bytes.fill 32 10) = false
    unfold FMap.contains
    rw [FMap.get_insert_ne _ _ (by decide)]
    rfl
  unfold handleMaintenanceCommit
  rw [post_signedMessage hauth, (run_commitPending barterCommit hpeer).1]
  exact (run_finalize_ready (barterL₃_committed data) rfl hnew).1

theorem barterL₄_completed (data : List UInt8) :
    offerId ∈ (barterL₄ data).swapState.completedSwaps := by
  have hlog := (completeSwap_of_get (barterL₃_committed data)).2.2.2
  show offerId ∈ (((barterL₃ data).swapState.markCommitReceived
    offerId).completeSwap offerId).2.completedSwaps
  rw [hlog]
  exact mem_pushCapped_self _ offerId

theorem step_proposing (data : List UInt8) :
    step Prims.plain (barterStart data)
        (.propose .left (quietEnv 30 200) proposerOffer)
      = pair (barterL₁ data) (barterNode 2 10 data)
          ((barterNet data).take 1) [] [] := by
  have hown : (barterStart data).ownProposal .left proposerOffer
      = proposerOffer := by
    show { proposerOffer with fromNode := Bytes.fill 16 1 }
      = proposerOffer
    decide
  unfold step
  dsimp only
  rw [hown]
  unfold barterStart
  rw [exec_left (s := barterL₁ data) rfl rfl]
  rfl

theorem step_answering {data : List UInt8}
    (hsize : data.length = ENCRYPTED_CHUNK_SIZE) :
    step Prims.plain (pair (barterL₁ data) (barterNode 2 10 data)
        ((barterNet data).take 1) [] []) (.deliver 0 (quietEnv 21 200))
      = pair (barterL₁ data) (barterR₁ data) ((barterNet data).take 2)
          [] [] := by
  obtain ⟨hpost, hacts⟩ := run_barterProposal hsize
  exact deliver_right Prims.plain (quietEnv 21 200)
    (.proposal proposerOffer) rfl rfl hpost hacts

theorem step_adopting (data : List UInt8) :
    step Prims.plain (pair (barterL₁ data) (barterR₁ data)
        ((barterNet data).take 2) [] []) (.deliver 1 (quietEnv 31 200))
      = pair (barterL₂ data) (barterR₁ data) ((barterNet data).take 2)
          [] [] := by
  obtain ⟨hpost, hacts⟩ := run_barterAccept data
  exact deliver_left Prims.plain (quietEnv 31 200)
    (.message (.accept barterAccept)) rfl rfl hpost hacts

theorem step_servingLeft (data : List UInt8) :
    step Prims.plain (pair (barterL₂ data) (barterR₁ data)
        ((barterNet data).take 2) [] []) (.serve .left (Bytes.fill 32 3))
      = pair (barterL₂ data) (barterR₁ data) ((barterNet data).take 3)
          [] [] := rfl

theorem step_committingRight {data : List UInt8}
    (hsize : data.length = ENCRYPTED_CHUNK_SIZE) :
    step Prims.plain (pair (barterL₂ data) (barterR₁ data)
        ((barterNet data).take 3) [] []) (.deliver 2 (quietEnv 22 200))
      = pair (barterL₂ data) (barterR₂ data) ((barterNet data).take 4)
          [] [] := by
  obtain ⟨hpost, hacts⟩ := run_barterChunkR hsize
  exact deliver_right Prims.plain (quietEnv 22 200)
    (.chunk (Bytes.fill 32 3) data) rfl rfl
    ((post_chunkPayload _ _ _).trans hpost)
    ((acts_chunkPayload _ _ _).trans hacts)

theorem step_servingRight (data : List UInt8) :
    step Prims.plain (pair (barterL₂ data) (barterR₂ data)
        ((barterNet data).take 4) [] []) (.serve .right (Bytes.fill 32 10))
      = pair (barterL₂ data) (barterR₂ data) (barterNet data) [] [] := rfl

theorem step_committingLeft {data : List UInt8}
    (hsize : data.length = ENCRYPTED_CHUNK_SIZE) :
    ∃ sends puts, step Prims.plain
        (pair (barterL₂ data) (barterR₂ data) (barterNet data) [] [])
        (.deliver 4 (quietEnv 32 200))
      = pair (barterL₃ data) (barterR₂ data) (barterNet data ++ sends)
          puts [] :=
  ⟨_, _, deliver_left Prims.plain (quietEnv 32 200)
    (.chunk (Bytes.fill 32 10) data) rfl rfl
    ((post_chunkPayload _ _ _).trans (post_barterChunkL hsize)) rfl⟩

theorem step_completing (data : List UInt8) (sends : List Packet)
    (puts : List PendingSwap) :
    ∃ net storedL, step Prims.plain
        (pair (barterL₃ data) (barterR₂ data) (barterNet data ++ sends)
          puts []) (.deliver 3 (quietEnv 33 200))
      = pair (barterL₄ data) (barterR₂ data) net storedL [] :=
  ⟨_, _, deliver_left Prims.plain (quietEnv 33 200)
    (.message (.commit barterCommit)) rfl rfl (post_barterCommit data) rfl⟩

theorem step_expiring (data : List UInt8) (net : List Packet)
    (storedL : List PendingSwap) :
    ∃ net', step Prims.plain
        (pair (barterL₄ data) (barterR₂ data) net storedL [])
        (.expire .right (quietEnv 24 600))
      = pair (barterL₄ data) (barterR₃ data) net' storedL [] := by
  let p := SwapEvent.program Prims.plain (.expire (quietEnv 24 600))
  have hpost : p.post (barterR₂ data) = barterR₃ data := by
    unfold p SwapEvent.program barterR₃
    rw [post_bind, post_pure]
  have htame : Sections Tame p := sections_expire.bind fun _ => trivial
  obtain ⟨hquiet, -, -⟩ : putsIn (p.acts (barterR₂ data)) = []
      ∧ commitsIn (p.acts (barterR₂ data)) = []
      ∧ CommitsTo (Bytes.fill 16 1) (p.acts (barterR₂ data)) :=
    tame_outputs htame
  have hstep : (pair (barterL₄ data) (barterR₂ data) net storedL []).exec
      .right p = pair (barterL₄ data) (barterR₃ data)
        (net ++ sendsIn .right (p.acts (barterR₂ data))) storedL
        ([] ++ putsIn (p.acts (barterR₂ data))) := exec_right hpost rfl
  rw [hquiet] at hstep
  exact ⟨_, hstep⟩

/-- The run up to the timeout, and a sweep that comes too early for it. -/
def patientEvents : List DuoEvent :=
  barterEvents.take 8 ++ [.expire .right (quietEnv 24 300)]

/-- Nothing is aborted in it: the ids are fresh, the accept finds room,
and the swap the accepter has committed to is not timed out yet. -/
theorem patientEvents_steady {data : List UInt8}
    (hsize : data.length = ENCRYPTED_CHUNK_SIZE) :
    Exact.Along (step Prims.plain) (Steady Prims.plain) (barterStart data)
      patientEvents := by
  have hfresh : ∀ pid, Openable (barterNode 1 3 data) pid
      ∧ Openable (barterNode 2 10 data) pid :=
    fun _ => ⟨⟨nofun, nofun⟩, ⟨nofun, nofun⟩⟩
  have hroom : (barterL₁ []).storageCapacity.canAccept
      ENCRYPTED_CHUNK_SIZE 0 = true := by decide
  obtain ⟨sends, puts, hleft⟩ := step_committingLeft hsize
  obtain ⟨net, storedL, hdone⟩ := step_completing data sends puts
  unfold patientEvents barterEvents
  refine ⟨(hfresh _).1, ?_⟩
  rw [step_proposing]
  refine ⟨?_, ?_⟩
  · intro pkt y hnet hto
    obtain rfl := Option.some.inj hnet
    obtain rfl : Side.right = y := Option.some.inj hto
    exact fun _ => (hfresh _).2
  rw [step_answering hsize]
  refine ⟨?_, ?_⟩
  · intro pkt y hnet hto
    obtain rfl := Option.some.inj hnet
    obtain rfl : Side.left = y := Option.some.inj hto
    exact fun _ hfull => absurd (hroom.symm.trans hfull) nofun
  rw [step_adopting]
  refine ⟨trivial, ?_⟩
  rw [step_servingLeft]
  refine ⟨?_, ?_⟩
  · intro pkt y hnet _
    obtain rfl := Option.some.inj hnet
    exact trivial
  rw [step_committingRight hsize]
  refine ⟨trivial, ?_⟩
  rw [step_servingRight]
  refine ⟨?_, ?_⟩
  · intro pkt y hnet _
    obtain rfl := Option.some.inj hnet
    exact trivial
  rw [hleft]
  refine ⟨?_, ?_⟩
  · intro pkt y hnet _
    obtain rfl := Option.some.inj hnet
    exact trivial
  rw [hdone]
  refine ⟨?_, trivial⟩
  intro pid swap hget hlate
  have hentry : (barterR₂ data).swapState.pendingSwaps.get pid
      = some swap := hget
  unfold barterR₂ at hentry
  rw [buffered_pendingSwaps (barterR₁_get data), FMap.get_insert] at hentry
  split at hentry
  · obtain rfl := Option.some.inj hentry
    cases hlate
  · exact (hfresh pid).2.1 swap ((FMap.get_insert_ne _ _ ‹_›).symm.trans
      hentry)

/-- Up to the timeout the proposer has completed the swap, and the
accepter is committed to it. -/
theorem run_untilTimeout {data : List UInt8}
    (hsize : data.length = ENCRYPTED_CHUNK_SIZE) :
    ∃ net storedL, Duo.run Prims.plain (barterStart data)
        (barterEvents.take 8)
      = pair (barterL₄ data) (barterR₂ data) net storedL [] := by
  obtain ⟨sends, puts, hleft⟩ := step_committingLeft hsize
  obtain ⟨net, storedL, hdone⟩ := step_completing data sends puts
  refine ⟨net, storedL, ?_⟩
  have hstart : barterEvents.take 8
      = [.propose .left (quietEnv 30 200) proposerOffer,
        .deliver 0 (quietEnv 21 200), .deliver 1 (quietEnv 31 200),
        .serve .left (Bytes.fill 32 3), .deliver 2 (quietEnv 22 200),
        .serve .right (Bytes.fill 32 10), .deliver 4 (quietEnv 32 200),
        .deliver 3 (quietEnv 33 200)] := rfl
  unfold Duo.run
  rw [hstart]
  rw [List.foldl_cons, step_proposing, List.foldl_cons,
    step_answering hsize, List.foldl_cons, step_adopting, List.foldl_cons,
    step_servingLeft, List.foldl_cons, step_committingRight hsize,
    List.foldl_cons, step_servingRight, List.foldl_cons, hleft,
    List.foldl_cons, hdone, List.foldl_nil]

/-- The whole run: the proposer ends with the swap completed, the
accepter with the swap aborted and nothing stored. -/
theorem run_barterEvents {data : List UInt8}
    (hsize : data.length = ENCRYPTED_CHUNK_SIZE) :
    ∃ net storedL, Duo.run Prims.plain (barterStart data) barterEvents
      = pair (barterL₄ data) (barterR₃ data) net storedL [] := by
  obtain ⟨net, storedL, hrun⟩ := run_untilTimeout hsize
  obtain ⟨net', hlast⟩ := step_expiring data net storedL
  refine ⟨net', storedL, ?_⟩
  have hsplit : barterEvents
      = barterEvents.take 8 ++ [.expire .right (quietEnv 24 600)] := rfl
  unfold Duo.run at hrun ⊢
  rw [hsplit, List.foldl_append, hrun]
  exact hlast

theorem barterL₄_holds (data : List UInt8) :
    (barterL₄ data).chunkHolder.hasChunk (Bytes.fill 32 10) = true := by
  show (((barterL₃ data).chunkHolder.addChunk (Bytes.fill 32 10) data
    (Bytes.zero 32)).chunks).contains (Bytes.fill 32 10) = true
  rw [FMap.contains_eq_true]
  exact ⟨data, FMap.get_insert_self _ _ _⟩

/-- The run up to the timeout is steady, so the nodes agree all along it;
in it both commit and the proposer completes the swap. -/
theorem swap_agreement_committed : ∃ data : List UInt8,
    (∀ n, (Duo.run Prims.plain (barterStart data)
      (patientEvents.take n)).Agrees)
      ∧ offerId ∈ ((Duo.run Prims.plain (barterStart data)
        (patientEvents.take 8)).node .left).swapState.completedSwaps := by
  have hsize : (List.replicate ENCRYPTED_CHUNK_SIZE (0 : UInt8)).length
      = ENCRYPTED_CHUNK_SIZE := List.length_replicate
  refine ⟨List.replicate ENCRYPTED_CHUNK_SIZE 0, ?_⟩
  generalize List.replicate ENCRYPTED_CHUNK_SIZE (0 : UInt8) = data
    at hsize
  refine ⟨swap_agreement Prims.plain (barterStart data) patientEvents
    (barterStart_initial data)
    (Exact.along_iff_forall_take.1 (patientEvents_steady hsize)), ?_⟩
  obtain ⟨net, storedL, hrun⟩ := run_untilTimeout hsize
  have hstart : patientEvents.take 8 = barterEvents.take 8 := rfl
  rw [hstart, hrun]
  exact barterL₄_completed data

/-- A lost commit: the proposer has completed the swap and holds the
accepter's chunk, the accepter has aborted it and stored nothing. -/
theorem swap_disagreement :
    ∃ (data : List UInt8) (w : Duo), (barterStart data).Initial
      ∧ w = Duo.run Prims.plain (barterStart data) barterEvents
      ∧ offerId ∈ (w.node .left).swapState.completedSwaps
      ∧ (w.node .left).chunkHolder.hasChunk (Bytes.fill 32 10) = true
      ∧ offerId ∈ (w.node .right).swapState.abortedSwaps
      ∧ w.stored .right = []
      ∧ ¬ w.Agrees := by
  have hsize : (List.replicate ENCRYPTED_CHUNK_SIZE (0 : UInt8)).length
      = ENCRYPTED_CHUNK_SIZE := List.length_replicate
  refine ⟨List.replicate ENCRYPTED_CHUNK_SIZE 0, ?_⟩
  generalize List.replicate ENCRYPTED_CHUNK_SIZE (0 : UInt8) = data
    at hsize
  obtain ⟨net, storedL, hrun⟩ := run_barterEvents hsize
  refine ⟨_, barterStart_initial data, hrun.symm, barterL₄_completed data,
    barterL₄_holds data, barterR₃_aborted data, rfl, ?_⟩
  intro hagrees
  obtain ⟨swap, hmem, -⟩ := hagrees .left offerId
    (barterL₄_completed data) (barterR₃_aborted data)
  cases hmem

end Duo

end StaticNet
