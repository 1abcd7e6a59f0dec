/-
Everything one section of a swap handler can do.

`Effect` lists the updates the sections make, each once, and
`effects_program` says that no section of any handler does anything
else. An invariant whose proof does not need to know which handler is
running is then a case analysis over `Effect`, one case per kind of
update, and `Reach.guaranteed` carries it through every interleaving.
The entries a section may open are a parameter: only two of the handlers
open any (`Opens`).
-/
import StaticNet.Swap.Proofs.Gate

namespace StaticNet

open Proc TransportState

/-- The updates of the sections, by what they touch; `N` says which new
entries there may be. -/
inductive Effect (N : PendingSwap → Prop) :
    Act → TransportState → TransportState → Prop
  /-- a read, a send, or an update that turned out to change nothing -/
  | same (l : Act) (s : TransportState) : Effect N l s s
  | note (l : Act) (s : TransportState) (env : Env) (peer : NodeId) :
      Effect N l s (s.note env peer)
  | nonces (l : Act) (s : TransportState) (cache : FMap (Bytes 32) Nat) :
      Effect N l s (s.setNonces cache)
  | capacity (l : Act) (s : TransportState)
      (f : StorageCapacity → StorageCapacity) :
      Effect N l s (s.updCapacity f)
  /-- a proposal record or the reject counter -/
  | records (l : Act) (s : TransportState)
      (props : FMap ProposalId SwapProposal) (rejected : Nat) :
      Effect N l s (s.updSwaps fun st =>
        { st with pendingProposals := props, rejectedSwaps := rejected })
  /-- a new entry, with the proposal record dropped or kept -/
  | opened (l : Act) (s : TransportState) (swap : PendingSwap)
      (props : FMap ProposalId SwapProposal) :
      N swap →
      Effect N l s (s.updSwaps fun st =>
        { st.startPendingSwap swap with pendingProposals := props })
  /-- an accept's terms, a buffered chunk, or a flag -/
  | modified (l : Act) (s : TransportState) (pid : ProposalId)
      (f : PendingSwap → PendingSwap) :
      (∀ swap, (f swap).peer = swap.peer
        ∧ (f swap).ourChunkId = swap.ourChunkId) →
      Effect N l s (s.updSwaps fun st => st.modifyPending pid f)
  | aborted (l : Act) (s : TransportState) (pid : ProposalId) :
      Effect N l s (s.updSwaps fun st => (st.abortSwap pid).2)
  | expired (l : Act) (s : TransportState) (ids : List ProposalId) :
      Effect N l s (s.updSwaps fun st => (SwapState.expireIds ids st).2)
  | completed (l : Act) (s : TransportState) (pid : ProposalId)
      (swap : PendingSwap) :
      s.swapState.pendingSwaps.get pid = some swap → swap.ready = true →
      Effect N l s (s.updSwaps fun st => (st.completeSwap pid).2)
  /-- a completed swap's chunk, which was not held -/
  | stored (s : TransportState) (swap : PendingSwap) :
      s.chunkHolder.hasChunk swap.theirChunkId = false →
      Effect N (.put swap) s
        { s with
          chunkHolder := s.chunkHolder.addChunk swap.theirChunkId
            swap.theirChunkData (Bytes.zero 32) }
  | counted (l : Act) (s : TransportState) (counts : FMap NodeId Nat) :
      Effect N l s { s with peerChunkCounts := counts }
  | leased (l : Act) (s : TransportState) (swap : PendingSwap) :
      Effect N l s
        { s with
          leaseManager := s.leaseManager.addLease swap.theirChunkId
            (swapLease swap) }

/-- More new entries may be allowed. -/
theorem Effect.mono {N N' : PendingSwap → Prop} {l : Act}
    {s s' : TransportState} (h : Effect N l s s')
    (hN : ∀ swap, N swap → N' swap) : Effect N' l s s' := by
  cases h with
  | same => exact .same l s
  | note _ _ env peer => exact .note l s env peer
  | nonces _ _ cache => exact .nonces l s cache
  | capacity _ _ f => exact .capacity l s f
  | records _ _ props rejected => exact .records l s props rejected
  | opened _ _ swap props h => exact .opened l s swap props (hN swap h)
  | modified _ _ pid f h => exact .modified l s pid f h
  | aborted _ _ pid => exact .aborted l s pid
  | expired _ _ ids => exact .expired l s ids
  | completed _ _ pid swap hget hready =>
      exact .completed l s pid swap hget hready
  | stored _ swap h => exact .stored s swap h
  | counted _ _ table => exact .counted l s table
  | leased _ _ swap => exact .leased l s swap

/-- The entries an event may open. -/
def Opens (P : Prims) : SwapEvent → PendingSwap → Prop
  | .propose env peer p, swap => swap = proposerEntry P peer p env.now
  | .proposal env p, swap => ∃ retId,
      swap = accepterEntry P p retId ENCRYPTED_CHUNK_SIZE env.now
  | _, _ => False

variable {P : Prims} {env : Env} {pid : ProposalId} {swap : PendingSwap}
  {N : PendingSwap → Prop}

-- =========== helpers

/-- A read changes nothing. -/
theorem effects_read {α : Type} (l : Act) (f : TransportState → α) :
    Sections (Effect N) (Proc.read l f) :=
  fun s => ⟨.same l s, trivial⟩

/-- Nor does sending. -/
theorem effects_sendMessage (dest : NodeId) (msg : SwapMessage) :
    Sections (Effect N) (sendMessage dest msg) :=
  fun s => ⟨.same _ s, trivial⟩

/-- A rejection is a read and a message. -/
theorem effects_sendMaintenanceReject (dest : NodeId)
    (reason : SwapRejectReason) :
    Sections (Effect N) (sendMaintenanceReject dest pid reason) :=
  (effects_read _ _).bind fun _ => effects_sendMessage _ _

/-- So is an abort, -/
theorem effects_sendAbort (draw : Nat) (dest : NodeId)
    (reason : String) :
    Sections (Effect N) (sendAbort P env draw dest pid reason) :=
  (effects_read _ _).bind fun _ => effects_sendMessage _ _

/-- and a commit. -/
theorem effects_sendCommit (dest : NodeId) :
    Sections (Effect N) (sendCommit P env dest pid) :=
  (effects_read _ _).bind fun _ => effects_sendMessage _ _

/-- A write of the capacity is one of the effects. -/
theorem effects_capacity (f : StorageCapacity → StorageCapacity) :
    Sections (Effect N) (write .capacity (updCapacity f)) :=
  fun s => ⟨.capacity _ s f, trivial⟩

/-- The entry goes, and what it reserved is released. -/
theorem effects_abortAndRelease :
    Sections (Effect N) (abortAndRelease pid) := by
  apply Sections.bind
  · exact fun s => ⟨.aborted _ s pid, trivial⟩
  intro swap
  cases swap with
  | none => trivial
  | some swap => exact effects_capacity _

/-- The checks note the peer and the nonce. -/
theorem effects_signedMessage {sender : NodeId} {verified : Bool}
    {identity nonce : Bytes 32} {body : Handler Unit}
    (hbody : Sections (Effect N) body) :
    Sections (Effect N)
      (signedMessage env sender verified identity nonce body) := by
  apply Sections.bind
  · exact fun s => ⟨.note _ s env sender, trivial⟩
  intro _
  split
  · trivial
  · apply Sections.bind (effects_read _ _)
    intro pinned
    split
    · trivial
    · apply Sections.bind
      · exact fun s => ⟨.nonces _ s _, trivial⟩
      intro fresh
      split
      · trivial
      · exact hbody

/-- A reservation writes the capacity. -/
theorem effects_tryReserve (size n : Nat) :
    Sections (Effect N) (tryReserve size n) := by
  intro s
  refine ⟨?_, trivial⟩
  dsimp only
  split
  · exact Effect.capacity _ s fun cap => cap.reserve size
  · exact .same _ s

-- ====== the handlers

/-- The entry opened is the accepter's. -/
theorem effects_prepareSwap (p : SwapProposal) (size n : Nat)
    (hN : ∀ retId, N (accepterEntry P p retId size env.now)) :
    Sections (Effect N) (prepareSwap P env p size n) := by
  apply Sections.bind (effects_read _ _)
  intro returnEntry
  cases returnEntry with
  | none => exact effects_sendMaintenanceReject _ _
  | some retId =>
      apply Sections.bind (effects_read _ _)
      intro pendingLen
      dsimp only
      split
      · exact effects_sendMaintenanceReject _ _
      · apply Sections.bind (effects_tryReserve _ _)
        intro reserved
        split
        · exact effects_sendMaintenanceReject _ _
        · apply Sections.bind
          · exact fun s => ⟨.opened _ s _
              (s.swapState.pendingProposals.erase (proposalId P p)) (hN retId),
              trivial⟩
          intro _
          exact (effects_read _ _).bind fun _ => effects_sendMessage _ _

/-- A proposal opens no other entry. -/
theorem effects_proposal (p : SwapProposal)
    (hN : ∀ retId,
      N (accepterEntry P p retId ENCRYPTED_CHUNK_SIZE env.now)) :
    Sections (Effect N) (handleMaintenanceProposal P env p) := by
  apply Sections.bind
  · exact fun s => ⟨.note _ s env p.fromNode, trivial⟩
  intro _
  apply Sections.bind (effects_read _ _)
  intro actualBytes
  apply Sections.bind (effects_capacity _)
  intro _
  apply Sections.bind (effects_read _ _)
  intro peerChunks
  apply Sections.bind (effects_read _ _)
  intro result
  cases result with
  | ok u => exact effects_prepareSwap _ _ _ hN
  | error reason =>
      apply Sections.bind
      · exact fun s => ⟨.records _ s
          (s.swapState.pendingProposals.erase (proposalId P p))
          s.swapState.rejectedSwaps, trivial⟩
      intro _
      apply Sections.bind
      · exact fun s => ⟨.records _ s s.swapState.pendingProposals
          (s.swapState.rejectedSwaps + 1), trivial⟩
      intro _
      exact effects_sendMaintenanceReject _ _

/-- The terms name neither the peer nor our chunk. -/
theorem adoptTerms_keeps_party (a : SwapAccept) (n : Nat)
    (swap : PendingSwap) :
    (adoptTerms a n swap).peer = swap.peer
      ∧ (adoptTerms a n swap).ourChunkId = swap.ourChunkId := by
  unfold adoptTerms
  dsimp only
  split <;> exact ⟨rfl, rfl⟩

/-- An accept's terms are adopted, or the swap is aborted. -/
theorem effects_adoptAccept (a : SwapAccept) (n : Nat) :
    Sections (Effect N) (adoptAccept P env a n) := by
  apply Sections.bind (effects_read _ _)
  intro peerOk
  split
  · trivial
  · apply Sections.bind (effects_tryReserve _ _)
    intro fits
    split
    · exact effects_abortAndRelease.bind fun _ => effects_sendAbort _ _ _
    · exact fun s => ⟨.modified _ s _ _ (adoptTerms_keeps_party a n),
        trivial⟩

/-- The books of a stored chunk. -/
theorem effects_accountStored (swap : PendingSwap) (storedNew : Bool) :
    Sections (Effect N) (accountStored swap storedNew) := by
  apply Sections.bind (effects_capacity _)
  intro _
  cases storedNew with
  | false => trivial
  | true =>
      exact fun s => ⟨.counted _ s _, fun s' => ⟨.leased _ s' swap, trivial⟩⟩

/-- A ready swap is completed, its chunk stored and accounted for. -/
theorem effects_finalize : Sections (Effect N) (finalizeSwapIfReady pid) := by
  apply Sections.bind
  · intro s
    refine ⟨?_, trivial⟩
    dsimp only
    rcases completeReady_cases pid s with hc | ⟨swap, hg, hready, hc⟩
    · rw [hc]
      exact .same _ s
    · rw [hc]
      exact .completed _ s pid swap hg hready
  intro completed
  cases completed with
  | none => trivial
  | some swap =>
      apply Sections.bind
      · intro s
        refine ⟨?_, trivial⟩
        dsimp only
        cases hheld : s.chunkHolder.hasChunk swap.theirChunkId with
        | true => exact .same _ s
        | false => exact .stored s swap hheld
      intro storedNew
      exact effects_accountStored _ _

/-- A commit sets its flag and may finalize. -/
theorem effects_commitPending (c : SwapCommit) :
    Sections (Effect N) (commitPending c) := by
  apply Sections.bind (effects_read _ _)
  intro peerOk
  split
  · trivial
  · apply Sections.bind
    · exact fun s => ⟨.modified _ s _ _ fun _ => ⟨rfl, rfl⟩, trivial⟩
    intro _
    exact effects_finalize.bind fun _ => trivial

/-- An abort takes out the entry, or the record. -/
theorem effects_abortPending (a : SwapAbort) :
    Sections (Effect N) (abortPending a) := by
  apply Sections.bind (effects_read _ _)
  intro peerOk
  split
  · exact fun s => ⟨.records _ s
      (s.swapState.pendingProposals.erase a.proposalId)
      s.swapState.rejectedSwaps, trivial⟩
  · exact effects_abortAndRelease

/-- Claiming the commit sets a flag. -/
theorem effects_claimCommit : Sections (Effect N) (claimCommit pid) := by
  intro s
  refine ⟨?_, trivial⟩
  dsimp only
  split
  · exact .same _ s
  · exact .modified _ s _ _ fun _ => ⟨rfl, rfl⟩

/-- Our commit is sent once, and the swap may be finalized. -/
theorem effects_commitRetrieved (peer : NodeId) :
    Sections (Effect N) (commitRetrieved P env pid peer) := by
  apply Sections.bind effects_claimCommit
  intro needCommit
  dsimp only
  split
  · exact (effects_sendCommit _).bind fun _ =>
      effects_finalize.bind fun _ => trivial
  · exact effects_finalize.bind fun _ => trivial

/-- A chunk that passes is buffered, any other aborts its swap. -/
theorem effects_retrieval (chunkId : ChunkId) (data : List UInt8) :
    Sections (Effect N) (handleSwapChunkRetrieval P env chunkId data) := by
  unfold handleSwapChunkRetrieval
  split
  · trivial
  · apply Sections.bind (effects_read _ _)
    intro found
    cases found with
    | none => trivial
    | some swap =>
        dsimp only
        split
        · apply Sections.bind effects_abortAndRelease
          intro _
          exact (effects_sendAbort _ _ _).bind fun _ => trivial
        · apply Sections.bind
          · exact fun s => ⟨.modified _ s _ _ fun _ => ⟨rfl, rfl⟩, trivial⟩
          intro received
          split
          · trivial
          · exact effects_commitRetrieved _

/-- Each expired swap is released and its peer told. -/
theorem effects_releaseExpired (l : List PendingSwap) (draw : Nat) :
    Sections (Effect N) (releaseExpired P env draw l) := by
  induction l generalizing draw with
  | nil => trivial
  | cons swap rest ih =>
      apply Sections.bind (effects_capacity _)
      intro _
      exact (effects_sendAbort _ _ _).bind fun _ => ih _

/-- No section of a handler does anything but what `Effect` lists. -/
theorem effects_program (e : SwapEvent) :
    Sections (Effect (Opens P e)) (e.program P) := by
  cases e with
  | propose env peer p =>
      exact fun s => ⟨.opened _ s _ s.swapState.pendingProposals rfl,
        trivial⟩
  | proposal env p => exact effects_proposal p fun retId => ⟨retId, rfl⟩
  | accept env a => exact effects_signedMessage (effects_adoptAccept a _)
  | commit env c => exact effects_signedMessage (effects_commitPending c)
  | abort env a => exact effects_signedMessage (effects_abortPending a)
  | retrieval env chunkId data =>
      exact (effects_retrieval chunkId data).bind fun _ => trivial
  | expire env =>
      apply Sections.bind
      · apply Sections.bind
        · exact fun s => ⟨.expired _ s _, trivial⟩
        intro expired
        exact (effects_releaseExpired _ _).bind fun _ => trivial
      exact fun _ => trivial

-- ==== where entries come from

/-- Every entry of the second table is one of the first, with its peer,
or new: `K` says under which id and with which peer. -/
def Traced (K : ProposalId → NodeId → Prop)
    (m m' : FMap ProposalId PendingSwap) : Prop :=
  ∀ pid swap', m'.get pid = some swap' →
    (∃ swap, m.get pid = some swap ∧ swap.peer = swap'.peer)
      ∨ K pid swap'.peer

/-- Every entry goes back to itself. -/
theorem Traced.refl {K : ProposalId → NodeId → Prop}
    (m : FMap ProposalId PendingSwap) : Traced K m m :=
  fun _ swap' h => .inl ⟨swap', h, rfl⟩

/-- Origins compose. -/
theorem Traced.trans {K : ProposalId → NodeId → Prop}
    {m₁ m₂ m₃ : FMap ProposalId PendingSwap} (h₁ : Traced K m₁ m₂)
    (h₂ : Traced K m₂ m₃) : Traced K m₁ m₃ := by
  intro pid swap₃ hget
  rcases h₂ pid swap₃ hget with ⟨swap₂, hget₂, hpeer⟩ | hnew
  · rw [← hpeer]
    exact h₁ pid swap₂ hget₂
  · exact .inr hnew

/-- Erasing adds no entry. -/
theorem Traced.erase {K : ProposalId → NodeId → Prop}
    (m : FMap ProposalId PendingSwap) (pid : ProposalId) :
    Traced K m (m.erase pid) := by
  intro pid' swap' hget
  rw [FMap.get_erase] at hget
  split at hget
  next => cases hget
  next => exact .inl ⟨swap', hget, rfl⟩

/-- A change that keeps the peer keeps the origin. -/
theorem Traced.modify {K : ProposalId → NodeId → Prop}
    (m : FMap ProposalId PendingSwap) (pid : ProposalId)
    {f : PendingSwap → PendingSwap} (hf : ∀ x, (f x).peer = x.peer) :
    Traced K m (m.modify pid f) := by
  intro pid' swap' hget
  rw [FMap.get_modify] at hget
  split at hget
  next =>
    obtain ⟨swap, hswap, rfl⟩ := Option.map_eq_some_iff.1 hget
    exact .inl ⟨swap, hswap, (hf swap).symm⟩
  next => exact .inl ⟨swap', hget, rfl⟩

/-- Nor does expiry add any. -/
theorem Traced.expireIds {K : ProposalId → NodeId → Prop}
    (ids : List ProposalId) (st : SwapState) :
    Traced K st.pendingSwaps (SwapState.expireIds ids st).2.pendingSwaps := by
  induction ids generalizing st with
  | nil => exact .refl _
  | cons pid rest ih => exact (Traced.erase _ pid).trans (ih _)

/-- An id and a peer under which an entry may be opened. -/
def NewFor (N : PendingSwap → Prop) (pid : ProposalId) (peer : NodeId) :
    Prop := ∃ swap, N swap ∧ swap.proposalId = pid ∧ swap.peer = peer

/-- After any effect an entry is an old one, or new. -/
theorem Effect.traced {l : Act} {s s' : TransportState}
    (h : Effect N l s s') :
    Traced (NewFor N) s.swapState.pendingSwaps
      s'.swapState.pendingSwaps := by
  cases h with
  | opened _ _ swap props hnew =>
      intro pid' swap' hget
      change (s.swapState.pendingSwaps.insert swap.proposalId swap).get
        pid' = some swap' at hget
      rw [FMap.get_insert] at hget
      split at hget
      next heq =>
        obtain rfl := Option.some.inj hget
        exact .inr ⟨swap, hnew, heq.symm, rfl⟩
      next => exact .inl ⟨swap', hget, rfl⟩
  | modified _ _ pid f hf => exact .modify _ _ fun x => (hf x).1
  | aborted _ _ pid =>
      show Traced _ _ (s.swapState.abortSwap pid).2.pendingSwaps
      unfold SwapState.abortSwap
      split
      · exact .refl _
      · exact .erase _ pid
  | expired _ _ ids => exact .expireIds ids _
  | completed _ _ pid swap hswap hready =>
      show Traced _ _ (s.swapState.completeSwap pid).2.pendingSwaps
      rw [(completeSwap_of_get hswap).2.1]
      exact .erase _ pid
  | _ => exact .refl _

end StaticNet
