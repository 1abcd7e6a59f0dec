/-
The storage gate: what `finalize_swap_if_ready` may put into the holder.

# The reading

Every lock section is one step and any number of handlers run at once
(`Proc.Reach`). The history records each section's label with the state
it found, so "the data was delivered for this chunk id" is membership of
a `deliver` label, and "a chunk is put into the holder" is a `put` label
that carries the finalized swap.

# Where it breaks

A chunk is checked against the terms the pending swap has when the chunk
arrives; the swap is finalized with the terms it has when both commits
are in. An accept with a fresh nonce rewrites chunk id, root and proof
at any time in between. `TermsKept` says of each section that it does
not: an accept that meets a buffered chunk keeps its id and leaves terms
the chunk passes, and a chunk is buffered under terms that it passes.

# The invariant

`Fit` is what the gate promises of a swap with a buffered chunk. Every
pending swap that is marked received is fit (`fit`), so every swap that
is put is fit, in the history before the put (`puts`). Most sections
cannot break this because they leave chunk, data, root and proof of
every entry alone (`Harmless`); the two that can are `terms` and
`buffer`, and the condition is about exactly those.
-/
import StaticNet.Lib.Exact
import StaticNet.Swap.Proofs.Paths

namespace StaticNet

open Proc TransportState

/-- The sections executed so far. -/
abbrev History := List (Step Act TransportState)

-- ============= gated

/-- The data was delivered for this chunk id. -/
def Delivered (tr : History) (chunkId : ChunkId) (data : List UInt8) :
    Prop := ∃ s, (Act.deliver chunkId data, s) ∈ tr

/-- What the gate promises of a swap whose chunk is buffered. -/
structure Fit (P : Prims) (tr : History) (swap : PendingSwap) : Prop where
  delivered : Delivered tr swap.theirChunkId swap.theirChunkData
  size : swap.theirChunkData.length = ENCRYPTED_CHUNK_SIZE
  gate : swap.contentRoot ≠ zeroRoot →
    verifyChunk P swap.theirChunkData swap.merkleProof swap.contentRoot
      = true

/-- All three flags of a finalized swap. -/
def AllFlags (swap : PendingSwap) : Prop :=
  swap.sentCommit = true ∧ swap.receivedCommit = true
    ∧ swap.receivedTheirChunk = true

/-- Every put of the history stores a swap that has all three flags and
was fit before the put. -/
def PutsGated (P : Prims) (tr : History) : Prop :=
  ∀ tr₁ swap s tr₂, tr = tr₁ ++ (Act.put swap, s) :: tr₂ →
    AllFlags swap ∧ Fit P tr₁ swap

/-- What is held was held initially or was put. -/
def HolderTraced (s₀ : TransportState) (tr : History)
    (s : TransportState) : Prop :=
  ∀ c d, s.chunkHolder.getChunk c = some d →
    s₀.chunkHolder.getChunk c = some d
      ∨ ∃ swap s', (Act.put swap, s') ∈ tr ∧ swap.theirChunkId = c
          ∧ swap.theirChunkData = d

/-- A section leaves a buffered chunk with terms it passes. -/
def TermsKept (P : Prims) : Act → TransportState → Prop
  | .terms a, s => ∀ swap,
      s.swapState.pendingSwaps.get a.proposalId = some swap →
      swap.receivedTheirChunk = true →
        a.chunkId = swap.theirChunkId
          ∧ (a.returnContentRoot ≠ zeroRoot →
              verifyChunk P swap.theirChunkData a.returnMerkleProof
                a.returnContentRoot = true)
  | .buffer pid chunkId data, s => ∀ swap,
      s.swapState.pendingSwaps.get pid = some swap →
        swap.theirChunkId = chunkId
          ∧ passesGate P swap.contentRoot swap.merkleProof data = true
  | _, _ => True

/-- The handlers that run: any entry point on any arguments. -/
def IsHandler (P : Prims) (p : Handler Unit) : Prop :=
  ∃ e : SwapEvent, p = e.program P

-- ===== the invariant

/-- The gate's invariant over history and state. -/
structure GateInv (P : Prims) (s₀ : TransportState) (tr : History)
    (s : TransportState) : Prop where
  fit : ∀ pid swap, s.swapState.pendingSwaps.get pid = some swap →
    swap.receivedTheirChunk = true → Fit P tr swap
  puts : PutsGated P tr
  held : HolderTraced s₀ tr s

/-- The table changed, but no buffered chunk appeared and none of the
fields the gate reads changed under one. -/
def Harmless (m m' : FMap ProposalId PendingSwap) : Prop :=
  ∀ pid swap', m'.get pid = some swap' → swap'.receivedTheirChunk = true →
    ∃ swap, m.get pid = some swap ∧ swap.receivedTheirChunk = true
      ∧ swap'.theirChunkId = swap.theirChunkId
      ∧ swap'.theirChunkData = swap.theirChunkData
      ∧ swap'.contentRoot = swap.contentRoot
      ∧ swap'.merkleProof = swap.merkleProof

/-- What the sections outside retrieval and finalization do: they put
nothing, send no commit, and do not touch the node's identity. -/
def Tame (l : Act) (s s' : TransportState) : Prop :=
  s'.chunkHolder = s.chunkHolder ∧ s'.nodeId = s.nodeId ∧
    match l with
    | .put _ => False
    | .send _ (.commit _) => False
    | .terms a => s'.swapState.pendingSwaps
        = s.swapState.pendingSwaps.modify a.proposalId
            (adoptTerms a ENCRYPTED_CHUNK_SIZE)
    | _ => Harmless s.swapState.pendingSwaps s'.swapState.pendingSwaps

variable {P : Prims} {s₀ s s' : TransportState} {tr tr' : History}
  {swap swap' : PendingSwap} {pid : ProposalId} {env : Env}

-- =========== history

theorem Delivered.mono {c : ChunkId} {d : List UInt8}
    (h : Delivered tr c d) (hpre : tr <+: tr') : Delivered tr' c d := by
  obtain ⟨s, hs⟩ := h
  exact ⟨s, hpre.subset hs⟩

theorem Fit.mono (h : Fit P tr swap) (hpre : tr <+: tr') :
    Fit P tr' swap :=
  ⟨h.delivered.mono hpre, h.size, h.gate⟩

/-- Fitness reads four fields of the swap. -/
theorem Fit.congr (h : Fit P tr swap)
    (hc : swap'.theirChunkId = swap.theirChunkId)
    (hd : swap'.theirChunkData = swap.theirChunkData)
    (hr : swap'.contentRoot = swap.contentRoot)
    (hp : swap'.merkleProof = swap.merkleProof) : Fit P tr swap' := by
  constructor
  · rw [hc, hd]
    exact h.delivered
  · rw [hd]
    exact h.size
  · rw [hr, hd, hp]
    exact h.gate

/-- A section that is not a put adds nothing to what was put. -/
theorem PutsGated.append (h : PutsGated P tr) {l : Act}
    (hl : ∀ swap, l = .put swap → AllFlags swap ∧ Fit P tr swap) :
    PutsGated P (tr ++ [(l, s)]) := by
  intro tr₁ swap s₁ tr₂ heq
  rcases List.eq_nil_or_concat tr₂ with rfl | ⟨tr₃, x, rfl⟩
  · have hlast := List.append_inj' heq rfl
    obtain ⟨rfl, hx⟩ := hlast
    injection hx with hx
    injection hx with hx
    exact hl swap hx
  · rw [List.concat_eq_append, ← List.cons_append,
      ← List.append_assoc] at heq
    have hinit := (List.append_inj' heq rfl).1
    exact h tr₁ swap s₁ tr₃ hinit

theorem HolderTraced.append (h : HolderTraced s₀ tr s) {l : Act}
    (hh : s'.chunkHolder = s.chunkHolder) :
    HolderTraced s₀ (tr ++ [(l, s)]) s' := by
  intro c d hget
  rw [hh] at hget
  rcases h c d hget with h | ⟨swap, s₁, hmem, hc, hd⟩
  · exact .inl h
  · exact .inr ⟨swap, s₁, List.mem_append_left _ hmem, hc, hd⟩

-- ==== harmless edits

theorem Harmless.refl (m : FMap ProposalId PendingSwap) : Harmless m m :=
  fun _ swap' hg hr => ⟨swap', hg, hr, rfl, rfl, rfl, rfl⟩

theorem harmless_erase (m : FMap ProposalId PendingSwap)
    (pid : ProposalId) : Harmless m (m.erase pid) := by
  intro pid' swap' hg hr
  rw [FMap.get_erase] at hg
  split at hg
  next => cases hg
  next => exact ⟨swap', hg, hr, rfl, rfl, rfl, rfl⟩

theorem Harmless.trans {m m' m'' : FMap ProposalId PendingSwap}
    (h : Harmless m m') (h' : Harmless m' m'') : Harmless m m'' := by
  intro pid swap'' hg hr
  obtain ⟨swap', hg', hr', hc', hd', ht', hp'⟩ := h' pid swap'' hg hr
  obtain ⟨swap, hgs, hrs, hc, hd, ht, hp⟩ := h pid swap' hg' hr'
  exact ⟨swap, hgs, hrs, hc'.trans hc, hd'.trans hd, ht'.trans ht,
    hp'.trans hp⟩

/-- A new entry has no buffered chunk. -/
theorem harmless_insert (m : FMap ProposalId PendingSwap)
    (hnew : swap.receivedTheirChunk = false) :
    Harmless m (m.insert pid swap) := by
  intro pid' swap' hg hr
  rw [FMap.get_insert] at hg
  split at hg
  next =>
    injection hg with hg
    rw [← hg, hnew] at hr
    cases hr
  next => exact ⟨swap', hg, hr, rfl, rfl, rfl, rfl⟩

/-- Setting a flag is harmless. -/
theorem harmless_modify (m : FMap ProposalId PendingSwap)
    (pid : ProposalId) {f : PendingSwap → PendingSwap}
    (hf : ∀ x, (f x).receivedTheirChunk = x.receivedTheirChunk
      ∧ (f x).theirChunkId = x.theirChunkId
      ∧ (f x).theirChunkData = x.theirChunkData
      ∧ (f x).contentRoot = x.contentRoot
      ∧ (f x).merkleProof = x.merkleProof) :
    Harmless m (m.modify pid f) := by
  intro pid' swap' hg hr
  rw [FMap.get_modify] at hg
  split at hg
  next =>
    cases hm : m.get pid' with
    | none => rw [hm] at hg; cases hg
    | some x =>
        rw [hm] at hg
        injection hg with hg
        obtain ⟨hfr, hfc, hfd, hft, hfp⟩ := hf x
        rw [hg] at hfr hfc hfd hft hfp
        exact ⟨x, rfl, hfr ▸ hr, hfc, hfd, hft, hfp⟩
  next => exact ⟨swap', hg, hr, rfl, rfl, rfl, rfl⟩

theorem harmless_expireIds (ids : List ProposalId) (st : SwapState) :
    Harmless st.pendingSwaps
      (SwapState.expireIds ids st).2.pendingSwaps := by
  induction ids generalizing st with
  | nil => exact Harmless.refl _
  | cons pid rest ih =>
      exact (harmless_erase st.pendingSwaps pid).trans
        (ih { st with
          abortedSwaps := pushCapped st.abortedSwaps pid
          pendingSwaps := st.pendingSwaps.erase pid })

-- ==== the step lemmas

/-- A harmless change keeps the invariant. -/
theorem GateInv.harmless (h : GateInv P s₀ tr s) {l : Act}
    (hl : ∀ swap, l ≠ .put swap)
    (hh : s'.chunkHolder = s.chunkHolder)
    (hm : Harmless s.swapState.pendingSwaps s'.swapState.pendingSwaps) :
    GateInv P s₀ (tr ++ [(l, s)]) s' := by
  refine ⟨?_, h.puts.append fun swap hx => absurd hx (hl swap),
    h.held.append hh⟩
  intro pid swap' hg hr
  obtain ⟨swap, hgs, hrs, hc, hd, ht, hp⟩ := hm pid swap' hg hr
  exact ((h.fit pid swap hgs hrs).congr hc hd ht hp).mono
    (List.prefix_append _ _)

/-- Overwriting terms keeps the invariant when the buffered chunk, if
there is one, passes the new terms. -/
theorem GateInv.terms (h : GateInv P s₀ tr s) {a : SwapAccept}
    (hC : TermsKept P (.terms a) s)
    (hh : s'.chunkHolder = s.chunkHolder)
    (hm : s'.swapState.pendingSwaps
      = s.swapState.pendingSwaps.modify a.proposalId
          (adoptTerms a ENCRYPTED_CHUNK_SIZE)) :
    GateInv P s₀ (tr ++ [(Act.terms a, s)]) s' := by
  refine ⟨?_, h.puts.append nofun, h.held.append hh⟩
  intro pid swap' hg hr
  rw [hm, FMap.get_modify] at hg
  split at hg
  next heq =>
    subst heq
    cases hgs : s.swapState.pendingSwaps.get a.proposalId with
    | none => rw [hgs] at hg; cases hg
    | some swap =>
        rw [hgs] at hg
        injection hg with hg
        have hrs : swap.receivedTheirChunk = true := by
          rw [← hg] at hr
          unfold adoptTerms at hr
          split at hr <;> exact hr
        obtain ⟨hid, hver⟩ := hC swap hgs hrs
        have hfit := (h.fit _ swap hgs hrs).mono
          (List.prefix_append tr [(Act.terms a, s)])
        rw [← hg]
        unfold adoptTerms
        split
        next hroot =>
          constructor
          · show Delivered _ a.chunkId swap.theirChunkData
            rw [hid]
            exact hfit.delivered
          · exact hfit.size
          · intro _
            exact hver hroot
        next => exact hfit.congr hid rfl rfl rfl
  next =>
    exact (h.fit pid swap' hg hr).mono (List.prefix_append _ _)

theorem GateInv.tame {tr : History} {l : Act} {s s' : TransportState}
    (h : GateInv P s₀ tr s) (hC : TermsKept P l s) (ht : Tame l s s') :
    GateInv P s₀ (tr ++ [(l, s)]) s' := by
  obtain ⟨hh, -, hl⟩ := ht
  cases l with
  | put swap => exact hl.elim
  | terms a => exact h.terms hC hh hl
  | send dest msg =>
      cases msg with
      | commit c => exact hl.elim
      | _ => exact h.harmless nofun hh hl
  | _ => exact h.harmless nofun hh hl

-- ==== the tame programs

/-- Sending anything but a commit is tame. -/
theorem sections_sendMessage (dest : NodeId) {msg : SwapMessage}
    (h : ∀ c, msg ≠ .commit c) : Sections Tame (sendMessage dest msg) := by
  intro s
  cases msg with
  | commit c => exact absurd rfl (h c)
  | accept a => exact ⟨⟨rfl, rfl, Harmless.refl _⟩, trivial⟩
  | reject r => exact ⟨⟨rfl, rfl, Harmless.refl _⟩, trivial⟩
  | abort a => exact ⟨⟨rfl, rfl, Harmless.refl _⟩, trivial⟩

theorem sections_sendMaintenanceReject (dest : NodeId)
    (reason : SwapRejectReason) :
    Sections Tame (sendMaintenanceReject dest pid reason) :=
  fun _ => ⟨⟨rfl, rfl, Harmless.refl _⟩, sections_sendMessage _ nofun⟩

theorem sections_sendAbort (draw : Nat) (dest : NodeId)
    (reason : String) :
    Sections Tame (sendAbort P env draw dest pid reason) :=
  fun _ => ⟨⟨rfl, rfl, Harmless.refl _⟩, sections_sendMessage _ nofun⟩

theorem sections_tryReserve (size n : Nat) :
    Sections Tame (tryReserve size n) := by
  intro s
  refine ⟨?_, trivial⟩
  dsimp only
  split
  · exact ⟨rfl, rfl, Harmless.refl _⟩
  · exact ⟨rfl, rfl, Harmless.refl _⟩

theorem sections_abortAndRelease :
    Sections Tame (abortAndRelease pid) := by
  apply Sections.bind
  · intro s
    refine ⟨⟨rfl, rfl, ?_⟩, trivial⟩
    dsimp only [SwapState.abortSwap]
    split
    · exact Harmless.refl _
    · exact harmless_erase _ _
  intro swap
  cases swap with
  | none => trivial
  | some swap => exact fun _ => ⟨⟨rfl, rfl, Harmless.refl _⟩, trivial⟩

theorem sections_beginSwapProposal (peer : NodeId) (p : SwapProposal) :
    Sections Tame (beginSwapProposal P env peer p) :=
  fun _ => ⟨⟨rfl, rfl, harmless_insert _ rfl⟩, trivial⟩

theorem sections_prepareSwap (p : SwapProposal) (size n : Nat) :
    Sections Tame (prepareSwap P env p size n) := by
  apply Sections.bind
  · exact fun _ => ⟨⟨rfl, rfl, Harmless.refl _⟩, trivial⟩
  intro returnEntry
  cases returnEntry with
  | none => exact sections_sendMaintenanceReject _ _
  | some retId =>
      apply Sections.bind
      · exact fun _ => ⟨⟨rfl, rfl, Harmless.refl _⟩, trivial⟩
      intro pendingLen
      dsimp only
      split
      · exact sections_sendMaintenanceReject _ _
      · apply Sections.bind (sections_tryReserve _ _)
        intro reserved
        split
        · exact sections_sendMaintenanceReject _ _
        · intro s
          refine ⟨⟨rfl, rfl, harmless_insert _ rfl⟩, ?_⟩
          exact fun _ => ⟨⟨rfl, rfl, Harmless.refl _⟩,
            sections_sendMessage _ nofun⟩

theorem sections_proposal (p : SwapProposal) :
    Sections Tame (handleMaintenanceProposal P env p) := by
  -- note, read total, reconcile, read count, decide
  intro s₁
  refine ⟨⟨rfl, rfl, Harmless.refl _⟩, fun s₂ => ⟨⟨rfl, rfl, Harmless.refl _⟩,
    fun s₃ => ⟨⟨rfl, rfl, Harmless.refl _⟩, fun s₄ => ⟨⟨rfl, rfl, Harmless.refl _⟩,
      fun s₅ => ⟨⟨rfl, rfl, Harmless.refl _⟩, ?_⟩⟩⟩⟩⟩
  dsimp only [Proc.seq]
  split
  · exact sections_prepareSwap _ _ _
  · exact fun _ => ⟨⟨rfl, rfl, Harmless.refl _⟩,
      fun _ => ⟨⟨rfl, rfl, Harmless.refl _⟩,
        sections_sendMaintenanceReject _ _⟩⟩

theorem sections_adoptAccept (a : SwapAccept) :
    Sections Tame (adoptAccept P env a ENCRYPTED_CHUNK_SIZE) := by
  apply Sections.bind
  · exact fun _ => ⟨⟨rfl, rfl, Harmless.refl _⟩, trivial⟩
  intro peerOk
  split
  · trivial
  · apply Sections.bind (sections_tryReserve _ _)
    intro fits
    split
    · apply Sections.bind sections_abortAndRelease
      intro _
      exact sections_sendAbort _ _ _
    · exact fun _ => ⟨⟨rfl, rfl, rfl⟩, trivial⟩

theorem sections_signedMessage {sender : NodeId} {verified : Bool}
    {identity nonce : Bytes 32} {body : Handler Unit}
    (hbody : Sections Tame body) :
    Sections Tame
      (signedMessage env sender verified identity nonce body) := by
  apply Sections.bind
  · exact fun _ => ⟨⟨rfl, rfl, Harmless.refl _⟩, trivial⟩
  intro _
  split
  · trivial
  · apply Sections.bind
    · exact fun _ => ⟨⟨rfl, rfl, Harmless.refl _⟩, trivial⟩
    intro pinned
    split
    · trivial
    · apply Sections.bind
      · exact fun _ => ⟨⟨rfl, rfl, Harmless.refl _⟩, trivial⟩
      intro fresh
      split
      · trivial
      · exact hbody

theorem sections_abortPending (a : SwapAbort) :
    Sections Tame (abortPending a) := by
  apply Sections.bind
  · exact fun _ => ⟨⟨rfl, rfl, Harmless.refl _⟩, trivial⟩
  intro peerOk
  split
  · exact fun _ => ⟨⟨rfl, rfl, Harmless.refl _⟩, trivial⟩
  · exact sections_abortAndRelease

theorem sections_releaseExpired (l : List PendingSwap) (draw : Nat) :
    Sections Tame (releaseExpired P env draw l) := by
  induction l generalizing draw with
  | nil => trivial
  | cons swap rest ih =>
      apply Sections.bind
      · exact fun _ => ⟨⟨rfl, rfl, Harmless.refl _⟩, trivial⟩
      intro _
      exact (sections_sendAbort _ _ _).bind fun _ => ih _

theorem sections_expire : Sections Tame (expirePendingSwaps P env) := by
  apply Sections.bind
  · exact fun s => ⟨⟨rfl, rfl, harmless_expireIds _ _⟩, trivial⟩
  intro expired
  exact (sections_releaseExpired _ _).bind fun _ => trivial

theorem sections_accountStored (swap : PendingSwap) (storedNew : Bool) :
    Sections Tame (accountStored swap storedNew) := by
  intro s
  refine ⟨⟨rfl, rfl, Harmless.refl _⟩, ?_⟩
  cases storedNew with
  | false => trivial
  | true =>
      exact fun _ => ⟨⟨rfl, rfl, Harmless.refl _⟩,
        fun _ => ⟨⟨rfl, rfl, Harmless.refl _⟩, trivial⟩⟩

theorem sections_claimCommit : Sections Tame (claimCommit pid) := by
  intro s
  refine ⟨?_, trivial⟩
  dsimp only
  split
  · exact ⟨rfl, rfl, Harmless.refl _⟩
  · exact ⟨rfl, rfl, harmless_modify _ _ fun _ => ⟨rfl, rfl, rfl, rfl, rfl⟩⟩

-- ==== finalizing, obligation

/-- The obligation of a program in a pool of handlers. -/
abbrev Gated (P : Prims) (s₀ : TransportState) {α : Type} (tr : History)
    (p : Handler α) : Prop :=
  Ok (GateInv P s₀) (TermsKept P) (fun _ _ => True) tr p

theorem gated_of_sections {α : Type} {p : Handler α}
    (h : Sections Tame p) : Gated P s₀ tr p :=
  Ok.of_sections (fun _ _ _ _ hI hC hG => hI.tame hC hG) h tr

/-- Putting a fit swap keeps the invariant. -/
theorem GateInv.put (h : GateInv P s₀ tr s) (hflags : AllFlags swap)
    (hfit : Fit P tr swap)
    (hp : s'.swapState.pendingSwaps = s.swapState.pendingSwaps)
    (hh : s'.chunkHolder = s.chunkHolder
      ∨ s'.chunkHolder = s.chunkHolder.addChunk swap.theirChunkId
          swap.theirChunkData (Bytes.zero 32)) :
    GateInv P s₀ (tr ++ [(Act.put swap, s)]) s' := by
  refine ⟨?_, h.puts.append ?_, ?_⟩
  · intro pid swap' hg hr
    rw [hp] at hg
    exact (h.fit pid swap' hg hr).mono (List.prefix_append _ _)
  · intro swap' heq
    injection heq with heq
    rw [← heq]
    exact ⟨hflags, hfit⟩
  · rcases hh with hh | hh
    · exact h.held.append hh
    · intro c d hget
      rw [hh] at hget
      unfold ChunkHolder.getChunk ChunkHolder.addChunk at hget
      rw [FMap.get_insert] at hget
      split at hget
      next heq =>
        injection hget with hd
        exact .inr ⟨swap, s, by simp, heq.symm, hd⟩
      next =>
        exact h.held.append (l := .put swap) rfl c d hget

theorem gated_storeChunk (hflags : AllFlags swap)
    (hfit : Fit P tr swap) : Gated P s₀ tr (storeChunk swap) := by
  intro tr' s hpre hI _
  refine ⟨?_, trivial⟩
  have hfit' := hfit.mono hpre
  dsimp only
  split
  · exact hI.put hflags hfit' rfl (.inl rfl)
  · exact hI.put hflags hfit' rfl (.inr rfl)

/-- A ready swap has all three flags. -/
theorem AllFlags.of_ready (h : swap.ready = true) : AllFlags swap := by
  unfold PendingSwap.ready at h
  rw [Bool.and_eq_true, Bool.and_eq_true] at h
  exact ⟨h.1.1, h.1.2, h.2⟩

/-- A swap that is completed has all flags and is fit. -/
theorem ok_completeIfReady :
    Ok (GateInv P s₀) (TermsKept P)
      (fun tr' r => ∀ swap, r = some swap → AllFlags swap ∧ Fit P tr' swap)
      tr (completeIfReady pid) := by
  intro tr' s _ hI _
  dsimp only
  rcases completeReady_cases pid s with hc | ⟨swap, hg, hready, hc⟩
  · rw [hc]
    exact ⟨hI.harmless nofun rfl (Harmless.refl _), nofun⟩
  · rw [hc]
    have hflags := AllFlags.of_ready hready
    refine ⟨hI.harmless nofun rfl ?_, ?_⟩
    · rw [updSwaps_swapState, (completeSwap_of_get hg).2.1]
      exact harmless_erase _ _
    · intro swap' heq
      injection heq with heq
      rw [← heq]
      exact ⟨hflags, (hI.fit pid swap hg hflags.2.2).mono
        (List.prefix_append _ _)⟩

theorem gated_finalize : Gated P s₀ tr (finalizeSwapIfReady pid) := by
  apply Ok.bind
  apply ok_completeIfReady.mono
  intro tr' completed hcompleted
  cases completed with
  | none => trivial
  | some swap =>
      obtain ⟨hflags, hfit⟩ := hcompleted swap rfl
      apply Ok.bind
      apply (gated_storeChunk hflags hfit).mono
      intro tr'' storedNew _
      exact gated_of_sections (sections_accountStored swap storedNew)

theorem gated_signedMessage {sender : NodeId} {verified : Bool}
    {identity nonce : Bytes 32} {body : Handler Unit}
    (hbody : ∀ tr, Gated P s₀ tr body) :
    Gated P s₀ tr
      (signedMessage env sender verified identity nonce body) := by
  apply Ok.then
  · exact gated_of_sections
      fun _ => ⟨⟨rfl, rfl, Harmless.refl _⟩, trivial⟩
  intro tr₁ _
  split
  · trivial
  · apply Ok.then
    · exact gated_of_sections
        fun _ => ⟨⟨rfl, rfl, Harmless.refl _⟩, trivial⟩
    intro tr₂ pinned
    split
    · trivial
    · apply Ok.then
      · exact gated_of_sections
          fun _ => ⟨⟨rfl, rfl, Harmless.refl _⟩, trivial⟩
      intro tr₃ fresh
      split
      · trivial
      · exact hbody tr₃

theorem gated_commitPending (c : SwapCommit) :
    Gated P s₀ tr (commitPending c) := by
  apply Ok.then
  · exact gated_of_sections
      fun _ => ⟨⟨rfl, rfl, Harmless.refl _⟩, trivial⟩
  intro tr₁ peerOk
  split
  · trivial
  · apply Ok.then
    · exact gated_of_sections fun _ => ⟨⟨rfl, rfl, harmless_modify _ _
        fun _ => ⟨rfl, rfl, rfl, rfl, rfl⟩⟩, trivial⟩
    intro tr₂ _
    exact Ok.then gated_finalize fun _ _ => trivial

-- ==== retrieving, obligation

/-- Buffering a delivered chunk of full size under terms it passes. -/
theorem GateInv.buffer (h : GateInv P s₀ tr s) {chunkId : ChunkId}
    {data : List UInt8} (hdel : Delivered tr chunkId data)
    (hsize : data.length = ENCRYPTED_CHUNK_SIZE)
    (hC : TermsKept P (.buffer pid chunkId data) s) :
    GateInv P s₀ (tr ++ [(Act.buffer pid chunkId data, s)])
      { s with swapState := (s.swapState.receiveTheirChunk pid data).2 } := by
  refine ⟨?_, h.puts.append nofun, h.held.append rfl⟩
  intro pid' swap' hg hr
  have hmono : tr <+: tr ++ [(Act.buffer pid chunkId data, s)] :=
    List.prefix_append _ _
  dsimp only [SwapState.receiveTheirChunk, SwapState.modifyPending] at hg
  rw [FMap.get_modify] at hg
  split at hg
  next heq =>
    subst heq
    cases hgs : s.swapState.pendingSwaps.get pid' with
    | none => rw [hgs] at hg; cases hg
    | some swap =>
        rw [hgs] at hg
        injection hg with hg
        obtain ⟨hid, hgate⟩ := hC swap hgs
        rw [← hg]
        refine ⟨?_, hsize, ?_⟩
        · show Delivered _ swap.theirChunkId data
          rw [hid]
          exact hdel.mono hmono
        · intro hroot
          unfold passesGate at hgate
          rw [Bool.or_eq_true, beq_iff_eq] at hgate
          exact hgate.resolve_left hroot
  next => exact (h.fit pid' swap' hg hr).mono hmono

theorem gated_sendCommit (dest : NodeId) :
    Gated P s₀ tr (sendCommit P env dest pid) := by
  intro tr₁ s₁ _ hI₁ _
  refine ⟨hI₁.harmless nofun rfl (Harmless.refl _), ?_⟩
  intro tr₂ s₂ _ hI₂ _
  exact ⟨hI₂.harmless nofun rfl (Harmless.refl _), trivial⟩

theorem gated_commitRetrieved (peer : NodeId) :
    Gated P s₀ tr (commitRetrieved P env pid peer) := by
  apply Ok.then (gated_of_sections sections_claimCommit)
  intro tr₁ needCommit
  dsimp only
  split
  · apply Ok.then (gated_sendCommit _)
    intro tr₂ _
    exact Ok.then gated_finalize fun _ _ => trivial
  · exact Ok.then gated_finalize fun _ _ => trivial

theorem gated_bufferRetrieved {peer : NodeId} {chunkId : ChunkId}
    {data : List UInt8} (hdel : Delivered tr chunkId data)
    (hsize : data.length = ENCRYPTED_CHUNK_SIZE) :
    Gated P s₀ tr (bufferRetrieved P env pid peer chunkId data) := by
  apply Ok.then
  · intro tr' s hpre hI hC
    exact ⟨hI.buffer (hdel.mono hpre) hsize hC, trivial⟩
  intro tr' received
  split
  · trivial
  · exact gated_commitRetrieved _

theorem gated_retrieval (chunkId : ChunkId) (data : List UInt8) :
    Gated P s₀ tr (handleSwapChunkRetrieval P env chunkId data) := by
  unfold handleSwapChunkRetrieval
  split
  · trivial
  · next hlen =>
    have hsize : data.length = ENCRYPTED_CHUNK_SIZE := by
      simpa using hlen
    apply Ok.bind
    -- the scan leaves the delivery in the history
    intro tr' s _ hI _
    refine ⟨hI.harmless nofun rfl (Harmless.refl _), ?_⟩
    have hdel : Delivered (tr' ++ [(Act.deliver chunkId data, s)])
        chunkId data := ⟨s, by simp⟩
    dsimp only [Ok]
    split
    · trivial
    · split
      · exact gated_of_sections (sections_abortAndRelease.bind
          fun _ => (sections_sendAbort _ _ _).bind fun _ => trivial)
      · exact gated_bufferRetrieved hdel hsize

-- ========== the gate

theorem gated_handler {p : Handler Unit} (h : IsHandler P p) :
    Gated P s₀ [] p := by
  obtain ⟨e, rfl⟩ := h
  cases e with
  | propose env peer p =>
      exact gated_of_sections
        ((sections_beginSwapProposal peer p).bind fun _ => trivial)
  | proposal env p => exact gated_of_sections (sections_proposal p)
  | accept env a =>
      exact gated_of_sections
        (sections_signedMessage (sections_adoptAccept a))
  | commit env c =>
      exact gated_signedMessage fun _ => gated_commitPending c
  | abort env a =>
      exact gated_of_sections
        (sections_signedMessage (sections_abortPending a))
  | retrieval env chunkId data =>
      exact Ok.then (gated_retrieval chunkId data) fun _ _ => trivial
  | expire env =>
      exact gated_of_sections (sections_expire.bind fun _ => trivial)

/-- In every interleaving of the handlers' sections in which accepts
keep the terms of buffered chunks and chunks are buffered under terms
they pass, every put stores a swap with all three flags whose chunk was
delivered for its id, has full size, and passes the root and proof
recorded in the swap; and nothing else enters the holder. -/
theorem storage_gate (P : Prims) (s₀ s : TransportState)
    (hempty : s₀.swapState.pendingSwaps = ∅)
    (ps : List (Handler Unit)) (tr : History)
    (h : Reach (IsHandler P) (TermsKept P) s₀ s ps tr) :
    PutsGated P tr ∧ HolderTraced s₀ tr s := by
  have hinit : GateInv P s₀ [] s₀ := by
    refine ⟨?_, ?_, fun c d hget => .inl hget⟩
    · intro pid swap hg
      rw [hempty] at hg
      cases hg
    · intro tr₁ swap s₁ tr₂ heq
      exact absurd (congrArg List.length heq) (by simp)
  have hinv := (Reach.invariant h hinit fun p hp => gated_handler hp).1
  exact ⟨hinv.puts, hinv.held⟩

-- ==== a trade, step by step

/-- What no section of an undisturbed trade does: lower `current_bytes`,
rewrite the terms of a buffered chunk, buffer a chunk under terms it
fails, or store one beyond its reservation. -/
def Careful (P : Prims) (l : Act) (s s' : TransportState) : Prop :=
  s.storageCapacity.currentBytes ≤ s'.storageCapacity.currentBytes
    ∧ match l with
      | .terms a => ∀ swap,
          s.swapState.pendingSwaps.get a.proposalId = some swap →
          swap.receivedTheirChunk = false
      | .buffer pid chunkId data => ∀ swap,
          s.swapState.pendingSwaps.get pid = some swap →
            swap.theirChunkId = chunkId
              ∧ passesGate P swap.contentRoot swap.merkleProof data = true
      | .put swap => swap.theirChunkData.length ≤ swap.reservedBytes
      | _ => True

theorem Careful.termsKept {l : Act} (h : Careful P l s s') :
    TermsKept P l s := by
  cases l with
  | terms a =>
      intro swap hget hrec
      exact absurd (hrec.symm.trans (h.2 swap hget)) nofun
  | buffer pid chunkId data => exact h.2
  | _ => trivial

/-- The checks of an authentic message are careful; so is its handling
when its body is. -/
theorem careful_signedMessage {sender : NodeId} {verified : Bool}
    {identity nonce : Bytes 32} {body : Handler Unit}
    (h : (verified && authentic env sender identity nonce s) = true)
    (hbody : body.Alone (Careful P) (heard env sender nonce s)) :
    (signedMessage env sender verified identity nonce body).Alone
      (Careful P) s := by
  unfold authentic at h
  rw [Bool.and_eq_true, Bool.and_eq_true] at h
  obtain ⟨hv, hp, hn⟩ := h
  unfold signedMessage notePeerActivity
  simp only [alone_bind, post_write, hv, Bool.not_true, Bool.false_eq_true,
    if_false, out_checkMaintenanceSender_note, hp,
    post_checkMaintenanceSender, out_checkMaintenanceNonce_note, hn,
    post_checkMaintenanceNonce_note]
  unfold checkMaintenanceSender checkMaintenanceNonce
  simp only [alone_write, alone_read, alone_atom]
  exact ⟨⟨le_rfl, trivial⟩, ⟨le_rfl, trivial⟩, ⟨le_rfl, trivial⟩, hbody⟩

/-- An accept that finds room and no buffered chunk. -/
theorem careful_adoptAccept {a : SwapAccept} {size : Nat}
    (hget : s.swapState.pendingSwaps.get a.proposalId = some swap)
    (hpeer : swap.peer = a.fromNode)
    (hroom : s.storageCapacity.canAccept size 0 = true)
    (hwaits : swap.receivedTheirChunk = false) :
    (adoptAccept P env a size).Alone (Careful P) s := by
  have hwith := pendingWith_of_get hget hpeer
  unfold adoptAccept tryReserve
  simp only [alone_bind, alone_read, out_read, post_read, hwith,
    Bool.not_true, Bool.false_eq_true, if_false, alone_atom, out_atom,
    post_atom, hroom, if_true, alone_write]
  refine ⟨⟨le_rfl, trivial⟩, ⟨le_rfl, trivial⟩, le_rfl, ?_⟩
  intro swap' hget'
  obtain rfl := Option.some.inj (hget.symm.trans hget')
  exact hwaits

/-- A swap without the three flags is left alone. -/
theorem careful_finalize_waiting
    (h : (s.swapState.getPendingSwap pid).any PendingSwap.ready = false) :
    (finalizeSwapIfReady pid).Alone (Careful P) s := by
  have hc : completeReady pid s = (none, s) := by
    unfold completeReady
    rw [h]
    rfl
  unfold finalizeSwapIfReady completeIfReady
  rw [alone_bind, out_atom, post_atom, alone_atom, hc]
  exact ⟨⟨le_rfl, trivial⟩, trivial⟩

/-- A swap with them is completed, and its chunk stored under its
reservation. -/
theorem careful_finalize_ready
    (hget : s.swapState.pendingSwaps.get pid = some swap)
    (hready : swap.ready = true)
    (hcovered : swap.theirChunkData.length ≤ swap.reservedBytes) :
    (finalizeSwapIfReady pid).Alone (Careful P) s := by
  unfold finalizeSwapIfReady completeIfReady
  rw [alone_bind, out_atom, post_atom, alone_atom,
    completeReady_ready hget hready]
  refine ⟨⟨le_rfl, trivial⟩, ?_⟩
  dsimp only
  rw [alone_bind]
  unfold storeChunk accountStored
  rw [alone_atom, out_atom, post_atom]
  split
  · refine ⟨⟨le_rfl, hcovered⟩, ?_⟩
    rw [alone_bind]
    exact ⟨alone_write.2 ⟨le_rfl, trivial⟩, trivial⟩
  · refine ⟨⟨le_rfl, hcovered⟩, ?_⟩
    rw [alone_bind]
    refine ⟨alone_write.2 ⟨Nat.le_add_right _ _, trivial⟩, ?_⟩
    exact ⟨⟨le_rfl, trivial⟩, ⟨le_rfl, trivial⟩, trivial⟩

/-- Our commit to a buffered chunk, before the peer's. -/
theorem careful_commitRetrieved {peer : NodeId}
    (hget : s.swapState.pendingSwaps.get pid = some swap)
    (hsent : swap.sentCommit = false)
    (hcommit : swap.receivedCommit = false) :
    (commitRetrieved P env pid peer).Alone (Careful P) s := by
  obtain ⟨hclaim, hclaimed⟩ := run_claimCommit hget hsent
  have hwait : ((s.updSwaps fun st =>
      st.markCommitSent pid).swapState.getPendingSwap pid).any
        PendingSwap.ready = false := by
    show ((s.swapState.pendingSwaps.modify pid _).get pid).any _ = false
    rw [FMap.get_modify_self, hget]
    simp [PendingSwap.ready, hcommit]
  have hmark : (claimCommit pid).Alone (Careful P) s := by
    unfold claimCommit
    rw [alone_atom]
    dsimp only
    split <;> exact ⟨le_rfl, trivial⟩
  unfold commitRetrieved sendCommit sendMessage
  simp only [alone_bind, hclaim, hclaimed, if_true, post_bind, post_read,
    post_write, alone_read, alone_write]
  exact ⟨hmark, ⟨⟨le_rfl, trivial⟩, le_rfl, trivial⟩,
    careful_finalize_waiting hwait, trivial⟩

/-- A chunk a swap waits for, which passes and comes before the peer's
commit. -/
theorem careful_retrieval {chunkId : ChunkId} {data : List UInt8}
    (hsize : data.length = ENCRYPTED_CHUNK_SIZE)
    (hfind : findAwaiting env chunkId s = some swap)
    (hid : swap.theirChunkId = chunkId)
    (hgate : passesGate P swap.contentRoot swap.merkleProof data = true)
    (hget : s.swapState.pendingSwaps.get swap.proposalId = some swap)
    (hsent : swap.sentCommit = false)
    (hcommit : swap.receivedCommit = false) :
    (handleSwapChunkRetrieval P env chunkId data).Alone (Careful P) s := by
  have hlen : ¬ data.length ≠ ENCRYPTED_CHUNK_SIZE := not_not.2 hsize
  have hget' := get_received data hget
  have hrec := receives data hget
  have hbuffer : Careful P (.buffer swap.proposalId chunkId data) s
      { s with swapState := (s.swapState.receiveTheirChunk
        swap.proposalId data).2 } := by
    refine ⟨le_rfl, ?_⟩
    intro swap' hget''
    obtain rfl := Option.some.inj (hget.symm.trans hget'')
    exact ⟨hid, hgate⟩
  unfold handleSwapChunkRetrieval
  rw [if_neg hlen, alone_bind, out_read, post_read, hfind]
  simp only [hgate, Bool.not_true, Bool.false_eq_true, if_false,
    bufferRetrieved, alone_bind, out_atom, post_atom, hrec]
  refine ⟨alone_read.2 ⟨le_rfl, trivial⟩, alone_atom.2 hbuffer, ?_⟩
  exact careful_commitRetrieved hget' hsent hcommit

/-- The peer's commit to a swap that has its chunk and has sent its own:
the chunk fits what the swap has reserved. -/
theorem careful_commitPending {c : SwapCommit}
    (hget : s.swapState.pendingSwaps.get c.proposalId = some swap)
    (hpeer : swap.peer = c.fromNode) (hsent : swap.sentCommit = true)
    (hrec : swap.receivedTheirChunk = true)
    (hcovered : swap.theirChunkData.length ≤ swap.reservedBytes) :
    (commitPending c).Alone (Careful P) s := by
  have hwith := pendingWith_of_get hget hpeer
  unfold commitPending
  simp only [alone_bind, alone_read, out_read, post_read, hwith,
    Bool.not_true, Bool.false_eq_true, if_false, alone_write, post_write]
  exact ⟨⟨le_rfl, trivial⟩, ⟨le_rfl, trivial⟩,
    careful_finalize_ready (get_heardCommit hget)
      (ready_of_flags hsent hrec) hcovered, trivial⟩

/-- Handlers run one after another where `C` allows each of their
sections are one of the interleavings, with the steps they take. -/
theorem reach_run_alone (P : Prims) {C : Act → TransportState → Prop}
    {G : Act → TransportState → TransportState → Prop}
    (s : TransportState) (es : List SwapEvent)
    (halong : Exact.Along (SwapEvent.step P) (fun s e =>
      (e.program P).Alone (fun l s s' => C l s ∧ G l s s') s) s es) :
    ∃ ps tr, Reach (fun p => ∃ e ∈ es, p = e.program P) C s
        (SwapEvent.run P s es) ps tr
      ∧ ∀ t ∈ transitions (SwapEvent.run P s es) tr, G t.1 t.2.1 t.2.2 := by
  induction es using List.reverseRecOn with
  | nil => exact ⟨[], [], .init, fun _ ht => absurd ht List.not_mem_nil⟩
  | append_singleton rest e ih =>
      obtain ⟨hrest, hlast, -⟩ := (Exact.along_append [e]).1 halong
      obtain ⟨ps, tr, hreach, hG⟩ := ih hrest
      have hmore : Reach (fun p => ∃ e' ∈ rest ++ [e], p = e'.program P)
          C s (SwapEvent.run P s rest) ps tr := by
        refine hreach.mono ?_ fun _ _ h => h
        rintro p ⟨e', he', rfl⟩
        exact ⟨e', List.mem_append_left _ he', rfl⟩
      obtain ⟨tr', hreach', hG'⟩ := hmore.sequential_alone
        ⟨e, List.mem_append_right _ List.mem_cons_self, rfl⟩ hlast hG
      have hrun : SwapEvent.run P s (rest ++ [e])
          = (e.program P).post (SwapEvent.run P s rest) :=
        List.foldl_append
      rw [hrun]
      exact ⟨pure () :: ps, tr', hreach', hG'⟩

-- ==== the slip, concretely

/-- The proposer of the run below, with room for four chunks. -/
def proposerNode : TransportState :=
  freshNode (Bytes.fill 16 1) (Bytes.fill 32 1) ChunkHolder.new
    (4 * ENCRYPTED_CHUNK_SIZE)

/-- The proposal it sends. -/
def proposerOffer : SwapProposal :=
  createSwapProposal Prims.plain (Bytes.fill 16 1) (Bytes.fill 32 3)
    (Bytes.fill 32 5) 86400 100 zeroRoot emptyProof (Bytes.fill 32 4)
    (some (Bytes.fill 32 4)) (Bytes.fill 32 6)

def offerId : ProposalId := proposalId Prims.plain proposerOffer

/-- The peer's accept naming return chunk `c`, with nonce `n`. -/
def returnOffer (c n : UInt8) : SwapAccept :=
  (createSwapAccept Prims.plain (Bytes.fill 16 2) (Bytes.fill 32 c)
    (Bytes.fill 32 5) offerId 86400 100 (Bytes.fill 32 n)).sign Prims.plain
      (Bytes.fill 32 2) (Bytes.fill 32 n)

/-- The peer's commit. -/
def peerCommit : SwapCommit :=
  (createSwapCommit offerId (Bytes.fill 16 2) (Bytes.fill 32 23)).sign
    Prims.plain (Bytes.fill 32 2) (Bytes.fill 32 23)

/-- The proposer's entry after the accept of chunk 10. -/
def firstTerms : PendingSwap :=
  adoptTerms (returnOffer 10 21) ENCRYPTED_CHUNK_SIZE
    (proposerEntry Prims.plain (Bytes.fill 16 2) proposerOffer 200)

/-- The entry that is finalized: the data came for chunk 10, the terms
name chunk 11. -/
def mixedSwap (data : List UInt8) : PendingSwap :=
  { adoptTerms (returnOffer 11 22) ENCRYPTED_CHUNK_SIZE
      { firstTerms with
        theirChunkData := data
        receivedTheirChunk := true
        sentCommit := true } with
    receivedCommit := true }

/-- Proposer state after the first accept. -/
def afterAccept : TransportState :=
  adopted (returnOffer 10 21) ENCRYPTED_CHUNK_SIZE
    (heard (quietEnv 31 200) (Bytes.fill 16 2) (Bytes.fill 32 21)
      (proposerNode.updSwaps fun st => st.startPendingSwap
        (proposerEntry Prims.plain (Bytes.fill 16 2) proposerOffer 200)))

/-- The proposer's first section, alone in the pool. -/
theorem reach_proposing :
    Reach (IsHandler Prims.plain) (TermsKept Prims.plain) proposerNode
      (proposerNode.updSwaps fun st => st.startPendingSwap
        (proposerEntry Prims.plain (Bytes.fill 16 2) proposerOffer 200))
      [pure ()] [(Act.swaps, proposerNode)] := by
  have hspawn : Reach (IsHandler Prims.plain) (TermsKept Prims.plain)
      proposerNode proposerNode
      [SwapEvent.program Prims.plain
        (.propose (quietEnv 30 200) (Bytes.fill 16 2) proposerOffer)] [] :=
    Reach.spawn _ ⟨_, rfl⟩ Reach.init
  exact Reach.exec [] [] Act.swaps _ _ hspawn trivial

/-- The state after the chunk is buffered. -/
def afterChunk (data : List UInt8) : TransportState :=
  buffered offerId data afterAccept

/-- The state after the second accept, which names another chunk. -/
def afterSecond (data : List UInt8) : TransportState :=
  adopted (returnOffer 11 22) ENCRYPTED_CHUNK_SIZE
    (heard (quietEnv 33 200) (Bytes.fill 16 2) (Bytes.fill 32 22)
      (afterChunk data))

theorem afterAccept_get :
    afterAccept.swapState.pendingSwaps.get offerId = some firstTerms := by
  decide

theorem afterChunk_get (data : List UInt8) :
    (afterChunk data).swapState.pendingSwaps.get offerId
      = some { firstTerms with
          theirChunkData := data
          receivedTheirChunk := true
          sentCommit := true } := by
  show ((afterAccept.swapState.pendingSwaps.modify offerId _).modify
    offerId _).get offerId = _
  rw [FMap.get_modify_self, FMap.get_modify_self, afterAccept_get]
  rfl

theorem afterSecond_get (data : List UInt8) :
    (afterSecond data).swapState.pendingSwaps.get offerId
      = some { mixedSwap data with receivedCommit := false } := by
  show ((afterChunk data).swapState.pendingSwaps.modify offerId _).get
    offerId = _
  rw [FMap.get_modify_self, afterChunk_get]
  rfl

/-- The proposer reaches a state through sections with these labels. -/
def ReachesBy (s : TransportState) (labels : List Act) : Prop :=
  ∃ ps tr, Reach (IsHandler Prims.plain) (fun _ _ => True) proposerNode s
    ps tr ∧ tr.map Prod.fst = labels

theorem ReachesBy.step {labels labels' : List Act}
    (h : ReachesBy s labels) (e : SwapEvent)
    (hpost : (e.program Prims.plain).post s = s')
    (hacts : (e.program Prims.plain).acts s = labels') :
    ReachesBy s' (labels ++ labels') := by
  obtain ⟨ps, tr, hreach, hlabels⟩ := h
  obtain ⟨tr', hreach', hlabels'⟩ :=
    hreach.sequential (fun _ _ => trivial) ⟨e, rfl⟩
  refine ⟨pure () :: ps, tr ++ tr', ?_, ?_⟩
  · rw [← hpost]
    exact hreach'
  · rw [List.map_append, hlabels, hlabels', hacts]

/-- The first accept, handled by the proposer. -/
theorem post_firstAccept :
    (SwapEvent.program Prims.plain
        (.accept (quietEnv 31 200) (returnOffer 10 21))).post
      (proposerNode.updSwaps fun st => st.startPendingSwap
        (proposerEntry Prims.plain (Bytes.fill 16 2) proposerOffer 200))
      = afterAccept := by
  show (signedMessage _ _ _ _ _ _).post _ = _
  rw [post_signedMessage (by decide)]
  rw [(run_adoptAccept _ _ (by decide) (by decide)).1]
  rfl

theorem reaches_afterAccept :
    ReachesBy afterAccept [.swaps, .activity, .routing, .nonces, .swaps,
      .capacity, .terms (returnOffer 10 21)] := by
  have h₀ : ReachesBy proposerNode [] := ⟨[], [], .init, rfl⟩
  have h₁ := h₀.step
    (.propose (quietEnv 30 200) (Bytes.fill 16 2) proposerOffer) rfl rfl
  refine h₁.step (.accept (quietEnv 31 200) (returnOffer 10 21))
    post_firstAccept ?_
  show (signedMessage _ _ _ _ _ _).acts _ = _
  rw [acts_signedMessage (by decide)]
  rw [(run_adoptAccept _ _ (by decide) (by decide)).2]
  rfl

theorem afterChunk_waiting (data : List UInt8) :
    ((afterChunk data).swapState.getPendingSwap offerId).any
      PendingSwap.ready = false := by
  unfold SwapState.getPendingSwap
  rw [afterChunk_get]
  rfl

theorem afterAccept_awaits :
    findAwaiting (quietEnv 32 200) (Bytes.fill 32 10) afterAccept
      = some firstTerms := by decide

/-- The first chunk, delivered to the proposer. -/
theorem post_firstChunk {data : List UInt8}
    (hsize : data.length = ENCRYPTED_CHUNK_SIZE) :
    (SwapEvent.program Prims.plain
        (.retrieval (quietEnv 32 200) (Bytes.fill 32 10) data)).post
      afterAccept = afterChunk data :=
  post_retrieval_waiting hsize afterAccept_awaits rfl afterAccept_get rfl
    rfl

/-- The proposer's whole trade: it offers chunk 3, is promised chunk 10,
receives it, and the peer commits. -/
def firstTrade (data : List UInt8) : List SwapEvent :=
  [.propose (quietEnv 30 200) (Bytes.fill 16 2) proposerOffer,
    .accept (quietEnv 31 200) (returnOffer 10 21),
    .retrieval (quietEnv 32 200) (Bytes.fill 32 10) data,
    .commit (quietEnv 34 200) peerCommit]

/-- The entry the trade completes. -/
def tradedSwap (data : List UInt8) : PendingSwap :=
  { firstTerms with
    theirChunkData := data
    receivedTheirChunk := true
    sentCommit := true
    receivedCommit := true }

theorem peerCommit_binds (data : List UInt8) :
    (peerCommit.verifySignature Prims.plain
      && authentic (quietEnv 34 200) (Bytes.fill 16 2) (Bytes.fill 32 2)
        (Bytes.fill 32 23) (afterChunk data)) = true := by
  rw [authentic_congr (afterChunk data) (afterChunk []) rfl rfl]
  decide

/-- The proposer's state when the commit has marked the swap. -/
def committedTo (data : List UInt8) : TransportState :=
  (heard (quietEnv 34 200) (Bytes.fill 16 2) (Bytes.fill 32 23)
    (afterChunk data)).updSwaps fun st => st.markCommitReceived offerId

theorem committedTo_get (data : List UInt8) :
    (committedTo data).swapState.pendingSwaps.get offerId
      = some (tradedSwap data) := by
  show ((afterChunk data).swapState.pendingSwaps.modify offerId _).get
    offerId = _
  rw [FMap.get_modify_self, afterChunk_get]
  rfl

/-- The trade's last state: the swap is finalized. -/
theorem run_firstTrade {data : List UInt8}
    (hsize : data.length = ENCRYPTED_CHUNK_SIZE) :
    SwapEvent.run Prims.plain proposerNode (firstTrade data)
      = finalized offerId (tradedSwap data) (committedTo data) := by
  have hpost : (SwapEvent.program Prims.plain
      (.commit (quietEnv 34 200) peerCommit)).post (afterChunk data)
      = finalized offerId (tradedSwap data) (committedTo data) :=
    post_commit_ready (peerCommit_binds data) (afterChunk_get data) rfl rfl
      rfl rfl
  unfold SwapEvent.run firstTrade
  rw [List.foldl_cons, List.foldl_cons, List.foldl_cons, List.foldl_cons,
    List.foldl_nil]
  unfold SwapEvent.step
  rw [show (SwapEvent.program Prims.plain (.propose (quietEnv 30 200)
      (Bytes.fill 16 2) proposerOffer)).post proposerNode
    = proposerNode.updSwaps fun st => st.startPendingSwap
      (proposerEntry Prims.plain (Bytes.fill 16 2) proposerOffer 200)
    from rfl, post_firstAccept, post_firstChunk hsize, hpost]

theorem firstAccept_careful :
    (SwapEvent.program Prims.plain
        (.accept (quietEnv 31 200) (returnOffer 10 21))).Alone
      (Careful Prims.plain)
      (proposerNode.updSwaps fun st => st.startPendingSwap
        (proposerEntry Prims.plain (Bytes.fill 16 2) proposerOffer 200)) := by
  have hget : (heard (quietEnv 31 200) (Bytes.fill 16 2) (Bytes.fill 32 21)
      (proposerNode.updSwaps fun st => st.startPendingSwap
        (proposerEntry Prims.plain (Bytes.fill 16 2) proposerOffer
          200))).swapState.pendingSwaps.get (returnOffer 10 21).proposalId
      = some (proposerEntry Prims.plain (Bytes.fill 16 2) proposerOffer
          200) := FMap.get_insert_self _ _ _
  have hroom : (heard (quietEnv 31 200) (Bytes.fill 16 2) (Bytes.fill 32 21)
      (proposerNode.updSwaps fun st => st.startPendingSwap
        (proposerEntry Prims.plain (Bytes.fill 16 2) proposerOffer
          200))).storageCapacity.canAccept ENCRYPTED_CHUNK_SIZE 0 = true := by
    decide
  show (signedMessage _ _ _ _ _ _).Alone _ _
  refine careful_signedMessage (by decide) ?_
  exact careful_adoptAccept hget rfl hroom rfl

/-- The trade is careful: nothing disturbs it between its sections. -/
theorem firstTrade_careful {data : List UInt8}
    (hsize : data.length = ENCRYPTED_CHUNK_SIZE) :
    Exact.Along (SwapEvent.step Prims.plain) (fun s e =>
      (e.program Prims.plain).Alone (Careful Prims.plain) s) proposerNode
      (firstTrade data) := by
  unfold firstTrade
  refine ⟨⟨⟨le_rfl, trivial⟩, trivial⟩, ?_, ?_⟩
  · exact firstAccept_careful
  rw [show SwapEvent.step Prims.plain (SwapEvent.step Prims.plain
      proposerNode (.propose (quietEnv 30 200) (Bytes.fill 16 2)
        proposerOffer)) (.accept (quietEnv 31 200) (returnOffer 10 21))
    = afterAccept from post_firstAccept]
  refine ⟨?_, ?_⟩
  · exact alone_bind.2 ⟨careful_retrieval hsize afterAccept_awaits rfl rfl
      afterAccept_get rfl rfl, trivial⟩
  rw [show SwapEvent.step Prims.plain afterAccept
      (.retrieval (quietEnv 32 200) (Bytes.fill 32 10) data)
    = afterChunk data from post_firstChunk hsize]
  exact ⟨careful_signedMessage (peerCommit_binds data)
    (careful_commitPending (afterChunk_get data) rfl rfl rfl hsize.le),
    trivial⟩

/-- It is one of the runs in which every section keeps the terms. -/
theorem reach_firstTrade {data : List UInt8}
    (hsize : data.length = ENCRYPTED_CHUNK_SIZE) :
    ∃ ps tr, Reach (fun p => ∃ e ∈ firstTrade data,
          p = e.program Prims.plain) (TermsKept Prims.plain) proposerNode
        (finalized offerId (tradedSwap data) (committedTo data)) ps tr
      ∧ ∀ t ∈ transitions
          (finalized offerId (tradedSwap data) (committedTo data)) tr,
        Careful Prims.plain t.1 t.2.1 t.2.2 := by
  rw [← run_firstTrade hsize]
  refine reach_run_alone Prims.plain proposerNode (firstTrade data) ?_
  exact (firstTrade_careful hsize).imp fun s e h =>
    h.imp fun _ _ _ hcareful => ⟨hcareful.termsKept, hcareful⟩

theorem firstTrade_handlers {data : List UInt8} {p : Handler Unit}
    (h : ∃ e ∈ firstTrade data, p = e.program Prims.plain) :
    IsHandler Prims.plain p := by
  obtain ⟨e, -, rfl⟩ := h
  exact ⟨e, rfl⟩

/-- The proposer holds what it received, which was put: in this run the
put is gated. -/
theorem storage_gate_trading : ∃ data s ps tr,
    Reach (IsHandler Prims.plain) (TermsKept Prims.plain) proposerNode s
        ps tr
      ∧ s.chunkHolder.getChunk (Bytes.fill 32 10) = some data
      ∧ PutsGated Prims.plain tr ∧ HolderTraced proposerNode tr s := by
  have hsize : (List.replicate ENCRYPTED_CHUNK_SIZE (0 : UInt8)).length
      = ENCRYPTED_CHUNK_SIZE := List.length_replicate
  refine ⟨List.replicate ENCRYPTED_CHUNK_SIZE 0, ?_⟩
  generalize List.replicate ENCRYPTED_CHUNK_SIZE (0 : UInt8) = data
    at hsize
  obtain ⟨ps, tr, hreach, -⟩ := reach_firstTrade hsize
  have hpool := hreach.mono (fun _ => firstTrade_handlers) fun _ _ h => h
  exact ⟨_, ps, tr, hpool, FMap.get_insert_self _ _ _,
    storage_gate Prims.plain proposerNode _ rfl ps tr hpool⟩

theorem reaches_afterChunk {data : List UInt8}
    (hsize : data.length = ENCRYPTED_CHUNK_SIZE) :
    ReachesBy (afterChunk data) ([Act.swaps, .activity, .routing, .nonces,
      .swaps, .capacity, .terms (returnOffer 10 21)]
      ++ ([Act.deliver (Bytes.fill 32 10) data,
          .buffer offerId (Bytes.fill 32 10) data, .swaps, .key,
          .send (Bytes.fill 16 2) (.commit (ownCommit Prims.plain
            (quietEnv 32 200) offerId afterAccept))] ++ [Act.swaps])) := by
  obtain ⟨-, hacts⟩ := run_retrieval Prims.plain hsize afterAccept_awaits
    rfl afterAccept_get rfl
  refine reaches_afterAccept.step
    (.retrieval (quietEnv 32 200) (Bytes.fill 32 10) data)
    (post_firstChunk hsize) ?_
  unfold SwapEvent.program
  rw [acts_bind, acts_pure, List.append_nil, hacts]
  exact congrArg (_ ++ ·)
    (run_finalize_waiting (afterChunk_waiting data)).2

theorem reaches_afterSecond {labels : List Act} {data : List UInt8}
    (h : ReachesBy (afterChunk data) labels) :
    ReachesBy (afterSecond data) (labels ++ ([Act.activity, .routing, .nonces]
      ++ [Act.swaps, .capacity, .terms (returnOffer 11 22)])) := by
  have hauth : ((returnOffer 11 22).verifySignature Prims.plain
      && authentic (quietEnv 33 200) (Bytes.fill 16 2) (Bytes.fill 32 2)
        (Bytes.fill 32 22) (afterChunk data)) = true := by
    rw [authentic_congr (afterChunk data) afterAccept rfl rfl]
    decide
  have hpeer : pendingWith offerId (Bytes.fill 16 2)
      (heard (quietEnv 33 200) (Bytes.fill 16 2) (Bytes.fill 32 22)
        (afterChunk data)) = true :=
    pendingWith_of_get (afterChunk_get data) rfl
  have hroom : afterAccept.storageCapacity.canAccept ENCRYPTED_CHUNK_SIZE 0
      = true := by decide
  obtain ⟨hpost, hacts⟩ := run_adoptAccept Prims.plain (quietEnv 33 200)
    (a := returnOffer 11 22) hpeer hroom
  refine h.step (.accept (quietEnv 33 200) (returnOffer 11 22)) ?_ ?_
  · exact (post_signedMessage hauth).trans hpost
  · exact (acts_signedMessage hauth).trans (congrArg (_ ++ ·) hacts)

/-- The peer's commit finalizes the swap with the mixed terms. -/
theorem reaches_put {labels : List Act} {data : List UInt8}
    (h : ReachesBy (afterSecond data) labels) :
    ∃ s, ReachesBy s (labels ++ ([Act.activity, .routing, .nonces]
      ++ ([Act.swaps, .swaps] ++ [Act.swaps, .put (mixedSwap data),
        .capacity, .counts, .leases]))) := by
  have hauth : (peerCommit.verifySignature Prims.plain
      && authentic (quietEnv 34 200) (Bytes.fill 16 2) (Bytes.fill 32 2)
        (Bytes.fill 32 23) (afterSecond data)) = true := by
    rw [authentic_congr (afterSecond data) (afterSecond []) rfl rfl]
    decide
  have hpeer : pendingWith offerId (Bytes.fill 16 2)
      (heard (quietEnv 34 200) (Bytes.fill 16 2) (Bytes.fill 32 23)
        (afterSecond data)) = true :=
    pendingWith_of_get (afterSecond_get data) rfl
  obtain ⟨-, hacts⟩ := run_commitPending peerCommit hpeer
  have hget : ((heard (quietEnv 34 200) (Bytes.fill 16 2)
      (Bytes.fill 32 23) (afterSecond data)).updSwaps fun st =>
        st.markCommitReceived offerId).swapState.pendingSwaps.get offerId
      = some (mixedSwap data) := by
    show ((afterSecond data).swapState.pendingSwaps.modify offerId _).get
      offerId = _
    rw [FMap.get_modify_self, afterSecond_get]
    rfl
  obtain ⟨-, hfacts⟩ := run_finalize_ready hget rfl (by
    show ChunkHolder.new.hasChunk _ = false
    rfl)
  refine ⟨_, h.step (.commit (quietEnv 34 200) peerCommit) rfl ?_⟩
  exact (acts_signedMessage hauth).trans
    (congrArg ([Act.activity, .routing, .nonces] ++ ·)
      (hacts.trans (congrArg ([Act.swaps, .swaps] ++ ·) hfacts)))

/-- A second accept with a fresh nonce renames the return chunk after
the data of the first one is buffered; the peer's commit then puts that
data under the new name, for which nothing was delivered. -/
theorem storage_gate_slips :
    proposerNode.swapState.pendingSwaps = ∅
      ∧ ∃ s ps tr, Reach (IsHandler Prims.plain) (fun _ _ => True)
          proposerNode s ps tr ∧ ¬ PutsGated Prims.plain tr := by
  refine ⟨rfl, ?_⟩
  have hsize : (List.replicate ENCRYPTED_CHUNK_SIZE (0 : UInt8)).length
      = ENCRYPTED_CHUNK_SIZE := List.length_replicate
  generalize List.replicate ENCRYPTED_CHUNK_SIZE (0 : UInt8) = data
    at hsize
  obtain ⟨s, ps, tr, hreach, hlabels⟩ :=
    reaches_put (reaches_afterSecond (reaches_afterChunk hsize))
  refine ⟨s, ps, tr, hreach, ?_⟩
  intro hgated
  have hput : Act.put (mixedSwap data) ∈ tr.map Prod.fst := by
    rw [hlabels]
    simp
  obtain ⟨⟨l, s₁⟩, hmem, hl⟩ := List.mem_map.1 hput
  obtain ⟨tr₁, tr₂, heq⟩ := List.append_of_mem hmem
  dsimp only at hl
  rw [hl] at heq
  obtain ⟨s₂, hdel⟩ := (hgated tr₁ _ s₁ tr₂ heq).2.delivered
  have hlabel : Act.deliver (mixedSwap data).theirChunkId data
      ∈ tr.map Prod.fst := by
    rw [heq]
    exact List.mem_map.2 ⟨_, List.mem_append_left _ hdel, rfl⟩
  rw [hlabels] at hlabel
  have hid : (mixedSwap data).theirChunkId = Bytes.fill 32 11 := rfl
  have hne : Bytes.fill 32 11 ≠ Bytes.fill 32 10 := by decide
  simp [hid, hne] at hlabel

end StaticNet
