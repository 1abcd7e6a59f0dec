/-
What an entry of `active_swaps` says.

The readers of the map (whom to challenge, whom to send heartbeats, how
many remote copies a chunk has) take an entry `c ↦ p` for "p stores our
chunk c". `complete_swap` writes the entry under the chunk the swap
brought in: `p` is who gave us `c`, and our own chunk of that swap, which
`p` now stores, is not recorded at all.

Only completion writes the map (`Effect.activeSwaps`), so along a run of
any interleaving the readers' meaning holds at every point exactly when
each completed swap brought in a chunk that this peer stores for us
anyway, because it was our chunk in this or an earlier completed swap
with it. The return chunk a node picks is never the offered one, so
between two nodes that pick as the code does that never happens.
-/
import StaticNet.Swap.Proofs.Effects

namespace StaticNet

open Proc TransportState

/-- A section with the states it found and left. -/
abbrev Transition := Act × TransportState × TransportState

/-- The transition completes this swap. -/
def CompletedBy (swap : PendingSwap) (t : Transition) : Prop :=
  ∃ pid, t.2.1.swapState.pendingSwaps.get pid = some swap
    ∧ swap.ready = true
    ∧ t.2.2.swapState = (t.2.1.swapState.completeSwap pid).2

/-- In one of these transitions a swap with `p` was completed in which
`c` was our chunk. -/
def StoresOurs (ts : List Transition) (c : ChunkId) (p : NodeId) : Prop :=
  ∃ t ∈ ts, ∃ swap, CompletedBy swap t ∧ swap.ourChunkId = c
    ∧ swap.peer = p

/-- Every entry after `t` means what its readers assume. -/
def RegistryMeans (ts : List Transition) (t : Transition) : Prop :=
  ∀ c p, t.2.2.swapState.activeSwaps.get c = some p → StoresOurs ts c p

/-- A swap completed by `t` brought in a chunk its peer stores for us. -/
def ReturnsOurs (ts : List Transition) (t : Transition) : Prop :=
  ∀ swap, CompletedBy swap t → StoresOurs ts swap.theirChunkId swap.peer

variable {P : Prims} {s₀ s s' : TransportState} {l : Act}
  {N : PendingSwap → Prop} {swap : PendingSwap} {pid : ProposalId}

theorem StoresOurs.append {ts : List Transition} {t : Transition}
    {c : ChunkId} {p : NodeId} (h : StoresOurs ts c p) :
    StoresOurs (ts ++ [t]) c p := by
  obtain ⟨t', ht', hswap⟩ := h
  exact ⟨t', List.mem_append_left _ ht', hswap⟩

theorem completeSwap_activeSwaps {st : SwapState}
    (h : st.pendingSwaps.get pid = some swap) :
    (st.completeSwap pid).2.activeSwaps
      = st.activeSwaps.insert swap.theirChunkId swap.peer := by
  unfold SwapState.completeSwap
  rw [h]

theorem abortSwap_activeSwaps (st : SwapState) (pid : ProposalId) :
    (st.abortSwap pid).2.activeSwaps = st.activeSwaps := by
  unfold SwapState.abortSwap
  split <;> rfl

theorem expireIds_activeSwaps (ids : List ProposalId) (st : SwapState) :
    (SwapState.expireIds ids st).2.activeSwaps = st.activeSwaps := by
  induction ids generalizing st with
  | nil => rfl
  | cons pid rest ih =>
      exact ih { st with
        abortedSwaps := pushCapped st.abortedSwaps pid
        pendingSwaps := st.pendingSwaps.erase pid }

/-- Only completion writes the map, and it records where the received
chunk came from. -/
theorem Effect.activeSwaps (h : Effect N l s s') :
    s'.swapState.activeSwaps = s.swapState.activeSwaps
      ∨ ∃ swap, CompletedBy swap (l, s, s')
          ∧ s'.swapState.activeSwaps
            = s.swapState.activeSwaps.insert swap.theirChunkId
                swap.peer := by
  cases h with
  | aborted _ _ pid => exact .inl (abortSwap_activeSwaps _ pid)
  | expired _ _ ids => exact .inl (expireIds_activeSwaps ids _)
  | completed _ _ pid swap hget hready =>
      exact .inr ⟨swap, ⟨pid, hget, hready, rfl⟩,
        completeSwap_activeSwaps hget⟩
  | _ => exact .inl rfl

/-- A completed swap leaves its entry behind. -/
theorem CompletedBy.entry {t : Transition} (h : CompletedBy swap t) :
    t.2.2.swapState.activeSwaps.get swap.theirChunkId
      = some swap.peer := by
  obtain ⟨pid, hget, -, hpost⟩ := h
  rw [hpost, completeSwap_activeSwaps hget, FMap.get_insert_self]

/-- One section: if what it completes returns a chunk of ours, the
entries after it mean what the readers assume. -/
theorem Effect.registryMeans {ts : List Transition}
    (h : Effect N l s s')
    (hbefore : ∀ c p, s.swapState.activeSwaps.get c = some p →
      StoresOurs ts c p)
    (hret : ReturnsOurs (ts ++ [(l, s, s')]) (l, s, s')) :
    RegistryMeans (ts ++ [(l, s, s')]) (l, s, s') := by
  intro c p hget
  dsimp only at hget
  rcases h.activeSwaps with hsame | ⟨swap, hswap, hins⟩
  · rw [hsame] at hget
    exact (hbefore c p hget).append
  · rw [hins, FMap.get_insert] at hget
    split at hget
    next hc =>
      rw [Option.some.injEq] at hget
      rw [hc, ← hget]
      exact hret swap hswap
    next => exact (hbefore c p hget).append

/-- Along a run whose completed swaps all return a chunk of ours, the
entries mean what their readers assume at every point and at its end. -/
theorem registry_invariant {ps : List (Handler Unit)} {tr : History}
    (h : Reach (IsHandler P) (fun _ _ => True) s₀ s ps tr)
    (hempty : s₀.swapState.activeSwaps = ∅)
    (hret : Along ReturnsOurs (transitions s tr)) :
    Along RegistryMeans (transitions s tr)
      ∧ ∀ c p, s.swapState.activeSwaps.get c = some p →
        StoresOurs (transitions s tr) c p := by
  have hinv := h.invariant
    (I := fun tr s => Along ReturnsOurs (transitions s tr) →
      Along RegistryMeans (transitions s tr)
        ∧ ∀ c p, s.swapState.activeSwaps.get c = some p →
          StoresOurs (transitions s tr) c p)
    (by
      intro _
      refine ⟨along_nil _, ?_⟩
      intro c p hget
      rw [hempty] at hget
      cases hget)
    (by
      rintro p ⟨e, rfl⟩
      refine Ok.of_sections ?_ (effects_program e) []
      intro tr l s s' hI _ heffect hret
      rw [transitions_append, along_append] at hret ⊢
      obtain ⟨hretBefore, hretLast⟩ := hret
      obtain ⟨hbefore, hstate⟩ := hI hretBefore
      have hlast := heffect.registryMeans hstate hretLast
      exact ⟨⟨hbefore, hlast⟩, hlast⟩)
  exact hinv.1 hret

/-- Meaning at every point forces every completed swap to return a chunk
of ours: its entry is there right after it. -/
theorem returnsOurs_of_means {ts : List Transition}
    (h : Along RegistryMeans ts) : Along ReturnsOurs ts := by
  intro pre t post heq swap hswap
  exact h pre t post heq _ _ hswap.entry

/-- In every interleaving of the handlers from an empty map, the entries
mean what their readers assume at every point exactly when every
completed swap brought in a chunk that its peer stores for us. -/
theorem active_swaps_mean_iff (P : Prims) (s₀ s : TransportState)
    (hempty : s₀.swapState.activeSwaps = ∅)
    (ps : List (Handler Unit)) (tr : History)
    (h : Reach (IsHandler P) (fun _ _ => True) s₀ s ps tr) :
    Along RegistryMeans (transitions s tr)
      ↔ Along ReturnsOurs (transitions s tr) :=
  ⟨returnsOurs_of_means, fun hret => (registry_invariant h hempty hret).1⟩

-- ===== a first trade

/-- Our chunk of every pending swap satisfies `K`. -/
def OursIn (K : ChunkId → Prop) (m : FMap ProposalId PendingSwap) : Prop :=
  ∀ pid swap, m.get pid = some swap → K swap.ourChunkId

variable {K : ChunkId → Prop}

theorem OursIn.erase {m : FMap ProposalId PendingSwap} (h : OursIn K m)
    (pid : ProposalId) : OursIn K (m.erase pid) := by
  intro pid' swap hget
  rw [FMap.get_erase] at hget
  split at hget
  next => cases hget
  next => exact h pid' swap hget

theorem OursIn.expireIds (ids : List ProposalId) {st : SwapState}
    (h : OursIn K st.pendingSwaps) :
    OursIn K (SwapState.expireIds ids st).2.pendingSwaps := by
  induction ids generalizing st with
  | nil => exact h
  | cons pid rest ih =>
      refine ih ?_
      exact h.erase pid

/-- Our chunk of a pending swap is the one it was opened with. -/
theorem Effect.oursIn (h : Effect N l s s')
    (hN : ∀ swap, N swap → K swap.ourChunkId)
    (hs : OursIn K s.swapState.pendingSwaps) :
    OursIn K s'.swapState.pendingSwaps := by
  cases h with
  | opened _ _ swap props hnew =>
      intro pid swap' hget
      change (s.swapState.pendingSwaps.insert swap.proposalId swap).get pid
        = some swap' at hget
      rw [FMap.get_insert] at hget
      split at hget
      next =>
        rw [Option.some.injEq] at hget
        rw [← hget]
        exact hN swap hnew
      next => exact hs pid swap' hget
  | modified _ _ pid f hf =>
      intro pid' swap' hget
      change (s.swapState.pendingSwaps.modify pid f).get pid'
        = some swap' at hget
      rw [FMap.get_modify] at hget
      split at hget
      next =>
        obtain ⟨swap, hswap, rfl⟩ := Option.map_eq_some_iff.1 hget
        rw [(hf swap).2]
        exact hs pid' swap hswap
      next => exact hs pid' swap' hget
  | aborted _ _ pid =>
      cases hget : s.swapState.pendingSwaps.get pid with
      | none =>
          have hsame : (s.swapState.abortSwap pid).2 = s.swapState := by
            unfold SwapState.abortSwap
            rw [hget]
          rw [updSwaps_swapState, hsame]
          exact hs
      | some swap =>
          rw [updSwaps_swapState, (abortSwap_of_get hget).2.1]
          exact hs.erase pid
  | expired _ _ ids => exact hs.expireIds ids
  | completed _ _ pid swap hget hready =>
      rw [updSwaps_swapState, (completeSwap_of_get hget).2.1]
      exact hs.erase pid
  | _ => exact hs

/-- A completed swap's own chunk is one the pool's handlers opened a
swap for. -/
theorem completed_ours {C : Act → TransportState → Prop}
    {H : Handler Unit → Prop} {ps : List (Handler Unit)} {tr : History}
    (h : Reach H C s₀ s ps tr)
    (hH : ∀ p, H p → ∃ e : SwapEvent, p = e.program P
      ∧ ∀ swap, Opens P e swap → K swap.ourChunkId)
    (hempty : s₀.swapState.pendingSwaps = ∅) :
    ∀ t ∈ transitions s tr, ∀ swap, CompletedBy swap t →
      K swap.ourChunkId := by
  have hinv := h.invariant
    (I := fun tr s => OursIn K s.swapState.pendingSwaps
      ∧ ∀ t ∈ transitions s tr, ∀ swap, CompletedBy swap t →
        K swap.ourChunkId)
    (by
      refine ⟨?_, fun t ht => by cases ht⟩
      intro pid swap hget
      rw [hempty] at hget
      cases hget)
    (by
      intro p hp
      obtain ⟨e, rfl, hopens⟩ := hH p hp
      refine Ok.of_sections ?_ (effects_program e) []
      rintro tr l s s' ⟨hours, hdone⟩ _ heffect
      refine ⟨heffect.oursIn hopens hours, ?_⟩
      intro t ht swap hswap
      rw [transitions_append, List.mem_append, List.mem_singleton] at ht
      rcases ht with ht | rfl
      · exact hdone t ht swap hswap
      · obtain ⟨pid, hget, -⟩ := hswap
        exact hours pid swap hget)
  exact hinv.1.2

/-- Handlers run one after another are one of the interleavings. -/
theorem reach_run (P : Prims) (s : TransportState) (es : List SwapEvent) :
    ∃ ps tr, Reach (fun p => ∃ e ∈ es, p = e.program P)
      (fun _ _ => True) s (SwapEvent.run P s es) ps tr := by
  obtain ⟨ps, tr, hreach, -⟩ := reach_run_alone P (C := fun _ _ => True)
    (G := fun _ _ _ => True) s es (Exact.along_of_forall fun e _ s =>
      (alone_trivial _ s).imp fun _ _ _ _ => ⟨trivial, trivial⟩)
  exact ⟨ps, tr, hreach⟩

/-- The entry the trade leaves: chunk 10, which the proposer now holds
itself, under the peer that gave it. -/
theorem firstTrade_entry (data : List UInt8) :
    (finalized offerId (tradedSwap data)
        (committedTo data)).swapState.activeSwaps.get (Bytes.fill 32 10)
      = some (Bytes.fill 16 2) :=
  (congrArg (fun m => FMap.get m (Bytes.fill 32 10))
    (completeSwap_activeSwaps (committedTo_get data))).trans
    (FMap.get_insert_self _ _ _)

/-- The proposer's first trade completes a swap and writes its entry. -/
theorem active_swaps_mean_iff_trading : ∃ s ps tr,
    Reach (IsHandler Prims.plain) (fun _ _ => True) proposerNode s ps tr
      ∧ s.swapState.activeSwaps.get (Bytes.fill 32 10)
        = some (Bytes.fill 16 2)
      ∧ (Along RegistryMeans (transitions s tr)
        ↔ Along ReturnsOurs (transitions s tr)) := by
  have hsize : (List.replicate ENCRYPTED_CHUNK_SIZE (0 : UInt8)).length
      = ENCRYPTED_CHUNK_SIZE := List.length_replicate
  generalize List.replicate ENCRYPTED_CHUNK_SIZE (0 : UInt8) = data
    at hsize
  obtain ⟨ps, tr, hreach, -⟩ := reach_firstTrade hsize
  have hpool : Reach (IsHandler Prims.plain) (fun _ _ => True) proposerNode
      (finalized offerId (tradedSwap data) (committedTo data)) ps tr :=
    hreach.mono (fun _ => firstTrade_handlers) fun _ _ _ => trivial
  exact ⟨_, ps, tr, hpool, firstTrade_entry data,
    active_swaps_mean_iff Prims.plain proposerNode _ rfl ps tr hpool⟩

/-- After the proposer's first trade the map says that the peer stores
chunk 10 for it; what the peer stores for it is chunk 3. -/
theorem active_swaps_mislead :
    proposerNode.swapState.activeSwaps = ∅
      ∧ ∃ s ps tr, Reach (IsHandler Prims.plain) (fun _ _ => True)
          proposerNode s ps tr
        ∧ ¬ Along RegistryMeans (transitions s tr) := by
  refine ⟨rfl, ?_⟩
  have hsize : (List.replicate ENCRYPTED_CHUNK_SIZE (0 : UInt8)).length
      = ENCRYPTED_CHUNK_SIZE := List.length_replicate
  generalize List.replicate ENCRYPTED_CHUNK_SIZE (0 : UInt8) = data
    at hsize
  obtain ⟨ps, tr, hreach, -⟩ := reach_firstTrade hsize
  have hpool : Reach (IsHandler Prims.plain) (fun _ _ => True) proposerNode
      (finalized offerId (tradedSwap data) (committedTo data)) ps tr :=
    hreach.mono (fun _ => firstTrade_handlers) fun _ _ _ => trivial
  refine ⟨_, ps, tr, hpool, ?_⟩
  intro hmeans
  obtain ⟨t, ht, swap, hswap, hours, -⟩ :=
    (registry_invariant hpool rfl (returnsOurs_of_means hmeans)).2 _ _
      (firstTrade_entry data)
  have hopened : swap.ourChunkId = Bytes.fill 32 3 := by
    refine completed_ours (P := Prims.plain)
      (K := fun c => c = Bytes.fill 32 3) hreach ?_ rfl
      t ht swap hswap
    rintro p ⟨e, he, rfl⟩
    refine ⟨e, rfl, ?_⟩
    intro swap' hswap'
    simp only [firstTrade, List.mem_cons, List.not_mem_nil, or_false] at he
    rcases he with rfl | rfl | rfl | rfl
    · rw [show swap' = _ from hswap']
      rfl
    · exact hswap'.elim
    · exact hswap'.elim
    · exact hswap'.elim
  rw [hopened] at hours
  exact absurd hours (by decide)

end StaticNet
