/-
How many swaps are pending at once.

`MAX_PENDING_SWAPS` bounds the table of pending swaps, as a defence
against a flood of proposals. Two functions register an entry.
`handle_maintenance_proposal` looks at the size of the table in one
section and registers in a later one, and `begin_swap_proposal` does not
look at it. Everything else only takes entries out, or changes one that
is there (`Effect.pending_keys`). So the bound holds in every state of a
run exactly when every section that registers a new entry finds room.
-/
import StaticNet.Swap.Proofs.Registry

namespace StaticNet

open Proc TransportState

/-- The bound on the pending table. -/
def PendingBounded (s : TransportState) : Prop :=
  s.swapState.pendingSwaps.len ≤ MAX_PENDING_SWAPS

/-- A section that registers a new pending swap finds room for it. -/
def FindsRoom (_ : Act) (s s' : TransportState) : Prop :=
  ∀ pid, s.swapState.pendingSwaps.contains pid = false →
    s'.swapState.pendingSwaps.contains pid = true →
    s.swapState.pendingSwaps.len < MAX_PENDING_SWAPS

variable {P : Prims} {s₀ s s' : TransportState} {l : Act}
  {N : PendingSwap → Prop} {pid : ProposalId}

-- ======= one section

theorem expireIds_keys (ids : List ProposalId) (st : SwapState) :
    (SwapState.expireIds ids st).2.pendingSwaps.keys
      ⊆ st.pendingSwaps.keys := by
  induction ids generalizing st with
  | nil => exact Finset.Subset.refl _
  | cons pid rest ih => exact (ih _).trans (Finset.erase_subset _ _)

theorem abortSwap_keys (st : SwapState) (pid : ProposalId) :
    (st.abortSwap pid).2.pendingSwaps.keys ⊆ st.pendingSwaps.keys := by
  unfold SwapState.abortSwap
  split
  · exact Finset.Subset.refl _
  · exact Finset.erase_subset _ _

/-- A section brings in at most one id, that of an entry it registers. -/
theorem Effect.pending_keys (h : Effect N l s s') :
    s'.swapState.pendingSwaps.keys ⊆ s.swapState.pendingSwaps.keys
      ∨ ∃ swap, N swap ∧ s'.swapState.pendingSwaps.keys
        = insert swap.proposalId s.swapState.pendingSwaps.keys := by
  cases h with
  | opened _ _ swap props hnew => exact .inr ⟨swap, hnew, rfl⟩
  | aborted _ _ pid => exact .inl (abortSwap_keys _ pid)
  | expired _ _ ids => exact .inl (expireIds_keys ids _)
  | completed _ _ pid swap hget hready =>
      left
      rw [updSwaps_swapState, (completeSwap_of_get hget).2.1]
      exact Finset.erase_subset _ _
  | _ => exact .inl (Finset.Subset.refl _)

/-- It keeps the bound exactly when a new entry finds room. -/
theorem Effect.pending_length_iff (h : Effect N l s s')
    (hs : PendingBounded s) : PendingBounded s' ↔ FindsRoom l s s' := by
  have hfewer : s'.swapState.pendingSwaps.keys
      ⊆ s.swapState.pendingSwaps.keys →
      (PendingBounded s' ↔ FindsRoom l s s') := by
    intro hsub
    refine iff_of_true ((Finset.card_le_card hsub).trans hs) ?_
    intro pid hnew hin
    rw [FMap.contains_eq_false] at hnew
    rw [FMap.contains_eq_true, ← FMap.mem_keys_iff] at hin
    exact absurd (hsub hin) hnew
  rcases h.pending_keys with hsub | ⟨swap, -, hkeys⟩
  · exact hfewer hsub
  · by_cases hheld : swap.proposalId ∈ s.swapState.pendingSwaps.keys
    · refine hfewer ?_
      rw [hkeys, Finset.insert_eq_of_mem hheld]
    · have hlen : s'.swapState.pendingSwaps.len
          = s.swapState.pendingSwaps.len + 1 := by
        unfold FMap.len
        rw [hkeys, Finset.card_insert_of_notMem hheld]
      unfold PendingBounded
      rw [hlen, Nat.succ_le_iff]
      constructor
      · exact fun hroom _ _ _ => hroom
      · intro hroom
        refine hroom swap.proposalId ((FMap.contains_eq_false _ _).2 hheld) ?_
        rw [FMap.contains_eq_true, ← FMap.mem_keys_iff, hkeys]
        exact Finset.mem_insert_self _ _

-- =========== the run

/-- In every interleaving of the handlers' sections, the pending table
stays within its bound exactly when every section that registers a new
entry finds room. -/
theorem pending_bounded_iff (P : Prims) (s₀ s : TransportState)
    (hbounded : PendingBounded s₀) (ps : List (Handler Unit)) (tr : History)
    (h : Reach (IsHandler P) (fun _ _ => True) s₀ s ps tr) :
    (∀ t ∈ transitions s tr, PendingBounded t.2.2)
      ↔ ∀ t ∈ transitions s tr, FindsRoom t.1 t.2.1 t.2.2 := by
  refine h.always_iff (G := Effect fun _ => True) ?_ ?_ hbounded
  · rintro p ⟨e, rfl⟩
    exact (effects_program e).mono fun _ _ _ heffect =>
      heffect.mono fun _ _ => trivial
  · exact fun l s s' heffect hs => heffect.pending_length_iff hs

theorem pending_bounded_iff_proposing :
    (∀ t ∈ transitions (proposerNode.updSwaps fun st => st.startPendingSwap
          (proposerEntry Prims.plain (Bytes.fill 16 2) proposerOffer 200))
          [(Act.swaps, proposerNode)], PendingBounded t.2.2)
      ↔ ∀ t ∈ transitions (proposerNode.updSwaps fun st =>
          st.startPendingSwap (proposerEntry Prims.plain (Bytes.fill 16 2)
            proposerOffer 200)) [(Act.swaps, proposerNode)],
        FindsRoom t.1 t.2.1 t.2.2 :=
  pending_bounded_iff Prims.plain proposerNode _ (Nat.zero_le _) _ _
    (reach_proposing.mono (fun _ hp => hp) fun _ _ _ => trivial)

-- ==== a few too many

/-- The proposal of chunk `c`, begun by the proposer. -/
def proposeChunk (c : Nat) : SwapEvent :=
  .propose (quietEnv 30 200) (Bytes.fill 16 2)
    { proposerOffer with chunkId := Bytes.fill 32 (UInt8.ofNat c) }

def proposeChunks (n : Nat) : List SwapEvent :=
  (List.range n).map proposeChunk

/-- In the transparent instance a proposal goes by its chunk's id. -/
theorem proposalId_plain (p : SwapProposal) :
    proposalId Prims.plain p = p.chunkId := by
  have hlen : p.chunkId.toList.length = 32 := p.chunkId.length_toList
  show Bytes.ofList 32 (p.chunkId.toList ++ _ ++ _ ++ _ ++ _) = _
  apply Bytes.ext
  unfold Bytes.ofList
  simp only [List.append_assoc]
  rw [List.take_append_of_le_length hlen.ge, List.take_of_length_le hlen.le]

/-- Each of them is registered. -/
theorem proposeChunks_keys (n : Nat) :
    (SwapEvent.run Prims.plain proposerNode
        (proposeChunks n)).swapState.pendingSwaps.keys
      = (List.range n).toFinset.image
        fun c => Bytes.fill 32 (UInt8.ofNat c) := by
  induction n with
  | zero => rfl
  | succ n ih =>
      unfold proposeChunks at ih ⊢
      rw [List.range_succ, List.map_append, List.toFinset_append,
        Finset.image_union, Finset.union_comm]
      unfold SwapEvent.run at ih ⊢
      rw [List.foldl_append]
      show insert (proposalId Prims.plain _) _ = _
      rw [proposalId_plain, ih]
      rfl

/-- `begin_swap_proposal`, once more than the bound. -/
theorem pending_overflow :
    PendingBounded proposerNode
      ∧ ∃ s ps tr, Reach (IsHandler Prims.plain) (fun _ _ => True)
          proposerNode s ps tr
        ∧ ¬ PendingBounded s := by
  refine ⟨Nat.zero_le _, ?_⟩
  obtain ⟨ps, tr, hreach⟩ := reach_run Prims.plain proposerNode
    (proposeChunks 33)
  refine ⟨_, ps, tr, hreach.mono ?_ fun _ _ h => h, ?_⟩
  · rintro p ⟨e, -, rfl⟩
    exact ⟨e, rfl⟩
  · have hinj : Set.InjOn (fun c => (Bytes.fill 32 (UInt8.ofNat c)
        : ProposalId)) (List.range 33).toFinset := by
      intro a ha b hb heq
      have hbytes := Bytes.fill_injective (by decide) heq
      rw [Finset.mem_coe, List.mem_toFinset, List.mem_range] at ha hb
      have hmod := congrArg UInt8.toNat hbytes
      rw [UInt8.toNat_ofNat', UInt8.toNat_ofNat'] at hmod
      omega
    unfold PendingBounded FMap.len
    rw [proposeChunks_keys, Finset.card_image_of_injOn hinj,
      List.toFinset_card_of_nodup List.nodup_range, List.length_range]
    decide

end StaticNet
