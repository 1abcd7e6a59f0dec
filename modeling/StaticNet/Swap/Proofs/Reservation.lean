/-
Reservation conservation: when does the capacity counter's
`reserved_bytes` equal the total over the pending swaps?

# The ledger

Of a transport state only two components matter: the pending table and
the reserved counter. Every handler is described by what it does to
that pair (`ledger_*`), and the invariant `Conserved` is a statement
about the pair alone.

# Where it breaks

Three places put an entry under an id without looking at the entry that
is already there: `begin_swap_proposal` and the proposal handler insert
over it, and the accept handler reserves again and overwrites
`reserved_bytes` in place. The old reservation is then held by the
counter and owned by nobody. `Clean` says that an event does not do
this; from a conserved state an event keeps conservation exactly when
it is clean (`conserved_step_iff`).
-/
import StaticNet.Swap.Proofs.Paths

namespace StaticNet

open Proc

-- ======== the ledger

/-- The two components the reservation accounting is about. -/
def ledger (s : TransportState) : FMap ProposalId PendingSwap × Nat :=
  (s.swapState.pendingSwaps, s.storageCapacity.reservedBytes)

/-- The counter equals the total over the pending entries. -/
def Balanced (l : FMap ProposalId PendingSwap × Nat) : Prop :=
  l.2 = l.1.sumBy PendingSwap.reservedBytes

/-- `reserved_bytes` is the sum over the pending swaps. -/
def Conserved (s : TransportState) : Prop :=
  s.storageCapacity.reservedBytes
    = s.swapState.pendingSwaps.sumBy PendingSwap.reservedBytes

/-- What the id of an event has reserved before the event. -/
def reservedAt (pid : ProposalId) (s : TransportState) : Nat :=
  s.swapState.pendingSwaps.weightAt PendingSwap.reservedBytes pid

/-- An event does not open or reserve for an id that already holds a
reservation. -/
def Clean (P : Prims) : SwapEvent → TransportState → Prop
  | .propose _ _ p, s => reservedAt (proposalId P p) s = 0
  | .proposal env p, s =>
      opens P env p s = true → reservedAt (proposalId P p) s = 0
  | .accept env a, s =>
      adopts P env a s = true → reservedAt a.proposalId s = 0
  | _, _ => True

theorem conserved_iff {s : TransportState} :
    Conserved s ↔ Balanced (ledger s) := Iff.rfl

-- ==== ledger arithmetic

variable {m : FMap ProposalId PendingSwap} {r : Nat} {pid : ProposalId}
  {swap : PendingSwap}

/-- Releasing an entry's reservation while erasing it balances: the
counter covers the entry, so the subtraction does not saturate. -/
theorem balanced_erase (h : Balanced (m, r)) (hg : m.get pid = some swap) :
    Balanced (m.erase pid, r - swap.reservedBytes) := by
  have herase := m.sumBy_erase PendingSwap.reservedBytes pid
  rw [FMap.weightAt_of_get hg] at herase
  have h' : r = m.sumBy PendingSwap.reservedBytes := h
  show r - swap.reservedBytes
    = (m.erase pid).sumBy PendingSwap.reservedBytes
  omega

/-- An update that leaves `reserved_bytes` alone keeps the total. -/
theorem balanced_modify (h : Balanced (m, r))
    {f : PendingSwap → PendingSwap}
    (hf : ∀ x, (f x).reservedBytes = x.reservedBytes) :
    Balanced (m.modify pid f, r) := by
  have h' : r = m.sumBy PendingSwap.reservedBytes := h
  show r = (m.modify pid f).sumBy PendingSwap.reservedBytes
  cases hg : m.get pid with
  | none =>
      rw [FMap.modify_of_get_none hg]
      exact h'
  | some x =>
      have hmod := FMap.sumBy_modify PendingSwap.reservedBytes f hg
      rw [hf x] at hmod
      omega

/-- Putting an entry of `c` bytes and reserving `c` balances exactly
when nothing was reserved under the id. -/
theorem balanced_insert_iff (h : Balanced (m, r)) (c : Nat)
    (hc : swap.reservedBytes = c) :
    Balanced (m.insert pid swap, r + c)
      ↔ m.weightAt PendingSwap.reservedBytes pid = 0 := by
  have hins := m.sumBy_insert PendingSwap.reservedBytes pid swap
  have h' : r = m.sumBy PendingSwap.reservedBytes := h
  show r + c = (m.insert pid swap).sumBy PendingSwap.reservedBytes ↔ _
  rw [hc] at hins
  constructor
  · intro hb
    omega
  · intro hz
    omega

-- ==== what the parts do

variable {P : Prims} {env : Env} {s : TransportState}

/-- Sending an abort touches nothing. -/
theorem post_sendAbort (draw : Nat) (dest : NodeId) (reason : String) :
    (sendAbort P env draw dest pid reason).post s = s := rfl

/-- Aborting erases the entry and gives its reservation back. -/
theorem balanced_abortAndRelease (h : Balanced (ledger s)) :
    Balanced (ledger ((abortAndRelease pid).post s)) := by
  cases hg : s.swapState.pendingSwaps.get pid with
  | none =>
      rw [post_abortAndRelease_absent hg]
      exact h
  | some swap =>
      have hb := balanced_erase h hg
      rw [← (abortSwap_of_get hg).2.1] at hb
      rw [post_abortAndRelease hg]
      exact hb

/-- Finalizing erases the entry and moves its reservation out. -/
theorem balanced_finalize (h : Balanced (ledger s)) :
    Balanced (ledger ((finalizeSwapIfReady pid).post s)) := by
  unfold finalizeSwapIfReady completeIfReady
  rw [post_bind, out_atom, post_atom]
  rcases completeReady_cases pid s with hc | ⟨swap, hg, -, hc⟩
  · rw [hc]
    exact h
  · rw [hc]
    have hb := balanced_erase h hg
    rw [← (completeSwap_of_get hg).2.1] at hb
    -- the store section changes the holder only
    rw [post_bind]
    unfold storeChunk accountStored
    rw [out_atom, post_atom, post_bind]
    split
    · exact hb
    · exact hb

/-- What expiry removes from the table is what it returns. -/
theorem sumBy_expireIds (ids : List ProposalId) (st : SwapState) :
    (SwapState.expireIds ids st).2.pendingSwaps.sumBy
          PendingSwap.reservedBytes
        + ((SwapState.expireIds ids st).1.map
            PendingSwap.reservedBytes).sum
      = st.pendingSwaps.sumBy PendingSwap.reservedBytes := by
  induction ids generalizing st with
  | nil => rfl
  | cons pid rest ih =>
      have herase :=
        st.pendingSwaps.sumBy_erase PendingSwap.reservedBytes pid
      simp only [SwapState.expireIds, List.map_append, List.sum_append]
      have hrest := ih { st with
        abortedSwaps := pushCapped st.abortedSwaps pid
        pendingSwaps := st.pendingSwaps.erase pid }
      dsimp only at hrest
      cases hg : st.pendingSwaps.get pid with
      | none =>
          rw [FMap.weightAt_of_none hg] at herase
          simp only [Option.toList_none, List.map_nil, List.sum_nil]
          omega
      | some swap =>
          rw [FMap.weightAt_of_get hg] at herase
          simp only [Option.toList_some, List.map_cons, List.map_nil,
            List.sum_cons, List.sum_nil]
          omega

/-- The release loop subtracts the expired reservations one by one. -/
theorem ledger_releaseExpired (l : List PendingSwap) (draw : Nat)
    (s : TransportState) :
    ledger ((releaseExpired P env draw l).post s)
      = ((ledger s).1,
          (ledger s).2 - (l.map PendingSwap.reservedBytes).sum) := by
  induction l generalizing draw s with
  | nil => rfl
  | cons swap rest ih =>
      unfold releaseExpired
      rw [post_bind, post_bind, post_sendAbort, ih, post_write,
        List.map_cons, List.sum_cons, ← Nat.sub_sub]
      rfl

theorem balanced_expire (h : Balanced (ledger s)) :
    Balanced (ledger ((expirePendingSwaps P env).post s)) := by
  unfold expirePendingSwaps
  rw [post_bind, out_atom, post_atom, post_bind, post_pure,
    ledger_releaseExpired]
  have hsum := sumBy_expireIds
    ((env.swapOrder.iter s.swapState.pendingSwaps.keys).filter fun pid =>
      (s.swapState.pendingSwaps.get pid).any
        (SwapState.timedOut env.now s.pendingSwapTimeoutSecs)) s.swapState
  have h' : s.storageCapacity.reservedBytes
      = s.swapState.pendingSwaps.sumBy PendingSwap.reservedBytes := h
  unfold Balanced
  dsimp only [ledger, SwapState.expirePendingSwaps]
  omega

-- ==== what events do

theorem ledger_reconciled (p : SwapProposal) :
    ledger (reconciled env p s) = ledger s := rfl

/-- The prepare phase gives up, and leaves the ledger alone, without a
return chunk or with the table full. -/
theorem ledger_prepareSwap_closed {p : SwapProposal} {size n : Nat}
    (h : pickReturn env p s = none
      ∨ MAX_PENDING_SWAPS ≤ s.swapState.pendingSwaps.len) :
    ledger ((prepareSwap P env p size n).post s) = ledger s := by
  unfold prepareSwap
  rw [post_bind, out_read, post_read]
  cases hpick : pickReturn env p s with
  | none => rfl
  | some retId =>
      rw [hpick] at h
      rcases h with h | h
      · cases h
      · simp only [post_bind, out_read, post_read, h, if_true]
        rfl

theorem ledger_prepared {p : SwapProposal} {size : Nat} {retId : ChunkId} :
    ledger (prepared P env p retId size s)
      = ((ledger s).1.insert (proposalId P p)
            (accepterEntry P p retId size env.now),
          (ledger s).2 + size) := rfl

theorem reservedAt_prepared {p : SwapProposal} {size : Nat}
    {retId : ChunkId} :
    reservedAt (proposalId P p) (prepared P env p retId size s)
      = size :=
  FMap.weightAt_of_get (FMap.get_insert_self _ _ _)

/-- The proposal handler leaves the ledger alone unless it opens. -/
theorem ledger_proposal_closed {p : SwapProposal}
    (h : opens P env p s = false) :
    ledger ((handleMaintenanceProposal P env p).post s) = ledger s := by
  rw [post_proposal]
  unfold opens at h
  split
  next hd =>
    rw [hd] at h
    rw [ledger_prepareSwap_closed, ledger_reconciled]
    cases hpick : pickReturn env p s with
    | none => exact .inl hpick
    | some retId =>
        right
        rw [reconciled_swapState]
        simpa [hpick, Except.isOk, Except.toBool] using h
  next => rfl

theorem pendingWith_heard (env : Env) (sender : NodeId)
    (nonce : Bytes 32) :
    pendingWith pid sender (heard env sender nonce s)
      = pendingWith pid sender s := rfl

theorem heard_storageCapacity (env : Env) (sender : NodeId)
    (nonce : Bytes 32) :
    (heard env sender nonce s).storageCapacity = s.storageCapacity := rfl

/-- The overwrite in place is an insertion over the old entry. -/
theorem balanced_adopt_iff {a : SwapAccept} {size : Nat}
    (h : Balanced (m, r)) (hg : m.get a.proposalId = some swap) :
    Balanced (m.modify a.proposalId (adoptTerms a size), r + size)
      ↔ m.weightAt PendingSwap.reservedBytes a.proposalId = 0 := by
  rw [FMap.modify_of_get hg]
  apply balanced_insert_iff h
  unfold adoptTerms
  split <;> rfl

theorem pending_of_pendingWith {sender : NodeId}
    (h : pendingWith pid sender s = true) :
    ∃ swap, s.swapState.pendingSwaps.get pid = some swap := by
  unfold pendingWith SwapState.getPendingSwap at h
  cases hg : s.swapState.pendingSwaps.get pid with
  | none => rw [hg] at h; cases h
  | some swap => exact ⟨swap, rfl⟩

theorem balanced_commitPending (h : Balanced (ledger s))
    (c : SwapCommit) : Balanced (ledger ((commitPending c).post s)) := by
  unfold commitPending
  rw [post_bind, out_read, post_read]
  split
  · exact h
  · rw [post_bind, post_bind, post_write, post_pure]
    apply balanced_finalize
    exact balanced_modify h fun _ => rfl

theorem balanced_abortPending (h : Balanced (ledger s)) (a : SwapAbort) :
    Balanced (ledger ((abortPending a).post s)) := by
  unfold abortPending
  rw [post_bind, out_read, post_read]
  split
  · exact h
  · exact balanced_abortAndRelease h

theorem balanced_claimCommit (h : Balanced (ledger s)) :
    Balanced (ledger ((claimCommit pid).post s)) := by
  unfold claimCommit
  rw [post_atom]
  dsimp only
  split
  · exact h
  · exact balanced_modify h fun _ => rfl

theorem balanced_commitRetrieved {peer : NodeId}
    (h : Balanced (ledger s)) :
    Balanced (ledger ((commitRetrieved P env pid peer).post s)) := by
  rw [post_commitRetrieved]
  exact balanced_finalize (balanced_claimCommit h)

theorem balanced_retrieval {chunkId : ChunkId} {data : List UInt8}
    (h : Balanced (ledger s)) :
    Balanced
      (ledger ((handleSwapChunkRetrieval P env chunkId data).post s)) := by
  unfold handleSwapChunkRetrieval
  split
  · exact h
  · rw [post_bind, out_read, post_read]
    split
    next => exact h
    next swap hfind =>
      split
      · rw [post_bind, post_bind, post_sendAbort, post_pure]
        exact balanced_abortAndRelease h
      · unfold bufferRetrieved
        rw [post_bind, out_atom, post_atom]
        have hbuf : Balanced (ledger
            { s with swapState :=
                (s.swapState.receiveTheirChunk swap.proposalId data).2 }) :=
          balanced_modify h fun _ => rfl
        split
        · exact hbuf
        · exact balanced_commitRetrieved hbuf

-- ========= one event

/-- A signed message keeps the balance when its body does. -/
theorem balanced_signedMessage {sender : NodeId} {verified : Bool}
    {identity nonce : Bytes 32} {body : Handler Unit}
    (h : Balanced (ledger s))
    (hbody : ∀ s', Balanced (ledger s') → Balanced (ledger (body.post s'))) :
    Balanced (ledger ((signedMessage env sender verified identity nonce
      body).post s)) := by
  cases hauth : verified && authentic env sender identity nonce s with
  | true =>
      rw [post_signedMessage hauth]
      exact hbody _ h
  | false =>
      obtain ⟨cache, hpost⟩ := post_signedMessage_ignored body hauth
      rw [hpost]
      exact h

theorem conserved_propose_iff {peer : NodeId} {p : SwapProposal}
    (h : Conserved s) :
    Conserved ((SwapEvent.propose env peer p).step P s)
      ↔ reservedAt (proposalId P p) s = 0 :=
  balanced_insert_iff h 0 rfl

theorem conserved_proposal_iff {p : SwapProposal} (h : Conserved s) :
    Conserved ((handleMaintenanceProposal P env p).post s)
      ↔ (opens P env p s = true
          → reservedAt (proposalId P p) s = 0) := by
  rw [conserved_iff]
  cases ho : opens P env p s with
  | false =>
      rw [ledger_proposal_closed ho]
      exact iff_of_true h nofun
  | true =>
      obtain ⟨retId, -, hpost, -⟩ := run_proposal ho
      rw [hpost, ledger_prepared, ledger_reconciled]
      exact (balanced_insert_iff h ENCRYPTED_CHUNK_SIZE rfl).trans
        ⟨fun hz _ => hz, fun hz => hz rfl⟩

theorem conserved_accept_iff {a : SwapAccept} (h : Conserved s) :
    Conserved ((handleMaintenanceAccept P env a).post s)
      ↔ (adopts P env a s = true → reservedAt a.proposalId s = 0) := by
  rw [conserved_iff]
  unfold handleMaintenanceAccept adopts acceptBinds
  cases hauth : a.verifySignature P
      && authentic env a.fromNode a.identityPublicKey a.nonce s with
  | false =>
      obtain ⟨cache, hpost⟩ := post_signedMessage_ignored
        (adoptAccept P env a ENCRYPTED_CHUNK_SIZE) hauth
      rw [hpost]
      exact iff_of_true h nofun
  | true =>
      rw [post_signedMessage hauth]
      have h' : Balanced (ledger (heard env a.fromNode a.nonce s)) := h
      cases hpeer : pendingWith a.proposalId a.fromNode s with
      | false =>
          rw [← pendingWith_heard env a.fromNode a.nonce] at hpeer
          rw [post_adoptAccept_foreign P env hpeer]
          exact iff_of_true h' nofun
      | true =>
          cases hroom : s.storageCapacity.canAccept
              ENCRYPTED_CHUNK_SIZE 0 with
          | false =>
              rw [← pendingWith_heard env a.fromNode a.nonce] at hpeer
              rw [← heard_storageCapacity env a.fromNode a.nonce] at hroom
              rw [post_adoptAccept_full P env hpeer hroom]
              exact iff_of_true (balanced_abortAndRelease h') nofun
          | true =>
              obtain ⟨swap, hg⟩ := pending_of_pendingWith hpeer
              rw [← pendingWith_heard env a.fromNode a.nonce] at hpeer
              rw [← heard_storageCapacity env a.fromNode a.nonce] at hroom
              rw [(run_adoptAccept P env hpeer hroom).1]
              exact (balanced_adopt_iff h hg).trans
                ⟨fun hz _ => hz, fun hz => hz rfl⟩

/-- From a conserved state an event conserves exactly when it is
clean. -/
theorem conserved_step_iff (h : Conserved s) (e : SwapEvent) :
    Conserved (e.step P s) ↔ Clean P e s := by
  cases e with
  | propose env peer p => exact conserved_propose_iff h
  | proposal env p => exact conserved_proposal_iff h
  | accept env a => exact conserved_accept_iff h
  | commit env c =>
      have hb : Balanced
          (ledger ((handleMaintenanceCommit P env c).post s)) :=
        balanced_signedMessage h fun _ h' => balanced_commitPending h' c
      exact iff_of_true hb trivial
  | abort env a =>
      have hb : Balanced
          (ledger ((handleMaintenanceAbort P env a).post s)) :=
        balanced_signedMessage h fun _ h' => balanced_abortPending h' a
      exact iff_of_true hb trivial
  | retrieval env chunkId data =>
      have hb : Balanced (ledger
          ((SwapEvent.retrieval env chunkId data).step P s)) := by
        unfold SwapEvent.step SwapEvent.program
        rw [post_bind, post_pure]
        exact balanced_retrieval h
      exact iff_of_true hb trivial
  | expire env =>
      have hb : Balanced (ledger ((SwapEvent.expire env).step P s)) := by
        unfold SwapEvent.step SwapEvent.program
        rw [post_bind, post_pure]
        exact balanced_expire h
      exact iff_of_true hb trivial

-- ========== the runs

theorem run_take_succ {es : List SwapEvent} {k : Nat} (P : Prims)
    (s : TransportState) (hk : k < es.length) :
    SwapEvent.run P s (es.take (k + 1))
      = (es.get ⟨k, hk⟩).step P (SwapEvent.run P s (es.take k)) := by
  unfold SwapEvent.run
  rw [List.take_succ_eq_append_getElem hk, List.foldl_append]
  rfl

/-- The counter equals the total over the pending swaps after every
step of a run exactly when no step opens or reserves for an id that
already holds a reservation. -/
theorem reservation_conserved_iff (P : Prims) (s₀ : TransportState)
    (hswaps : s₀.swapState = SwapState.new)
    (hreserved : s₀.storageCapacity.reservedBytes = 0)
    (es : List SwapEvent) :
    (∀ k, k ≤ es.length → Conserved (SwapEvent.run P s₀ (es.take k)))
      ↔ ∀ k (hk : k < es.length),
          Clean P (es.get ⟨k, hk⟩) (SwapEvent.run P s₀ (es.take k)) := by
  have h₀ : Conserved s₀ := by
    unfold Conserved
    rw [hswaps, hreserved]
    rfl
  constructor
  · intro hall k hk
    have hnow := hall k (Nat.le_of_lt hk)
    have hnext := hall (k + 1) hk
    rw [run_take_succ P s₀ hk] at hnext
    exact (conserved_step_iff hnow _).1 hnext
  · -- induction on the length of the prefix
    intro hclean k
    induction k with
    | zero =>
        intro _
        exact h₀
    | succ k ih =>
        intro hk
        rw [run_take_succ P s₀ hk]
        exact (conserved_step_iff (ih (Nat.le_of_lt hk)) _).2
          (hclean k hk)

-- ==== the leak, concretely

/-- A holder with one small chunk to offer in return. -/
def oneChunkHolder : ChunkHolder :=
  ChunkHolder.new.addChunk (Bytes.fill 32 9) [] (Bytes.zero 32)

/-- A node with room for four chunks. -/
def roomyNode : TransportState :=
  freshNode (Bytes.fill 16 2) (Bytes.fill 32 2) oneChunkHolder
    (4 * ENCRYPTED_CHUNK_SIZE)

/-- A signed proposal of the peer, valid until time 86500. -/
def offeredChunk : SwapProposal :=
  createSwapProposal Prims.plain (Bytes.fill 16 1) (Bytes.fill 32 1)
    (Bytes.fill 32 5) 86400 100 (Bytes.fill 32 3) emptyProof
    (Bytes.fill 32 4) (some (Bytes.fill 32 4)) (Bytes.fill 32 6)

theorem pickReturn_oneChunk (env : Env)
    (h : s.chunkHolder = oneChunkHolder) :
    pickReturn env offeredChunk s = some (Bytes.fill 32 9) := by
  unfold pickReturn
  rw [h]
  show (env.chunkOrder.find
    ((∅ : FMap ChunkId (List UInt8)).insert (Bytes.fill 32 9) [])
    _).map Prod.fst = _
  rw [IterOrder.find_insert_empty]
  rfl

theorem roomyNode_opens :
    opens Prims.plain (quietEnv 7 200) offeredChunk roomyNode = true := by
  unfold opens
  rw [pickReturn_oneChunk (quietEnv 7 200) rfl]
  decide

/-- The node after the first delivery. -/
def onceOffered : TransportState :=
  prepared Prims.plain (quietEnv 7 200) offeredChunk (Bytes.fill 32 9)
    ENCRYPTED_CHUNK_SIZE
    (reconciled (quietEnv 7 200) offeredChunk roomyNode)

theorem post_roomyNode :
    (handleMaintenanceProposal Prims.plain (quietEnv 7 200) offeredChunk).post
      roomyNode = onceOffered := by
  obtain ⟨retId, hret, hpost, -⟩ := run_proposal roomyNode_opens
  rw [pickReturn_oneChunk (quietEnv 7 200) rfl] at hret
  injection hret with hret
  rw [hpost, ← hret]
  rfl

theorem onceOffered_opens :
    opens Prims.plain (quietEnv 7 200) offeredChunk (onceOffered)
      = true := by
  unfold opens
  rw [pickReturn_oneChunk (quietEnv 7 200) rfl]
  decide

/-- One proposal, delivered once: the node reserves and stays
conserved. -/
theorem reservation_conserved_once :
    Conserved (SwapEvent.run Prims.plain roomyNode
      [SwapEvent.proposal (quietEnv 7 200) offeredChunk]) := by
  refine (reservation_conserved_iff Prims.plain roomyNode rfl rfl
    [SwapEvent.proposal (quietEnv 7 200) offeredChunk]).2 ?_ 1 le_rfl
  intro k hk
  obtain rfl : k = 0 := by simpa using hk
  intro _
  exact FMap.weightAt_of_none rfl

/-- The same proposal delivered twice: one pending swap, two
reservations. -/
theorem reservation_leaks_on_redelivery :
    roomyNode.swapState = SwapState.new
      ∧ roomyNode.storageCapacity.reservedBytes = 0
      ∧ ¬ Conserved (SwapEvent.run Prims.plain roomyNode
          [.proposal (quietEnv 7 200) offeredChunk,
            .proposal (quietEnv 7 200) offeredChunk]) := by
  refine ⟨rfl, rfl, ?_⟩
  have h₀ : Conserved roomyNode := rfl
  have h₁ : Conserved (onceOffered) := by
    rw [← post_roomyNode, conserved_proposal_iff h₀]
    intro _
    exact FMap.weightAt_of_none rfl
  intro h₂
  unfold SwapEvent.run at h₂
  rw [List.foldl_cons, List.foldl_cons, List.foldl_nil] at h₂
  unfold SwapEvent.step SwapEvent.program at h₂
  rw [post_roomyNode, conserved_proposal_iff h₁] at h₂
  have hzero := h₂ onceOffered_opens
  unfold onceOffered at hzero
  rw [reservedAt_prepared] at hzero
  exact absurd hzero (by decide)

end StaticNet
