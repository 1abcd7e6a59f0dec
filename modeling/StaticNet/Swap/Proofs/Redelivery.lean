/-
The same proposal again.

A proposal's id is the hash of its fields, nonce included, "for
idempotency"; but `handle_maintenance_proposal` never looks the id up. A
proposal that comes again is decided on its merits in the state it finds
and, if that decision is positive, opened again: the entry is replaced,
whatever stage the swap had reached, and the bytes are reserved once
more. So handling it is harmless exactly when the node would turn it
away in that state (`proposal_unchanged_iff`).

Where every proposal that comes again is turned away, ids behave as the
protocol assumes. An id can leave the pending table only after it
entered it, and it enters only where an event opens it; between two
departures it must have been opened again. Opened at most once, it
therefore departs at most once, as completed or as aborted.
-/
import StaticNet.Swap.Proofs.Overcommit

namespace StaticNet

open Proc TransportState

-- ======== deliveries

/-- What re-delivery must leave alone. -/
def Unchanged (s s' : TransportState) : Prop :=
  s'.swapState.pendingSwaps = s.swapState.pendingSwaps
    ∧ s'.storageCapacity.reservedBytes = s.storageCapacity.reservedBytes
    ∧ s'.chunkHolder = s.chunkHolder

/-- The id an event opens in this state. -/
def SwapEvent.opensId (P : Prims) (s : TransportState) :
    SwapEvent → Option ProposalId
  | .propose _ _ p => some (proposalId P p)
  | .proposal env p =>
      if opens P env p s then some (proposalId P p) else none
  | _ => none

/-- The state before step `k` of a run. -/
def stateAt (P : Prims) (s₀ : TransportState) (es : List SwapEvent)
    (k : Nat) : TransportState := SwapEvent.run P s₀ (es.take k)

/-- Step `k` opens the id. -/
def OpensAt (P : Prims) (s₀ : TransportState) (es : List SwapEvent)
    (pid : ProposalId) (k : Nat) : Prop :=
  ∃ e, es[k]? = some e ∧ e.opensId P (stateAt P s₀ es k) = some pid

/-- The id is pending before step `k` and gone after it. -/
def ClosesAt (P : Prims) (s₀ : TransportState) (es : List SwapEvent)
    (pid : ProposalId) (k : Nat) : Prop :=
  k < es.length
    ∧ (stateAt P s₀ es k).swapState.pendingSwaps.get pid ≠ none
    ∧ (stateAt P s₀ es (k + 1)).swapState.pendingSwaps.get pid = none

/-- The id is gone after step `k` because its swap was completed. -/
def CompletesAt (P : Prims) (s₀ : TransportState) (es : List SwapEvent)
    (pid : ProposalId) (k : Nat) : Prop :=
  ClosesAt P s₀ es pid k
    ∧ (stateAt P s₀ es (k + 1)).swapState.successfulSwaps
      = (stateAt P s₀ es k).swapState.successfulSwaps + 1

/-- The id is gone after step `k` and no swap was completed: it was
aborted or timed out. -/
def AbortsAt (P : Prims) (s₀ : TransportState) (es : List SwapEvent)
    (pid : ProposalId) (k : Nat) : Prop :=
  ClosesAt P s₀ es pid k
    ∧ (stateAt P s₀ es (k + 1)).swapState.successfulSwaps
      = (stateAt P s₀ es k).swapState.successfulSwaps

/-- A proposal whose id an earlier step opened is turned away, and the
node begins no swap under such an id. -/
def Refused (P : Prims) (s₀ : TransportState) (es : List SwapEvent) :
    Prop :=
  ∀ j k pid, j < k → OpensAt P s₀ es pid j →
    ∀ e, es[k]? = some e → match e with
      | .proposal env p => proposalId P p = pid →
          opens P env p (stateAt P s₀ es k) = false
      | .propose _ _ p => proposalId P p ≠ pid
      | _ => True

variable {P : Prims} {env : Env} {s s' s₀ : TransportState}
  {es : List SwapEvent} {pid : ProposalId}

-- ========== one step

/-- The proposal handler never touches the holder. -/
theorem proposal_chunkHolder (p : SwapProposal) :
    ((handleMaintenanceProposal P env p).post s).chunkHolder
      = s.chunkHolder :=
  (sections_proposal p).post_eq (fun s => s.chunkHolder)
    (fun _ _ _ h => h.1) s

/-- Handling a proposal changes nothing exactly when it is turned
away. -/
theorem proposal_unchanged_iff (p : SwapProposal) :
    Unchanged s ((handleMaintenanceProposal P env p).post s)
      ↔ opens P env p s = false := by
  constructor
  · rintro ⟨-, hreserved, -⟩
    by_contra hopens
    rw [Bool.not_eq_false] at hopens
    obtain ⟨retId, -, hpost, -⟩ := run_proposal hopens
    rw [hpost] at hreserved
    have hadd : s.storageCapacity.reservedBytes + ENCRYPTED_CHUNK_SIZE
        = s.storageCapacity.reservedBytes := hreserved
    exact absurd (Nat.add_eq_left.1 hadd) (by decide)
  · intro hclosed
    have hledger := ledger_proposal_closed hclosed
    exact ⟨congrArg Prod.fst hledger, congrArg Prod.snd hledger,
      proposal_chunkHolder p⟩

/-- A step under which an id enters the table opens it. -/
theorem step_entered (e : SwapEvent)
    (hbefore : s.swapState.pendingSwaps.get pid = none)
    (hafter : (e.step P s).swapState.pendingSwaps.get pid ≠ none) :
    e.opensId P s = some pid := by
  have htraced : Traced (NewFor (Opens P e)) s.swapState.pendingSwaps
      (e.step P s).swapState.pendingSwaps :=
    (effects_program (P := P) e).post_rel
      (R := fun s s' => Traced (NewFor (Opens P e))
        s.swapState.pendingSwaps s'.swapState.pendingSwaps)
      (fun _ => .refl _) (fun _ _ _ => .trans)
      (fun _ _ _ h => h.traced) s
  obtain ⟨swap', hswap'⟩ := Option.ne_none_iff_exists'.1 hafter
  rcases htraced pid swap' hswap' with ⟨swap, hget, -⟩ | hnew
  · rw [hget] at hbefore
    cases hbefore
  · obtain ⟨swap, hswap, hid, -⟩ := hnew
    cases e with
    | propose env peer p =>
        have hnew : swap = proposerEntry P peer p env.now := hswap
        rw [hnew] at hid
        exact congrArg some hid
    | proposal env p =>
        obtain ⟨retId, hnew⟩ := hswap
        rw [hnew] at hid
        have hid : proposalId P p = pid := hid
        show (if opens P env p s then some (proposalId P p) else none)
          = some pid
        cases hopens : opens P env p s with
        | true => rw [if_pos rfl, hid]
        | false =>
            have hsame := ((proposal_unchanged_iff p).2 hopens).1
            change ((handleMaintenanceProposal P env
              p).post s).swapState.pendingSwaps.get pid ≠ none at hafter
            rw [hsame] at hafter
            exact absurd hbefore hafter
    | _ => exact hswap.elim

-- ============== runs

theorem stateAt_succ {k : Nat} (hk : k < es.length) :
    stateAt P s₀ es (k + 1) = (es[k]).step P (stateAt P s₀ es k) :=
  run_take_succ P s₀ hk

theorem stateAt_past {k : Nat} (hk : es.length ≤ k) :
    stateAt P s₀ es (k + 1) = stateAt P s₀ es k := by
  unfold stateAt
  rw [List.take_of_length_le hk, List.take_of_length_le (by omega)]

/-- Between a point where the id is absent and a later one where it is
pending some step opens it. -/
theorem opened_between {a b : Nat} (hab : a ≤ b)
    (ha : (stateAt P s₀ es a).swapState.pendingSwaps.get pid = none)
    (hb : (stateAt P s₀ es b).swapState.pendingSwaps.get pid ≠ none) :
    ∃ k, a ≤ k ∧ k < b ∧ OpensAt P s₀ es pid k := by
  -- induction on the later point
  induction b with
  | zero =>
      obtain rfl : a = 0 := by omega
      exact absurd ha hb
  | succ b ih =>
      by_cases hlast : a ≤ b
      · cases hget : (stateAt P s₀ es b).swapState.pendingSwaps.get pid with
        | some swap =>
            obtain ⟨k, hak, hkb, hopen⟩ := ih hlast (by
              rw [hget]
              exact Option.some_ne_none swap)
            exact ⟨k, hak, by omega, hopen⟩
        | none =>
            by_cases hlen : b < es.length
            · rw [stateAt_succ hlen] at hb
              exact ⟨b, hlast, by omega, es[b],
                List.getElem?_eq_getElem hlen, step_entered _ hget hb⟩
            · rw [stateAt_past (by omega)] at hb
              exact absurd hget hb
      · obtain rfl : a = b + 1 := by omega
        exact absurd ha hb

/-- Where proposals that come again are turned away, an id is opened at
most once. -/
theorem Refused.opened_once (h : Refused P s₀ es) {i j : Nat}
    (hi : OpensAt P s₀ es pid i) (hj : OpensAt P s₀ es pid j) :
    i = j := by
  have hlt {i j : Nat} (hi : OpensAt P s₀ es pid i)
      (hj : OpensAt P s₀ es pid j) : ¬ i < j := by
    intro hij
    obtain ⟨e, he, hopens⟩ := hj
    have hrefused := h i j pid hij hi e he
    cases e with
    | propose env peer p =>
        exact hrefused (Option.some.inj hopens)
    | proposal env p =>
        unfold SwapEvent.opensId at hopens
        dsimp only at hopens
        split at hopens
        next hop =>
          have := hrefused (Option.some.inj hopens)
          rw [this] at hop
          cases hop
        next => cases hopens
    | _ => cases hopens
  rcases Nat.lt_trichotomy i j with hij | hij | hij
  · exact absurd hij (hlt hi hj)
  · exact hij
  · exact absurd hij (hlt hj hi)

/-- Opened at most once, an id leaves the table at most once. -/
theorem closed_once (hempty : s₀.swapState.pendingSwaps = ∅)
    (honce : ∀ i j, OpensAt P s₀ es pid i → OpensAt P s₀ es pid j → i = j)
    {i j : Nat} (hi : ClosesAt P s₀ es pid i)
    (hj : ClosesAt P s₀ es pid j) : i = j := by
  have hlt {i j : Nat} (hi : ClosesAt P s₀ es pid i)
      (hj : ClosesAt P s₀ es pid j) : ¬ i < j := by
    intro hij
    obtain ⟨-, hpresent, hgone⟩ := hi
    have hstart : (stateAt P s₀ es 0).swapState.pendingSwaps.get pid
        = none := by
      show s₀.swapState.pendingSwaps.get pid = none
      rw [hempty]
      rfl
    obtain ⟨k₁, -, hk₁, hopen₁⟩ :=
      opened_between (Nat.zero_le i) hstart hpresent
    obtain ⟨k₂, hk₂, -, hopen₂⟩ := opened_between hij hgone hj.2.1
    have := honce k₁ k₂ hopen₁ hopen₂
    omega
  rcases Nat.lt_trichotomy i j with hij | hij | hij
  · exact absurd hij (hlt hi hj)
  · exact hij
  · exact absurd hij (hlt hj hi)

/-- Handling a proposal leaves pending swaps, reservations and holder
alone exactly when the node would turn it away in the state it finds,
at whatever stage its id is. And in every run in which all proposals
that come again are turned away, an id is opened at most once, and is
completed or aborted at most once and never both. -/
theorem redelivery_harmless (P : Prims) :
    (∀ (s : TransportState) (env : Env) (p : SwapProposal),
      Unchanged s (SwapEvent.step P s (.proposal env p))
        ↔ opens P env p s = false)
    ∧ ∀ (s₀ : TransportState) (es : List SwapEvent),
      s₀.swapState.pendingSwaps = ∅ → Refused P s₀ es →
      ∀ pid i j,
        (OpensAt P s₀ es pid i → OpensAt P s₀ es pid j → i = j)
        ∧ (ClosesAt P s₀ es pid i → ClosesAt P s₀ es pid j → i = j)
        ∧ ¬ (CompletesAt P s₀ es pid i ∧ AbortsAt P s₀ es pid j) := by
  refine ⟨fun s env p => proposal_unchanged_iff p, ?_⟩
  intro s₀ es hempty hrefused pid i j
  have hclosed {i j : Nat} (hi : ClosesAt P s₀ es pid i)
      (hj : ClosesAt P s₀ es pid j) : i = j :=
    closed_once hempty (fun _ _ => hrefused.opened_once) hi hj
  refine ⟨hrefused.opened_once, hclosed, ?_⟩
  rintro ⟨⟨hci, hcount⟩, hcj, hsame⟩
  obtain rfl := hclosed hci hcj
  omega

-- ==== turned away twice, concretely

/-- A proposal that opens finds room for one more chunk. -/
theorem room_of_opens {p : SwapProposal} (h : opens P env p s = true) :
    s.chunkHolder.totalBytes + s.storageCapacity.reservedBytes
      + ENCRYPTED_CHUNK_SIZE ≤ s.storageCapacity.maxBytes := by
  unfold opens at h
  rw [Bool.and_eq_true, Bool.and_eq_true] at h
  have hroom := canAccept_of_decide h.1.1
  unfold StorageCapacity.canAccept at hroom
  rw [Bool.and_eq_true, decide_eq_true_eq] at hroom
  exact hroom.1

/-- An offer, the same offer again while its swap is pending, the chunk
and the commit, and the offer once more. -/
def repeatedOffer (data : List UInt8) : List SwapEvent :=
  [.proposal (quietEnv 41 200) (offerOf 3),
    .proposal (quietEnv 47 200) (offerOf 3),
    .retrieval (quietEnv 42 200) (Bytes.fill 32 3) data,
    .commit (quietEnv 44 200) (commitOf 3),
    .proposal (quietEnv 48 200) (offerOf 3)]

/-- The node after it has turned the second delivery away. -/
def crampedAgain : TransportState :=
  (reconciled (quietEnv 47 200) (offerOf 3) crampedOpen).updSwaps fun st =>
    { st.removeProposal (proposalId Prims.plain (offerOf 3)) with
      rejectedSwaps := st.rejectedSwaps + 1 }

theorem post_crampedAgain :
    (SwapEvent.program Prims.plain
      (.proposal (quietEnv 47 200) (offerOf 3))).post crampedOpen
        = crampedAgain := by
  refine (post_proposal (offerOf 3)).trans ?_
  have hfull : (decideOnSwap Prims.plain (offerOf 3)
      (crampedOpen.storageCapacity.reconcile
        crampedOpen.chunkHolder.totalBytes)
      ((crampedOpen.peerChunkCounts.get (offerOf 3).fromNode).getD 0)
      ENCRYPTED_CHUNK_SIZE (quietEnv 47 200).now).isOk = false := by decide
  split
  next heq =>
    rw [heq] at hfull
    cases hfull
  next => rfl

/-- The entry the second delivery has left alone. -/
theorem crampedAgain_get :
    crampedAgain.swapState.pendingSwaps.get
        (proposalId Prims.plain (offerOf 3))
      = some (accepterEntry Prims.plain (offerOf 3) (Bytes.fill 32 9)
          ENCRYPTED_CHUNK_SIZE 200) := crampedOpen_get

/-- The node once the chunk has come. -/
def againChunk (data : List UInt8) : TransportState :=
  buffered (proposalId Prims.plain (offerOf 3)) data crampedAgain

theorem againChunk_get (data : List UInt8) :
    (againChunk data).swapState.pendingSwaps.get
        (proposalId Prims.plain (offerOf 3)) = some (crampedEntry data) :=
  crampedChunk_get data

theorem post_againChunk {data : List UInt8}
    (hsize : data.length = ENCRYPTED_CHUNK_SIZE) :
    (SwapEvent.program Prims.plain
      (.retrieval (quietEnv 42 200) (Bytes.fill 32 3) data)).post
        crampedAgain = againChunk data := by
  have hfind : findAwaiting (quietEnv 42 200) (Bytes.fill 32 3) crampedAgain
      = some (accepterEntry Prims.plain (offerOf 3) (Bytes.fill 32 9)
          ENCRYPTED_CHUNK_SIZE 200) := by decide
  exact post_retrieval_waiting hsize hfind rfl crampedAgain_get rfl rfl

/-- The node once the swap is completed. -/
def againDone (data : List UInt8) : TransportState :=
  finalized (proposalId Prims.plain (offerOf 3))
    { crampedEntry data with receivedCommit := true }
    ((heard (quietEnv 44 200) (Bytes.fill 16 1) (Bytes.fill 32 3)
      (againChunk data)).updSwaps fun st =>
        st.markCommitReceived (proposalId Prims.plain (offerOf 3)))

theorem post_againDone (data : List UInt8) :
    (SwapEvent.program Prims.plain
      (.commit (quietEnv 44 200) (commitOf 3))).post (againChunk data)
      = againDone data := by
  have hauth : ((commitOf 3).verifySignature Prims.plain
      && authentic (quietEnv 44 200) (Bytes.fill 16 1) (Bytes.fill 32 1)
        (Bytes.fill 32 3) (againChunk data)) = true := by
    rw [authentic_congr (againChunk data) crampedNode rfl rfl]
    decide
  exact post_commit_ready hauth (againChunk_get data) rfl rfl rfl rfl

theorem againDone_full {data : List UInt8}
    (hsize : data.length = ENCRYPTED_CHUNK_SIZE) :
    (againDone data).chunkHolder.totalBytes = ENCRYPTED_CHUNK_SIZE := by
  show (oneChunkHolder.addChunk (Bytes.fill 32 3) data
    (Bytes.zero 32)).totalBytes = _
  rw [totalBytes_addChunk rfl, hsize]
  rfl

theorem completeSwap_successfulSwaps {st : SwapState} {swap : PendingSwap}
    (h : st.pendingSwaps.get pid = some swap) :
    (st.completeSwap pid).2.successfulSwaps = st.successfulSwaps + 1 := by
  unfold SwapState.completeSwap
  rw [h]

section Repeated

variable {data : List UInt8} (hsize : data.length = ENCRYPTED_CHUNK_SIZE)

include hsize

theorem stateAt_repeatedOffer :
    stateAt Prims.plain crampedNode (repeatedOffer data) 1 = crampedOpen
      ∧ stateAt Prims.plain crampedNode (repeatedOffer data) 3
        = againChunk data
      ∧ stateAt Prims.plain crampedNode (repeatedOffer data) 4
        = againDone data := by
  have h₁ : stateAt Prims.plain crampedNode (repeatedOffer data) 1
      = crampedOpen := by
    rw [stateAt_succ (Nat.lt_of_sub_eq_succ rfl)]
    exact post_crampedOpen
  have h₂ : stateAt Prims.plain crampedNode (repeatedOffer data) 2
      = crampedAgain := by
    rw [stateAt_succ (Nat.lt_of_sub_eq_succ rfl), h₁]
    exact post_crampedAgain
  have h₃ : stateAt Prims.plain crampedNode (repeatedOffer data) 3
      = againChunk data := by
    rw [stateAt_succ (Nat.lt_of_sub_eq_succ rfl), h₂]
    exact post_againChunk hsize
  refine ⟨h₁, h₃, ?_⟩
  rw [stateAt_succ (Nat.lt_of_sub_eq_succ rfl), h₃]
  exact post_againDone data

/-- Both repetitions find no room: first the bytes are reserved, then
they are stored. -/
theorem repeatedOffer_refused :
    Refused Prims.plain crampedNode (repeatedOffer data) := by
  obtain ⟨h₁, -, h₄⟩ := stateAt_repeatedOffer hsize
  intro j k pid hjk _ e he
  obtain _ | _ | _ | _ | _ | k := k
  · exact absurd hjk (Nat.not_lt_zero _)
  · obtain rfl := Option.some.inj he
    intro _
    rw [h₁, ← Bool.not_eq_true]
    intro hopens
    exact absurd (room_of_opens hopens) (by decide)
  · obtain rfl := Option.some.inj he
    trivial
  · obtain rfl := Option.some.inj he
    trivial
  · obtain rfl := Option.some.inj he
    intro _
    rw [h₄, ← Bool.not_eq_true]
    intro hopens
    have hroom := room_of_opens hopens
    have hmax : (againDone data).storageCapacity.maxBytes
        = ENCRYPTED_CHUNK_SIZE := rfl
    have hsome : 0 < ENCRYPTED_CHUNK_SIZE := by decide
    rw [againDone_full hsize, hmax] at hroom
    omega
  · cases he

/-- The swap is completed all the same. -/
theorem repeatedOffer_completes :
    CompletesAt Prims.plain crampedNode (repeatedOffer data)
      (proposalId Prims.plain (offerOf 3)) 3 := by
  obtain ⟨-, h₃, h₄⟩ := stateAt_repeatedOffer hsize
  have hget : ((againChunk data).swapState.pendingSwaps.modify
      (proposalId Prims.plain (offerOf 3)) fun swap =>
        { swap with receivedCommit := true }).get
          (proposalId Prims.plain (offerOf 3))
      = some { crampedEntry data with receivedCommit := true } := by
    rw [FMap.get_modify_self, againChunk_get]
    rfl
  refine ⟨⟨Nat.lt_of_sub_eq_succ rfl, ?_, ?_⟩, ?_⟩
  · rw [h₃, againChunk_get]
    exact Option.some_ne_none _
  · rw [h₄]
    show (SwapState.completeSwap _ _).2.pendingSwaps.get _ = none
    rw [(completeSwap_of_get hget).2.1]
    exact FMap.get_erase_self _ _
  · rw [h₃, h₄]
    show (SwapState.completeSwap _ _).2.successfulSwaps = _
    exact completeSwap_successfulSwaps hget

end Repeated

/-- One swap, whose offer comes three times. -/
theorem redelivery_harmless_repeated : ∃ data : List UInt8,
    Refused Prims.plain crampedNode (repeatedOffer data)
      ∧ CompletesAt Prims.plain crampedNode (repeatedOffer data)
        (proposalId Prims.plain (offerOf 3)) 3
      ∧ ∀ pid i j,
        (OpensAt Prims.plain crampedNode (repeatedOffer data) pid i →
          OpensAt Prims.plain crampedNode (repeatedOffer data) pid j →
          i = j)
        ∧ (ClosesAt Prims.plain crampedNode (repeatedOffer data) pid i →
          ClosesAt Prims.plain crampedNode (repeatedOffer data) pid j →
          i = j)
        ∧ ¬ (CompletesAt Prims.plain crampedNode (repeatedOffer data) pid i
          ∧ AbortsAt Prims.plain crampedNode (repeatedOffer data) pid
            j) := by
  have hsize : (List.replicate ENCRYPTED_CHUNK_SIZE (0 : UInt8)).length
      = ENCRYPTED_CHUNK_SIZE := List.length_replicate
  refine ⟨List.replicate ENCRYPTED_CHUNK_SIZE 0, ?_⟩
  generalize List.replicate ENCRYPTED_CHUNK_SIZE (0 : UInt8) = data
    at hsize
  exact ⟨repeatedOffer_refused hsize, repeatedOffer_completes hsize,
    (redelivery_harmless Prims.plain).2 crampedNode (repeatedOffer data) rfl
      (repeatedOffer_refused hsize)⟩

/-- The same proposal, delivered to a node that already has its swap
pending, reserves its bytes a second time. -/
theorem redelivery_reserves_again :
    SwapEvent.run Prims.plain roomyNode
        [.proposal (quietEnv 7 200) offeredChunk] = onceOffered
      ∧ onceOffered.swapState.pendingSwaps.get
          (proposalId Prims.plain offeredChunk) ≠ none
      ∧ ¬ Unchanged onceOffered (SwapEvent.step Prims.plain onceOffered
          (.proposal (quietEnv 7 200) offeredChunk)) := by
  refine ⟨?_, ?_, ?_⟩
  · unfold SwapEvent.run
    rw [List.foldl_cons, List.foldl_nil]
    exact post_roomyNode
  · intro hnone
    have hget : onceOffered.swapState.pendingSwaps.get
        (proposalId Prims.plain offeredChunk) = some _ :=
      FMap.get_insert_self _ _ _
    exact Option.some_ne_none _ (hget.symm.trans hnone)
  · intro hsame
    have hclosed := (proposal_unchanged_iff offeredChunk).1 hsame
    rw [onceOffered_opens] at hclosed
    cases hclosed

end StaticNet
