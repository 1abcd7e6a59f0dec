/-
No overcommit: the holder's bytes stay within `max_bytes`.

# What a running handler has in hand

Every lock section is one step, so between two of its sections a handler
is in the middle of something the state does not show: it has reserved
bytes for an entry it has not registered yet, or taken an entry out
whose reservation it has not released, or stored a chunk it has not
accounted for. Its ghost resource is the pair of these amounts,
`(promised, unaccounted)`, and `Within` relates the state to the sum over
all running handlers:

- the reservation counter covers the pending entries and both amounts;
- `current_bytes` is behind the holder by at most what is unaccounted;
- the holder, the pending entries and what is promised fit.

The room check of a reservation is made on the counters; the first two
lines turn it into the third.

# Where it breaks

`handle_maintenance_proposal` reads the holder's total in one section
and writes it into `current_bytes` in the next. A chunk that another
handler stores *and* accounts for in between is taken off the counter
again by the stale value. And a proposer's entry has no reservation
until an accept is adopted, yet it can be finalized without one, by a
chunk delivered for the all-zero id. `Attentive` excludes exactly these
two: no section lowers `current_bytes` below what the holder has, and
a chunk is stored only under a reservation that covers it.
-/
import StaticNet.Lib.Ghost
import StaticNet.Swap.Proofs.Registry
import StaticNet.Swap.Proofs.Reservation
import Mathlib.Algebra.Group.Prod

namespace StaticNet

open Proc TransportState

/-- What the pending swaps have reserved. -/
def promisedTo (s : TransportState) : Nat :=
  s.swapState.pendingSwaps.sumBy PendingSwap.reservedBytes

/-- The state and what the running handlers have in hand: bytes promised
outside the pending table, and bytes stored but not accounted for. -/
structure Within (s : TransportState) (m : Nat × Nat) : Prop where
  covered : promisedTo s + m.1 + m.2 ≤ s.storageCapacity.reservedBytes
  counted : s.chunkHolder.totalBytes
    ≤ s.storageCapacity.currentBytes + m.2
  room : s.chunkHolder.totalBytes + promisedTo s + m.1
    ≤ s.storageCapacity.maxBytes

/-- The section does not lower `current_bytes` below the holder's total,
and stores a chunk only under a reservation that covers it. -/
def Attentive (l : Act) (s s' : TransportState) : Prop :=
  (s'.storageCapacity.currentBytes < s.storageCapacity.currentBytes →
      s.chunkHolder.totalBytes ≤ s'.storageCapacity.currentBytes)
    ∧ ∀ swap, l = .put swap →
        s.chunkHolder.hasChunk swap.theirChunkId = false →
        swap.theirChunkData.length ≤ swap.reservedBytes

/-- A handler's part in the accounting: started with `m` in hand it ends
with what `Q` says. -/
abbrev Accounts {α : Type} (Q : α → Nat × Nat → Prop) (m : Nat × Nat)
    (p : Handler α) : Prop := Carries Within Attentive Q m p

variable {P : Prims} {env : Env} {pid : ProposalId} {swap : PendingSwap}
  {s s' : TransportState} {m : Nat × Nat}

-- ==== neutral sections

/-- The section moves no bytes. -/
def Neutral (_ : Act) (s s' : TransportState) : Prop :=
  promisedTo s' = promisedTo s ∧ s'.storageCapacity = s.storageCapacity
    ∧ s'.chunkHolder = s.chunkHolder

/-- A neutral section moves nothing, -/
theorem Within.neutral {l : Act} (h : Neutral l s s') (hs : Within s m) :
    Within s' m := by
  obtain ⟨hp, hc, hh⟩ := h
  constructor
  · rw [hp, hc]
    exact hs.covered
  · rw [hc, hh]
    exact hs.counted
  · rw [hp, hc, hh]
    exact hs.room

/-- and a neutral handler owns what it owned. -/
theorem accounts_neutral {α : Type} {p : Handler α}
    (h : Sections Neutral p) : Accounts (fun _ m' => m' = m) m p :=
  Carries.of_sections h fun _ _ _ _ hG hI _ => hI.neutral hG

/-- A read is neutral. -/
theorem neutral_read {α : Type} (l : Act) (f : TransportState → α) :
    Sections Neutral (Proc.read l f) :=
  fun _ => ⟨⟨rfl, rfl, rfl⟩, trivial⟩

theorem neutral_notePeerActivity (peer : NodeId) :
    Sections Neutral (notePeerActivity env peer) :=
  fun _ => ⟨⟨rfl, rfl, rfl⟩, trivial⟩

theorem neutral_checkMaintenanceNonce (nonce : Bytes 32) :
    Sections Neutral (checkMaintenanceNonce env nonce) :=
  fun _ => ⟨⟨rfl, rfl, rfl⟩, trivial⟩

/-- So is a message. -/
theorem neutral_sendMessage (dest : NodeId) (msg : SwapMessage) :
    Sections Neutral (sendMessage dest msg) :=
  fun _ => ⟨⟨rfl, rfl, rfl⟩, trivial⟩

theorem neutral_sendMaintenanceReject (dest : NodeId)
    (reason : SwapRejectReason) :
    Sections Neutral (sendMaintenanceReject dest pid reason) :=
  (neutral_read _ _).bind fun _ => neutral_sendMessage _ _

theorem neutral_sendAbort (draw : Nat) (dest : NodeId)
    (reason : String) :
    Sections Neutral (sendAbort P env draw dest pid reason) :=
  (neutral_read _ _).bind fun _ => neutral_sendMessage _ _

theorem neutral_sendCommit (dest : NodeId) :
    Sections Neutral (sendCommit P env dest pid) :=
  (neutral_read _ _).bind fun _ => neutral_sendMessage _ _

/-- Setting a flag or buffering a chunk leaves what is reserved. -/
theorem promisedTo_modify {f : PendingSwap → PendingSwap}
    (hf : ∀ x, (f x).reservedBytes = x.reservedBytes) :
    promisedTo (s.updSwaps fun st => st.modifyPending pid f)
      = promisedTo s := by
  show (s.swapState.pendingSwaps.modify pid f).sumBy _ = _
  cases hg : s.swapState.pendingSwaps.get pid with
  | none => rw [FMap.modify_of_get_none hg]; rfl
  | some swap =>
      have hmod := FMap.sumBy_modify PendingSwap.reservedBytes f hg
      rw [hf] at hmod
      unfold promisedTo
      omega

-- ==== the sections that move bytes

/-- Reserving takes the bytes in hand. -/
theorem accounts_tryReserve (size n : Nat) :
    Accounts (fun ok m' => m' = if ok then (size, 0) else 0) 0
      (tryReserve size n) := by
  intro s frame hI _
  rw [add_zero] at hI
  dsimp only
  cases hroom : s.storageCapacity.canAccept size n with
  | false =>
      refine ⟨0, ?_, rfl⟩
      rw [add_zero]
      exact hI
  | true =>
      refine ⟨(size, 0), ?_, rfl⟩
      unfold StorageCapacity.canAccept at hroom
      rw [Bool.and_eq_true, decide_eq_true_eq] at hroom
      obtain ⟨hfits, -⟩ := hroom
      obtain ⟨hcov, hcount, hmax⟩ := hI
      constructor
      · show promisedTo s + (frame.1 + size) + (frame.2 + 0)
          ≤ s.storageCapacity.reservedBytes + size
        omega
      · show s.chunkHolder.totalBytes
          ≤ s.storageCapacity.currentBytes + (frame.2 + 0)
        omega
      · show s.chunkHolder.totalBytes + promisedTo s + (frame.1 + size)
          ≤ s.storageCapacity.maxBytes
        omega

/-- An update of the registry under which the pending total grows by no
more than what is given out of hand. -/
theorem Within.register {given : Nat} {f : SwapState → SwapState}
    {frame : Nat × Nat} (hI : Within s (frame + (given, 0)))
    (h : promisedTo (s.updSwaps f) ≤ promisedTo s + given) :
    Within (s.updSwaps f) (frame + 0) := by
  obtain ⟨hcov, hcount, hmax⟩ := hI
  constructor
  · have hcov : promisedTo s + (frame.1 + given) + (frame.2 + 0)
        ≤ s.storageCapacity.reservedBytes := hcov
    show promisedTo (s.updSwaps f) + (frame.1 + 0) + (frame.2 + 0)
      ≤ s.storageCapacity.reservedBytes
    omega
  · exact hcount
  · have hmax : s.chunkHolder.totalBytes + promisedTo s
        + (frame.1 + given) ≤ s.storageCapacity.maxBytes := hmax
    show s.chunkHolder.totalBytes + promisedTo (s.updSwaps f)
      + (frame.1 + 0) ≤ s.storageCapacity.maxBytes
    omega

/-- Registering an entry gives its reservation out of hand. -/
theorem promisedTo_start (s : TransportState) (swap : PendingSwap) :
    promisedTo (s.updSwaps fun st => st.startPendingSwap swap)
      ≤ promisedTo s + swap.reservedBytes := by
  have hins := s.swapState.pendingSwaps.sumBy_insert
    PendingSwap.reservedBytes swap.proposalId swap
  show (s.swapState.pendingSwaps.insert swap.proposalId swap).sumBy _ ≤ _
  unfold promisedTo
  omega

/-- An adopted accept reserves the chunk's size. -/
theorem adoptTerms_reservedBytes (a : SwapAccept) (n : Nat)
    (swap : PendingSwap) : (adoptTerms a n swap).reservedBytes = n := by
  unfold adoptTerms
  dsimp only
  split <;> rfl

/-- Adopting promises that much more at most. -/
theorem promisedTo_adopt (s : TransportState) (a : SwapAccept) (n : Nat) :
    promisedTo (s.updSwaps fun st =>
        st.modifyPending a.proposalId (adoptTerms a n))
      ≤ promisedTo s + n := by
  show (s.swapState.pendingSwaps.modify a.proposalId _).sumBy _ ≤ _
  cases hg : s.swapState.pendingSwaps.get a.proposalId with
  | none =>
      rw [FMap.modify_of_get_none hg]
      exact Nat.le_add_right _ _
  | some swap =>
      have hmod := FMap.sumBy_modify PendingSwap.reservedBytes
        (adoptTerms a n) hg
      rw [adoptTerms_reservedBytes] at hmod
      unfold promisedTo
      omega

/-- Taking entries out of the table takes their reservations in hand. -/
theorem Within.take {taken : Nat} {f : SwapState → SwapState}
    {frame : Nat × Nat} (hI : Within s (frame + 0))
    (h : promisedTo (s.updSwaps f) + taken = promisedTo s) :
    Within (s.updSwaps f) (frame + (taken, 0)) := by
  obtain ⟨hcov, hcount, hmax⟩ := hI
  constructor
  · have hcov : promisedTo s + (frame.1 + 0) + (frame.2 + 0)
        ≤ s.storageCapacity.reservedBytes := hcov
    show promisedTo (s.updSwaps f) + (frame.1 + taken) + (frame.2 + 0)
      ≤ s.storageCapacity.reservedBytes
    omega
  · exact hcount
  · have hmax : s.chunkHolder.totalBytes + promisedTo s
        + (frame.1 + 0) ≤ s.storageCapacity.maxBytes := hmax
    show s.chunkHolder.totalBytes + promisedTo (s.updSwaps f)
      + (frame.1 + taken) ≤ s.storageCapacity.maxBytes
    omega

/-- Erasing an entry takes back its promise. -/
theorem promisedTo_erase {f : SwapState → SwapState}
    (hget : s.swapState.pendingSwaps.get pid = some swap)
    (hf : (f s.swapState).pendingSwaps
      = s.swapState.pendingSwaps.erase pid) :
    promisedTo (s.updSwaps f) + swap.reservedBytes = promisedTo s := by
  have herase :=
    s.swapState.pendingSwaps.sumBy_erase PendingSwap.reservedBytes pid
  rw [FMap.weightAt_of_get hget] at herase
  show (f s.swapState).pendingSwaps.sumBy _ + _ = _
  rw [hf]
  exact herase

/-- Releasing a reservation without storing gives it up. -/
theorem accounts_release (size : Nat) :
    Accounts (fun _ m' => m' = 0) (size, 0)
      (write .capacity (updCapacity fun cap =>
        cap.releaseReserved size false)) := by
  intro s frame hI _
  refine ⟨0, ?_, rfl⟩
  obtain ⟨hcov, hcount, hmax⟩ := hI
  constructor
  · have hcov : promisedTo s + (frame.1 + size) + (frame.2 + 0)
        ≤ s.storageCapacity.reservedBytes := hcov
    show promisedTo s + (frame.1 + 0) + (frame.2 + 0)
      ≤ s.storageCapacity.reservedBytes - size
    omega
  · exact hcount
  · have hmax : s.chunkHolder.totalBytes + promisedTo s
        + (frame.1 + size) ≤ s.storageCapacity.maxBytes := hmax
    show s.chunkHolder.totalBytes + promisedTo s + (frame.1 + 0)
      ≤ s.storageCapacity.maxBytes
    omega

/-- A chunk that was not held adds its length. -/
theorem totalBytes_addChunk {h : ChunkHolder} {c : ChunkId}
    {d : List UInt8} {cid : ContentId} (hnew : h.hasChunk c = false) :
    (h.addChunk c d cid).totalBytes = h.totalBytes + d.length := by
  have hnone : h.chunks.get c = none := by
    unfold ChunkHolder.hasChunk FMap.contains at hnew
    rw [Option.isSome_eq_false_iff, Option.isNone_iff_eq_none] at hnew
    exact hnew
  have hins := h.chunks.sumBy_insert List.length c d
  rw [FMap.weightAt_of_none hnone, Nat.add_zero] at hins
  exact hins

/-- Storing the chunk turns its reservation from promised into
unaccounted; a chunk that is already held leaves it promised. -/
theorem accounts_storeChunk (swap : PendingSwap) :
    Accounts (fun storedNew m' => m' = if storedNew
        then (0, swap.reservedBytes) else (swap.reservedBytes, 0))
      (swap.reservedBytes, 0) (storeChunk swap) := by
  intro s frame hI hW
  dsimp only
  cases hheld : s.chunkHolder.hasChunk swap.theirChunkId with
  | true => exact ⟨(swap.reservedBytes, 0), hI, rfl⟩
  | false =>
      refine ⟨(0, swap.reservedBytes), ?_, rfl⟩
      have hlen := hW.2 swap rfl hheld
      have htotal : (s.chunkHolder.addChunk swap.theirChunkId
          swap.theirChunkData (Bytes.zero 32)).totalBytes
            = s.chunkHolder.totalBytes + swap.theirChunkData.length :=
        totalBytes_addChunk hheld
      obtain ⟨hcov, hcount, hmax⟩ := hI
      constructor
      · have hcov : promisedTo s + (frame.1 + swap.reservedBytes)
            + (frame.2 + 0) ≤ s.storageCapacity.reservedBytes := hcov
        show promisedTo s + (frame.1 + 0) + (frame.2 + swap.reservedBytes)
          ≤ s.storageCapacity.reservedBytes
        omega
      · have hcount : s.chunkHolder.totalBytes
            ≤ s.storageCapacity.currentBytes + (frame.2 + 0) := hcount
        show (s.chunkHolder.addChunk swap.theirChunkId swap.theirChunkData
            (Bytes.zero 32)).totalBytes
          ≤ s.storageCapacity.currentBytes
            + (frame.2 + swap.reservedBytes)
        omega
      · have hmax : s.chunkHolder.totalBytes + promisedTo s
            + (frame.1 + swap.reservedBytes)
            ≤ s.storageCapacity.maxBytes := hmax
        show (s.chunkHolder.addChunk swap.theirChunkId swap.theirChunkData
            (Bytes.zero 32)).totalBytes + promisedTo s + (frame.1 + 0)
          ≤ s.storageCapacity.maxBytes
        omega

/-- Releasing with the bytes moved into `current_bytes`. -/
theorem accounts_releaseStored (size : Nat) :
    Accounts (fun _ m' => m' = 0) (0, size)
      (write .capacity (updCapacity fun cap =>
        cap.releaseReserved size true)) := by
  intro s frame hI _
  refine ⟨0, ?_, rfl⟩
  obtain ⟨hcov, hcount, hmax⟩ := hI
  constructor
  · have hcov : promisedTo s + (frame.1 + 0) + (frame.2 + size)
        ≤ s.storageCapacity.reservedBytes := hcov
    show promisedTo s + (frame.1 + 0) + (frame.2 + 0)
      ≤ s.storageCapacity.reservedBytes - size
    omega
  · have hcount : s.chunkHolder.totalBytes
        ≤ s.storageCapacity.currentBytes + (frame.2 + size) := hcount
    show s.chunkHolder.totalBytes
      ≤ s.storageCapacity.currentBytes + size + (frame.2 + 0)
    omega
  · exact hmax

/-- Reconciling: an attentive write leaves the counter high enough. -/
theorem accounts_reconcile (actual : Nat) :
    Accounts (fun _ m' => m' = 0) 0
      (write .capacity (updCapacity fun cap => cap.reconcile actual)) := by
  intro s frame hI hW
  refine ⟨0, ?_, rfl⟩
  obtain ⟨hcov, hcount, hmax⟩ := hI
  refine ⟨hcov, ?_, hmax⟩
  have hkeep : actual < s.storageCapacity.currentBytes →
      s.chunkHolder.totalBytes ≤ actual := hW.1
  have hcount : s.chunkHolder.totalBytes
      ≤ s.storageCapacity.currentBytes + (frame.2 + 0) := hcount
  show s.chunkHolder.totalBytes ≤ actual + (frame.2 + 0)
  omega

-- ====== the handlers

/-- A part of a handler that starts and ends with nothing in hand. -/
abbrev Squares {α : Type} (p : Handler α) : Prop :=
  Accounts (fun _ m' => m' = 0) 0 p

/-- A neutral handler squares. -/
theorem squares_neutral {α : Type} {p : Handler α}
    (h : Sections Neutral p) : Squares p := accounts_neutral h

theorem squares_pure {α : Type} (a : α) : Squares (pure a) := rfl

/-- Handlers that square compose. -/
theorem Squares.then {α β : Type} {p : Handler α} {f : α → Handler β}
    (hp : Squares p) (hf : ∀ a, Squares (f a)) : Squares (p >>= f) := by
  refine Carries.bind hp ?_
  rintro a m' rfl
  exact hf a

/-- What a swap taken out of the pending table leaves in hand: its
reservation. -/
def inHand : Option PendingSwap → Nat × Nat
  | none => 0
  | some swap => (swap.reservedBytes, 0)

/-- What an aborted swap promised is released. -/
theorem squares_abortAndRelease : Squares (abortAndRelease pid) := by
  have habort : Accounts
      (fun r m' => m' = inHand r) 0
      (atom .swaps fun s : TransportState =>
        ((s.swapState.abortSwap pid).1,
          { s with swapState := (s.swapState.abortSwap pid).2 })) := by
    intro s frame hI _
    dsimp only
    cases hget : s.swapState.pendingSwaps.get pid with
    | none =>
        have hsame : s.swapState.abortSwap pid = (none, s.swapState) := by
          unfold SwapState.abortSwap
          rw [hget]
        rw [hsame]
        exact ⟨0, hI, rfl⟩
    | some swap =>
        obtain ⟨hout, hpend, -⟩ := abortSwap_of_get hget
        refine ⟨(swap.reservedBytes, 0), ?_, ?_⟩
        · exact hI.take (f := fun st => (st.abortSwap pid).2)
            (promisedTo_erase hget hpend)
        · rw [hout]
          rfl
  refine Carries.bind habort ?_
  rintro (_ | swap) m' rfl
  · rfl
  · exact accounts_release _

/-- A stored chunk's reservation becomes its bytes. -/
theorem squares_accountStored (swap : PendingSwap) (storedNew : Bool) :
    Accounts (fun _ m' => m' = 0)
      (if storedNew then (0, swap.reservedBytes)
        else (swap.reservedBytes, 0))
      (accountStored swap storedNew) := by
  cases storedNew with
  | false =>
      refine Carries.bind (accounts_release _) ?_
      rintro _ m' rfl
      rfl
  | true =>
      refine Carries.bind (accounts_releaseStored _) ?_
      rintro _ m' rfl
      exact squares_neutral fun _ => ⟨⟨rfl, rfl, rfl⟩,
        fun _ => ⟨⟨rfl, rfl, rfl⟩, trivial⟩⟩

/-- A finalized swap's promise is used up. -/
theorem squares_finalize : Squares (finalizeSwapIfReady pid) := by
  have hcomplete : Accounts
      (fun r m' => m' = inHand r) 0
      (completeIfReady pid) := by
    intro s frame hI _
    dsimp only
    rcases completeReady_cases pid s with hc | ⟨swap, hget, -, hc⟩
    · rw [hc]
      exact ⟨0, hI, rfl⟩
    · rw [hc]
      refine ⟨(swap.reservedBytes, 0), ?_, rfl⟩
      exact hI.take (f := fun st => (st.completeSwap pid).2)
        (promisedTo_erase hget (completeSwap_of_get hget).2.1)
  refine Carries.bind hcomplete ?_
  rintro (_ | swap) m' rfl
  · rfl
  · refine Carries.bind (accounts_storeChunk swap) ?_
    rintro storedNew m' rfl
    exact squares_accountStored swap storedNew

/-- The checks are neutral. -/
theorem squares_signedMessage {sender : NodeId} {verified : Bool}
    {identity nonce : Bytes 32} {body : Handler Unit}
    (hbody : Squares body) :
    Squares (signedMessage env sender verified identity nonce body) := by
  refine (squares_neutral (neutral_notePeerActivity _)).then ?_
  intro _
  split
  · exact squares_pure _
  · refine (squares_neutral (neutral_read _ _)).then ?_
    intro pinned
    split
    · exact squares_pure _
    · refine (squares_neutral (neutral_checkMaintenanceNonce _)).then ?_
      intro fresh
      split
      · exact squares_pure _
      · exact hbody

/-- A flag or a buffered chunk: nothing moves. -/
theorem squares_modify (l : Act) {f : PendingSwap → PendingSwap}
    (hf : ∀ x, (f x).reservedBytes = x.reservedBytes) :
    Squares (write l (updSwaps fun st => st.modifyPending pid f)) :=
  squares_neutral fun _ => ⟨⟨promisedTo_modify hf, rfl, rfl⟩, trivial⟩

/-- What is reserved is promised to the new entry. -/
theorem squares_prepareSwap (p : SwapProposal) (size n : Nat) :
    Squares (prepareSwap P env p size n) := by
  refine (squares_neutral (neutral_read _ _)).then ?_
  intro returnEntry
  cases returnEntry with
  | none => exact squares_neutral (neutral_sendMaintenanceReject _ _)
  | some retId =>
      refine (squares_neutral (neutral_read _ _)).then ?_
      intro pendingLen
      dsimp only
      split
      · exact squares_neutral (neutral_sendMaintenanceReject _ _)
      · refine Carries.bind (accounts_tryReserve size n) ?_
        rintro reserved m' rfl
        cases reserved with
        | false => exact squares_neutral (neutral_sendMaintenanceReject _ _)
        | true =>
            have hregister : Accounts (fun _ m' => m' = 0) (size, 0)
                (write .swaps (updSwaps fun st =>
                  (st.removeProposal (proposalId P p)).startPendingSwap
                    (accepterEntry P p retId size env.now))) := by
              intro s frame hI _
              refine ⟨0, hI.register ?_, rfl⟩
              exact promisedTo_start s (accepterEntry P p retId size env.now)
            refine Carries.bind hregister ?_
            rintro _ m' rfl
            exact squares_neutral
              ((neutral_read _ _).bind fun _ => neutral_sendMessage _ _)

/-- A proposal reserves before it promises. -/
theorem squares_proposal (p : SwapProposal) :
    Squares (handleMaintenanceProposal P env p) := by
  refine (squares_neutral (neutral_notePeerActivity _)).then ?_
  intro _
  refine (squares_neutral (neutral_read _ _)).then ?_
  intro actualBytes
  refine Squares.then (accounts_reconcile actualBytes) ?_
  intro _
  refine (squares_neutral (neutral_read _ _)).then ?_
  intro peerChunks
  refine (squares_neutral (neutral_read _ _)).then ?_
  intro result
  cases result with
  | ok u => exact squares_prepareSwap _ _ _
  | error reason =>
      refine squares_neutral ?_
      exact fun _ => ⟨⟨rfl, rfl, rfl⟩, fun _ => ⟨⟨rfl, rfl, rfl⟩,
        neutral_sendMaintenanceReject _ _⟩⟩

/-- So does an accept. -/
theorem squares_adoptAccept (a : SwapAccept) (size : Nat) :
    Squares (adoptAccept P env a size) := by
  refine (squares_neutral (neutral_read _ _)).then ?_
  intro peerOk
  split
  · exact squares_pure _
  · refine Carries.bind (accounts_tryReserve size 0) ?_
    rintro fits m' rfl
    cases fits with
    | false =>
        exact squares_abortAndRelease.then fun _ =>
          squares_neutral (neutral_sendAbort _ _ _)
    | true =>
        intro s frame hI _
        exact ⟨0, hI.register (promisedTo_adopt s a size), rfl⟩

/-- A commit may finalize its swap. -/
theorem squares_commitPending (c : SwapCommit) :
    Squares (commitPending c) := by
  refine (squares_neutral (neutral_read _ _)).then ?_
  intro peerOk
  split
  · exact squares_pure _
  · refine Squares.then (squares_modify _ fun _ => rfl) ?_
    intro _
    exact squares_finalize.then fun _ => squares_pure _

/-- An abort releases it. -/
theorem squares_abortPending (a : SwapAbort) :
    Squares (abortPending a) := by
  refine (squares_neutral (neutral_read _ _)).then ?_
  intro peerOk
  split
  · exact squares_neutral fun _ => ⟨⟨rfl, rfl, rfl⟩, trivial⟩
  · exact squares_abortAndRelease

theorem squares_claimCommit : Squares (claimCommit pid) := by
  refine squares_neutral fun s => ⟨?_, trivial⟩
  dsimp only
  split
  · exact ⟨rfl, rfl, rfl⟩
  · exact ⟨promisedTo_modify fun _ => rfl, rfl, rfl⟩

theorem squares_commitRetrieved (peer : NodeId) :
    Squares (commitRetrieved P env pid peer) := by
  refine squares_claimCommit.then ?_
  intro needCommit
  dsimp only
  split
  · exact (squares_neutral (neutral_sendCommit _)).then fun _ =>
      squares_finalize.then fun _ => squares_pure _
  · exact squares_finalize.then fun _ => squares_pure _

/-- A chunk may finalize its swap, or abort it. -/
theorem squares_retrieval (chunkId : ChunkId) (data : List UInt8) :
    Squares (handleSwapChunkRetrieval P env chunkId data) := by
  unfold handleSwapChunkRetrieval
  split
  · exact squares_pure _
  · refine (squares_neutral (neutral_read _ _)).then ?_
    intro found
    cases found with
    | none => exact squares_pure _
    | some swap =>
        dsimp only
        split
        · refine squares_abortAndRelease.then fun _ => ?_
          exact (squares_neutral (neutral_sendAbort _ _ _)).then fun _ =>
            squares_pure _
        · refine Squares.then (p := atom _ _) ?_ ?_
          · exact squares_neutral fun s =>
              ⟨⟨promisedTo_modify (s := s) fun _ => rfl, rfl, rfl⟩, trivial⟩
          · intro received
            split
            · exact squares_pure _
            · exact squares_commitRetrieved _

/-- Releasing the expired entries one after another. -/
theorem accounts_releaseExpired (l : List PendingSwap) (draw : Nat) :
    Accounts (fun _ m' => m' = 0)
      ((l.map PendingSwap.reservedBytes).sum, 0)
      (releaseExpired P env draw l) := by
  induction l generalizing draw with
  | nil => rfl
  | cons swap rest ih =>
      have hone : Accounts
          (fun _ m' => m' = ((rest.map PendingSwap.reservedBytes).sum, 0))
          (((swap :: rest).map PendingSwap.reservedBytes).sum, 0)
          (write .capacity (updCapacity fun cap =>
            cap.releaseReserved swap.reservedBytes false)) := by
        intro s frame hI hW
        have hsplit : frame + ((((swap :: rest).map
            PendingSwap.reservedBytes).sum, 0) : Nat × Nat)
            = (frame + ((rest.map PendingSwap.reservedBytes).sum, 0))
              + (swap.reservedBytes, 0) := by
          rw [List.map_cons, List.sum_cons]
          ext
          · show frame.1 + (swap.reservedBytes + _)
              = frame.1 + _ + swap.reservedBytes
            omega
          · rfl
        rw [hsplit] at hI
        obtain ⟨m', hI', rfl⟩ := accounts_release swap.reservedBytes s _ hI hW
        rw [add_zero] at hI'
        exact ⟨_, hI', rfl⟩
      refine Carries.bind hone ?_
      rintro _ m' rfl
      refine Carries.bind (accounts_neutral (neutral_sendAbort _ _ _)) ?_
      rintro _ m' rfl
      exact ih _

/-- Expiry releases all it takes out. -/
theorem squares_expire : Squares (expirePendingSwaps P env) := by
  have htake : Accounts
      (fun expired m' =>
        m' = ((expired.map PendingSwap.reservedBytes).sum, 0)) 0
      (atom .swaps fun s : TransportState =>
        ((s.swapState.expirePendingSwaps env.swapOrder env.now
            s.pendingSwapTimeoutSecs).1,
          { s with swapState := (s.swapState.expirePendingSwaps
            env.swapOrder env.now s.pendingSwapTimeoutSecs).2 })) := by
    intro s frame hI _
    refine ⟨_, ?_, rfl⟩
    exact hI.take (f := fun st => (st.expirePendingSwaps env.swapOrder
      env.now s.pendingSwapTimeoutSecs).2) (sumBy_expireIds _ _)
  refine Carries.bind htake ?_
  rintro expired m' rfl
  refine Carries.bind (accounts_releaseExpired expired 0) ?_
  rintro _ m' rfl
  rfl

/-- Every handler, started with nothing in hand, ends with nothing. -/
theorem squares_program (e : SwapEvent) : Squares (e.program P) := by
  cases e with
  | propose env peer p =>
      intro s frame hI _
      refine ⟨0, ?_, rfl⟩
      have hstart := promisedTo_start s (proposerEntry P peer p env.now)
      exact Within.register hI hstart
  | proposal env p => exact squares_proposal p
  | accept env a => exact squares_signedMessage (squares_adoptAccept a _)
  | commit env c => exact squares_signedMessage (squares_commitPending c)
  | abort env a => exact squares_signedMessage (squares_abortPending a)
  | retrieval env chunkId data =>
      exact (squares_retrieval chunkId data).then fun _ => squares_pure _
  | expire env => exact squares_expire.then fun _ => squares_pure _

/-- In every interleaving of the handlers' sections in which no section
lowers `current_bytes` below the holder's total and chunks are stored
under reservations that cover them, the holder stays within
`max_bytes`. -/
theorem no_overcommit (P : Prims) (s₀ s : TransportState)
    (htotal : s₀.chunkHolder.totalBytes = s₀.storageCapacity.currentBytes)
    (hmax : s₀.storageCapacity.currentBytes
        + s₀.storageCapacity.reservedBytes ≤ s₀.storageCapacity.maxBytes)
    (hcovered : promisedTo s₀ ≤ s₀.storageCapacity.reservedBytes)
    (ps : List (Handler Unit)) (tr : History)
    (h : Reach (IsHandler P) (fun _ _ => True) s₀ s ps tr)
    (hattentive : ∀ t ∈ transitions s tr, Attentive t.1 t.2.1 t.2.2) :
    s.chunkHolder.totalBytes ≤ s.storageCapacity.maxBytes := by
  have hinit : Within s₀ 0 := by
    constructor
    · exact hcovered
    · exact htotal.le
    · show s₀.chunkHolder.totalBytes + promisedTo s₀ + 0 ≤ _
      omega
  have hH : ∀ p, IsHandler P p →
      Accounts (fun _ _ => True) 0 p := by
    rintro p ⟨e, rfl⟩
    exact (squares_program e).mono fun _ _ _ => trivial
  obtain ⟨qs, -, hwithin, -⟩ := h.resources hinit hH hattentive
  have := hwithin.room
  omega

/-- The chunk a careful step stores is covered, and the counter it
leaves is not lower. -/
theorem Careful.attentive {l : Act} (h : Careful P l s s') :
    Attentive l s s' := by
  refine ⟨fun hlow => absurd h.1 (Nat.not_le.2 hlow), ?_⟩
  rintro swap rfl -
  exact h.2

/-- A proposer that has received the chunk it was promised, and its
peer's commit. -/
theorem no_overcommit_trading : ∃ data s ps tr,
    Reach (IsHandler Prims.plain) (fun _ _ => True) proposerNode s ps tr
      ∧ (∀ t ∈ transitions s tr, Attentive t.1 t.2.1 t.2.2)
      ∧ s.chunkHolder.getChunk (Bytes.fill 32 10) = some data
      ∧ data.length = ENCRYPTED_CHUNK_SIZE
      ∧ s.chunkHolder.totalBytes ≤ s.storageCapacity.maxBytes := by
  have hsize : (List.replicate ENCRYPTED_CHUNK_SIZE (0 : UInt8)).length
      = ENCRYPTED_CHUNK_SIZE := List.length_replicate
  refine ⟨List.replicate ENCRYPTED_CHUNK_SIZE 0, ?_⟩
  generalize List.replicate ENCRYPTED_CHUNK_SIZE (0 : UInt8) = data
    at hsize
  obtain ⟨ps, tr, hreach, hcareful⟩ := reach_firstTrade hsize
  have hpool : Reach (IsHandler Prims.plain) (fun _ _ => True) proposerNode
      (finalized offerId (tradedSwap data) (committedTo data)) ps tr :=
    hreach.mono (fun _ => firstTrade_handlers) fun _ _ _ => trivial
  have hattentive := fun t ht => (hcareful t ht).attentive
  exact ⟨_, ps, tr, hpool, hattentive, FMap.get_insert_self _ _ _, hsize,
    no_overcommit Prims.plain proposerNode _ (by decide) (by decide)
      (by decide) ps tr hpool hattentive⟩

-- ==== a stale snapshot, concretely

/-- A node with room for exactly one chunk, holding an empty one. -/
def crampedNode : TransportState :=
  freshNode (Bytes.fill 16 2) (Bytes.fill 32 2) oneChunkHolder
    ENCRYPTED_CHUNK_SIZE

/-- The peer's offer of chunk `c`. -/
def offerOf (c : UInt8) : SwapProposal :=
  createSwapProposal Prims.plain (Bytes.fill 16 1) (Bytes.fill 32 c)
    (Bytes.fill 32 5) 86400 100 zeroRoot emptyProof (Bytes.fill 32 4)
    (some (Bytes.fill 32 4)) (Bytes.fill 32 c)

/-- The peer's commit to the swap of chunk `c`. -/
def commitOf (c : UInt8) : SwapCommit :=
  (createSwapCommit (proposalId Prims.plain (offerOf c)) (Bytes.fill 16 1)
    (Bytes.fill 32 c)).sign Prims.plain (Bytes.fill 32 1) (Bytes.fill 32 c)

/-- What is left of a proposal handler once it has read the holder. -/
def afterSnapshot (P : Prims) (env : Env) (p : SwapProposal)
    (actualBytes : Nat) : Handler Unit := do
  write .capacity (updCapacity fun cap => cap.reconcile actualBytes)
  let peerChunks ← Proc.read .counts fun s =>
    (s.peerChunkCounts.get p.fromNode).getD 0
  let result ← Proc.read .capacity fun s =>
    decideOnSwap P p s.storageCapacity peerChunks ENCRYPTED_CHUNK_SIZE
      env.now
  match result with
  | .ok () => prepareSwap P env p ENCRYPTED_CHUNK_SIZE peerChunks
  | .error reason =>
      write .swaps (updSwaps fun st =>
        st.removeProposal (proposalId P p))
      write .swaps (updSwaps fun st =>
        { st with rejectedSwaps := st.rejectedSwaps + 1 })
      sendMaintenanceReject p.fromNode (proposalId P p) reason

theorem handleMaintenanceProposal_eq (P : Prims) (env : Env)
    (p : SwapProposal) :
    handleMaintenanceProposal P env p = (do
      notePeerActivity env p.fromNode
      let actualBytes ← Proc.read .holder fun s => s.chunkHolder.totalBytes
      afterSnapshot P env p actualBytes) := rfl

/-- The handler goes on from its snapshot and finds room. -/
theorem post_afterSnapshot {p : SwapProposal} {actual : Nat}
    {retId : ChunkId}
    (hdec : decideOnSwap P p (s.storageCapacity.reconcile actual)
      ((s.peerChunkCounts.get p.fromNode).getD 0) ENCRYPTED_CHUNK_SIZE
      env.now = .ok ())
    (hpick : pickReturn env p s = some retId)
    (hlen : s.swapState.pendingSwaps.len < MAX_PENDING_SWAPS) :
    (afterSnapshot P env p actual).post s
      = prepared P env p retId ENCRYPTED_CHUNK_SIZE
          (s.updCapacity fun cap => cap.reconcile actual) := by
  have hroom : (s.storageCapacity.reconcile actual).canAccept
      ENCRYPTED_CHUNK_SIZE ((s.peerChunkCounts.get p.fromNode).getD 0)
        = true :=
    canAccept_of_decide (by rw [hdec]; rfl)
  unfold afterSnapshot
  simp only [post_bind, post_write, out_read, post_read,
    updCapacity_storageCapacity, updCapacity_peerChunkCounts, hdec]
  exact (run_prepareSwap P (s := s.updCapacity fun cap =>
    cap.reconcile actual) hpick hlen hroom).1

/-- The node after the first offer. -/
def crampedOpen : TransportState :=
  prepared Prims.plain (quietEnv 41 200) (offerOf 3) (Bytes.fill 32 9)
    ENCRYPTED_CHUNK_SIZE
    (reconciled (quietEnv 41 200) (offerOf 3) crampedNode)

/-- And after the first chunk. -/
def crampedChunk (data : List UInt8) : TransportState :=
  buffered (proposalId Prims.plain (offerOf 3)) data crampedOpen

/-- The first swap's entry, with everything but the peer's commit. -/
def crampedEntry (data : List UInt8) : PendingSwap :=
  { accepterEntry Prims.plain (offerOf 3) (Bytes.fill 32 9)
      ENCRYPTED_CHUNK_SIZE 200 with
    theirChunkData := data
    receivedTheirChunk := true
    sentCommit := true }

theorem pickReturn_cramped (env : Env) (c : UInt8)
    (hc : Bytes.fill 32 9 ≠ Bytes.fill 32 c)
    (h : s.chunkHolder = oneChunkHolder) :
    pickReturn env (offerOf c) s = some (Bytes.fill 32 9) := by
  unfold pickReturn
  rw [h]
  show (env.chunkOrder.find
    ((∅ : FMap ChunkId (List UInt8)).insert (Bytes.fill 32 9) [])
    (fun id _ => id != Bytes.fill 32 c)).map Prod.fst = _
  rw [IterOrder.find_insert_empty, if_pos (bne_iff_ne.2 hc)]
  rfl

theorem post_crampedOpen :
    (SwapEvent.program Prims.plain
      (.proposal (quietEnv 41 200) (offerOf 3))).post crampedNode
        = crampedOpen := by
  have hpick := pickReturn_cramped (s := crampedNode) (quietEnv 41 200) 3
    (by decide) rfl
  have hopens : opens Prims.plain (quietEnv 41 200) (offerOf 3) crampedNode
      = true := by
    unfold opens
    rw [hpick]
    decide
  obtain ⟨retId, hret, hpost, -⟩ := run_proposal hopens
  rw [hpick] at hret
  injection hret with hret
  rw [← hret] at hpost
  exact hpost

/-- The first swap is open, -/
theorem crampedOpen_get :
    crampedOpen.swapState.pendingSwaps.get
        (proposalId Prims.plain (offerOf 3))
      = some (accepterEntry Prims.plain (offerOf 3) (Bytes.fill 32 9)
          ENCRYPTED_CHUNK_SIZE 200) := by
  show (FMap.insert _ _ _).get _ = _
  exact FMap.get_insert_self _ _ _

/-- has its chunk, -/
theorem crampedChunk_get (data : List UInt8) :
    (crampedChunk data).swapState.pendingSwaps.get
        (proposalId Prims.plain (offerOf 3)) = some (crampedEntry data) := by
  show ((crampedOpen.swapState.pendingSwaps.modify _ _).modify _ _).get _
    = _
  rw [FMap.get_modify_self, FMap.get_modify_self, crampedOpen_get]
  rfl

/-- which came in before the commit, -/
theorem post_crampedChunk {data : List UInt8}
    (hsize : data.length = ENCRYPTED_CHUNK_SIZE) :
    (SwapEvent.program Prims.plain
      (.retrieval (quietEnv 42 200) (Bytes.fill 32 3) data)).post crampedOpen
        = crampedChunk data := by
  have hfind : findAwaiting (quietEnv 42 200) (Bytes.fill 32 3) crampedOpen
      = some (accepterEntry Prims.plain (offerOf 3) (Bytes.fill 32 9)
          ENCRYPTED_CHUNK_SIZE 200) := by decide
  exact post_retrieval_waiting hsize hfind rfl crampedOpen_get rfl rfl

/-- The node after the first swap is finalized, seen by a second offer's
handler that has read the holder before. -/
def crampedDone (data : List UInt8) : TransportState :=
  finalized (proposalId Prims.plain (offerOf 3))
    { crampedEntry data with receivedCommit := true }
    ((heard (quietEnv 44 200) (Bytes.fill 16 1) (Bytes.fill 32 3)
      ((crampedChunk data).note (quietEnv 43 200)
        (Bytes.fill 16 1))).updSwaps fun st =>
          st.markCommitReceived (proposalId Prims.plain (offerOf 3)))

/-- and is finalized by it. -/
theorem post_crampedDone (data : List UInt8) :
    (SwapEvent.program Prims.plain
      (.commit (quietEnv 44 200) (commitOf 3))).post
        ((crampedChunk data).note (quietEnv 43 200) (Bytes.fill 16 1))
      = crampedDone data := by
  have hauth : ((commitOf 3).verifySignature Prims.plain
      && authentic (quietEnv 44 200) (Bytes.fill 16 1) (Bytes.fill 32 1)
        (Bytes.fill 32 3)
        ((crampedChunk data).note (quietEnv 43 200) (Bytes.fill 16 1)))
      = true := by
    rw [authentic_congr ((crampedChunk data).note (quietEnv 43 200)
      (Bytes.fill 16 1)) crampedNode rfl rfl]
    decide
  exact post_commit_ready hauth (crampedChunk_get data) rfl rfl rfl rfl

/-- No swap is pending then. -/
theorem crampedDone_pending (data : List UInt8) (k : ProposalId) :
    (crampedDone data).swapState.pendingSwaps.get k = none := by
  have hget : ((crampedChunk data).swapState.pendingSwaps.modify
      (proposalId Prims.plain (offerOf 3)) fun swap =>
        { swap with receivedCommit := true }).get
          (proposalId Prims.plain (offerOf 3))
      = some { crampedEntry data with receivedCommit := true } := by
    rw [FMap.get_modify_self, crampedChunk_get]
    rfl
  show (SwapState.completeSwap _ _).2.pendingSwaps.get k = none
  rw [(completeSwap_of_get hget).2.1, FMap.get_erase]
  split
  next => rfl
  next hne =>
    show (((crampedOpen.swapState.pendingSwaps.modify _ _).modify _
      _).modify _ _).get k = none
    rw [FMap.get_modify_ne _ _ hne, FMap.get_modify_ne _ _ hne,
      FMap.get_modify_ne _ _ hne]
    show ((∅ : FMap ProposalId PendingSwap).insert
      (proposalId Prims.plain (offerOf 3)) _).get k = none
    rw [FMap.get_insert_ne _ _ hne]
    rfl

theorem crampedDone_picks (data : List UInt8) :
    ∃ retId, pickReturn (quietEnv 43 200) (offerOf 4) (crampedDone data)
      = some retId := by
  cases hpick : pickReturn (quietEnv 43 200) (offerOf 4)
      (crampedDone data) with
  | some retId => exact ⟨retId, rfl⟩
  | none =>
      have hget : (crampedDone data).chunkHolder.chunks.get
          (Bytes.fill 32 9) = some [] := by
        show ((FMap.insert (∅ : FMap ChunkId (List UInt8)) (Bytes.fill 32 9)
          []).insert (Bytes.fill 32 3) data).get _ = _
        rw [FMap.get_insert_ne _ _ (by decide), FMap.get_insert_self]
      have hno := IterOrder.find_none (Option.map_eq_none_iff.1 hpick) hget
      exact absurd hno (by decide)

/-- The second swap's entry. -/
def secondEntry (retId : ChunkId) : PendingSwap :=
  accepterEntry Prims.plain (offerOf 4) retId ENCRYPTED_CHUNK_SIZE 200

/-- The node after the stale snapshot: the second offer has found room. -/
def crampedStale (data : List UInt8) (retId : ChunkId) : TransportState :=
  prepared Prims.plain (quietEnv 43 200) (offerOf 4) retId
    ENCRYPTED_CHUNK_SIZE
    ((crampedDone data).updCapacity fun cap => cap.reconcile 0)

theorem post_crampedStale {data : List UInt8} {retId : ChunkId}
    (hpick : pickReturn (quietEnv 43 200) (offerOf 4) (crampedDone data)
      = some retId) :
    (afterSnapshot Prims.plain (quietEnv 43 200) (offerOf 4) 0).post
      (crampedDone data) = crampedStale data retId := by
  have hdec : decideOnSwap Prims.plain (offerOf 4)
      ((crampedDone []).storageCapacity.reconcile 0)
      (((crampedDone []).peerChunkCounts.get (Bytes.fill 16 1)).getD 0)
      ENCRYPTED_CHUNK_SIZE 200 = .ok () := by decide
  have hlen : (crampedDone []).swapState.pendingSwaps.len
      < MAX_PENDING_SWAPS := by decide
  exact post_afterSnapshot hdec hpick hlen

/-- The second is opened on the stale count, -/
theorem crampedStale_get (data : List UInt8) (retId : ChunkId) :
    (crampedStale data retId).swapState.pendingSwaps.get
      (proposalId Prims.plain (offerOf 4)) = some (secondEntry retId) := by
  show (FMap.insert _ _ _).get _ = _
  exact FMap.get_insert_self _ _ _

/-- and gets its chunk. -/
theorem post_secondChunk {data : List UInt8} (retId : ChunkId)
    (hsize : data.length = ENCRYPTED_CHUNK_SIZE) :
    (SwapEvent.program Prims.plain
        (.retrieval (quietEnv 45 200) (Bytes.fill 32 4) data)).post
      (crampedStale data retId)
      = buffered (proposalId Prims.plain (offerOf 4)) data
          (crampedStale data retId) := by
  have hfind : findAwaiting (quietEnv 45 200) (Bytes.fill 32 4)
      (crampedStale data retId) = some (secondEntry retId) := by
    unfold findAwaiting
    rw [IterOrder.find_unique (crampedStale_get data retId) (by rfl)]
    · rfl
    · intro k' v' hget _
      by_contra hne
      change ((crampedDone data).swapState.pendingSwaps.insert
        (proposalId Prims.plain (offerOf 4)) _).get k' = some v' at hget
      rw [FMap.get_insert_ne _ _ hne, crampedDone_pending] at hget
      cases hget
  exact post_retrieval_waiting hsize hfind rfl
    (crampedStale_get data retId) rfl rfl

/-- The second swap is finalized on top of the first. -/
theorem post_secondCommit {data : List UInt8} (retId : ChunkId)
    (hsize : data.length = ENCRYPTED_CHUNK_SIZE) :
    ((SwapEvent.program Prims.plain
        (.commit (quietEnv 46 200) (commitOf 4))).post
      (buffered (proposalId Prims.plain (offerOf 4)) data
        (crampedStale data retId))).storageCapacity.maxBytes
        = ENCRYPTED_CHUNK_SIZE
      ∧ ((SwapEvent.program Prims.plain
          (.commit (quietEnv 46 200) (commitOf 4))).post
        (buffered (proposalId Prims.plain (offerOf 4)) data
          (crampedStale data retId))).chunkHolder.totalBytes
        = 2 * ENCRYPTED_CHUNK_SIZE := by
  have hauth : ((commitOf 4).verifySignature Prims.plain
      && authentic (quietEnv 46 200) (Bytes.fill 16 1) (Bytes.fill 32 1)
        (Bytes.fill 32 4)
        (buffered (proposalId Prims.plain (offerOf 4)) data
          (crampedStale data retId))) = true := by
    rw [authentic_congr (buffered (proposalId Prims.plain (offerOf 4)) data
      (crampedStale data retId)) (crampedDone []) rfl rfl]
    decide
  have hget : (buffered (proposalId Prims.plain (offerOf 4)) data
      (crampedStale data retId)).swapState.pendingSwaps.get
        (proposalId Prims.plain (offerOf 4))
      = some { secondEntry retId with
          theirChunkData := data
          receivedTheirChunk := true
          sentCommit := true } := by
    show (((crampedStale data retId).swapState.pendingSwaps.modify _
      _).modify _ _).get _ = _
    rw [FMap.get_modify_self, FMap.get_modify_self, crampedStale_get]
    rfl
  have hpost := post_commit_ready hauth hget rfl rfl rfl rfl
  rw [hpost]
  refine ⟨rfl, ?_⟩
  show ((oneChunkHolder.addChunk (Bytes.fill 32 3) data
    (Bytes.zero 32)).addChunk (Bytes.fill 32 4) data
      (Bytes.zero 32)).totalBytes = _
  rw [totalBytes_addChunk rfl, totalBytes_addChunk rfl, hsize]
  rfl

/-- The proposal handler for a second offer reads an empty holder, a
first swap is stored and accounted for, and the handler writes its stale
zero: a second chunk is accepted where there was room for one. -/
theorem overcommit_by_stale_snapshot :
    crampedNode.chunkHolder.totalBytes
        = crampedNode.storageCapacity.currentBytes
      ∧ crampedNode.storageCapacity.currentBytes
          + crampedNode.storageCapacity.reservedBytes
        ≤ crampedNode.storageCapacity.maxBytes
      ∧ ∃ s ps tr, Reach (IsHandler Prims.plain) (fun _ _ => True)
          crampedNode s ps tr
        ∧ s.storageCapacity.maxBytes < s.chunkHolder.totalBytes := by
  refine ⟨by decide, by decide, ?_⟩
  have hsize : (List.replicate ENCRYPTED_CHUNK_SIZE (0 : UInt8)).length
      = ENCRYPTED_CHUNK_SIZE := List.length_replicate
  generalize List.replicate ENCRYPTED_CHUNK_SIZE (0 : UInt8) = data
    at hsize
  have hall : ∀ (l : Act) (s : TransportState), True := fun _ _ => trivial
  -- the first offer and its chunk
  obtain ⟨tr₁, h₁, -⟩ := Reach.sequential (H := IsHandler Prims.plain)
    (C := fun _ _ => True) hall
    ⟨.proposal (quietEnv 41 200) (offerOf 3), rfl⟩
    (Reach.init : Reach _ _ crampedNode crampedNode [] [])
  rw [post_crampedOpen] at h₁
  obtain ⟨tr₂, h₂, -⟩ := h₁.sequential hall
    ⟨.retrieval (quietEnv 42 200) (Bytes.fill 32 3) data, rfl⟩
  rw [post_crampedChunk hsize] at h₂
  -- the second offer's handler up to its snapshot of the holder
  have h₃ := h₂.spawn (handleMaintenanceProposal Prims.plain
    (quietEnv 43 200) (offerOf 4)) ⟨.proposal (quietEnv 43 200) (offerOf 4),
    rfl⟩
  rw [handleMaintenanceProposal_eq] at h₃
  have h₄ := Reach.exec [] _ Act.activity
    (note (quietEnv 43 200) (Bytes.fill 16 1)) _ h₃ trivial
  have h₅ := Reach.exec [] _ Act.holder id
    (fun s => afterSnapshot Prims.plain (quietEnv 43 200) (offerOf 4)
      s.chunkHolder.totalBytes) h₄ trivial
  have hempty : ((crampedChunk data).note (quietEnv 43 200)
      (Bytes.fill 16 1)).chunkHolder.totalBytes = 0 := rfl
  -- the first swap is finalized in between
  obtain ⟨tr₆, h₆, -⟩ := h₅.sequential hall
    ⟨.commit (quietEnv 44 200) (commitOf 3), rfl⟩
  rw [id_eq, post_crampedDone] at h₆
  -- the handler goes on with its stale snapshot
  obtain ⟨retId, hpick⟩ := crampedDone_picks data
  obtain ⟨tr₇, h₇, -⟩ := Reach.drain hall _ _ [pure ()] _ _ h₆
  rw [hempty, post_crampedStale hpick] at h₇
  -- the second chunk and its commit
  obtain ⟨tr₈, h₈, -⟩ := h₇.sequential hall
    ⟨.retrieval (quietEnv 45 200) (Bytes.fill 32 4) data, rfl⟩
  rw [post_secondChunk retId hsize] at h₈
  obtain ⟨tr₉, h₉, -⟩ := h₈.sequential hall
    ⟨.commit (quietEnv 46 200) (commitOf 4), rfl⟩
  refine ⟨_, _, _, h₉, ?_⟩
  obtain ⟨hmax, htotal⟩ := post_secondCommit retId hsize
  rw [hmax, htotal]
  decide

end StaticNet
