/-
What a message of a third party can do to a pending swap.

Accepts, commits and aborts are bound to their sender twice: the key they
present must be the one pinned for the claimed sender, and the claimed
sender must be the swap's peer. A message that claims the peer without
its key, or speaks for another node, therefore never reaches the entry.

A proposal is bound to nobody. Its signature is checked under a key it
carries itself, and its id leaves that key, the renewal token and the
Merkle proof out. Whoever has seen a proposal can sign its four visible
fields with a key of their own and gets another proposal with the same
id; a node that would open it replaces the pending entry and reserves
once more.

The holder is the one thing a third party's message may rightly change:
a commit of another peer that finalizes a swap of its own.
-/
import StaticNet.Swap.Proofs.Redelivery

namespace StaticNet

open Proc TransportState

-- ==== foreign messages

/-- The message is not from the owner of `K`, the peer of the swap: an
accept, commit or abort that claims another sender or is not signed under
`K`, or any proposal. -/
def Foreign (P : Prims) (K : Bytes 32) (peer : NodeId) :
    SwapEvent → Prop
  | .proposal _ _ => True
  | .accept _ a => a.fromNode ≠ peer
      ∨ P.edCheck K a.signingBytes a.signature = false
  | .commit _ c => c.fromNode ≠ peer
      ∨ P.edCheck K c.signingBytes c.signature = false
  | .abort _ a => a.fromNode ≠ peer
      ∨ P.edCheck K a.signingBytes a.signature = false
  | _ => False

/-- The id a message names. -/
def SwapEvent.namedId (P : Prims) : SwapEvent → Option ProposalId
  | .proposal _ p => some (proposalId P p)
  | .accept _ a => some a.proposalId
  | .commit _ c => some c.proposalId
  | .abort _ a => some a.proposalId
  | _ => none

/-- The pending swap of the commit's sender that lacks only this commit
and whose chunk is not held yet. -/
def lacking (c : SwapCommit) (s : TransportState) : Option PendingSwap :=
  (s.swapState.getPendingSwap c.proposalId).filter fun swap =>
    swap.peer == c.fromNode && swap.sentCommit && swap.receivedTheirChunk
      && !s.chunkHolder.hasChunk swap.theirChunkId

/-- The swap a message finalizes: one of its own authenticated
sender. -/
def SwapEvent.finalizes (P : Prims) (s : TransportState) :
    SwapEvent → Option PendingSwap
  | .commit env c =>
      if c.verifySignature P
          && authentic env c.fromNode c.identityPublicKey c.nonce s then
        lacking c s
      else none
  | _ => none

/-- The holder after a swap is finalized, if one is. -/
def holding (h : ChunkHolder) : Option PendingSwap → ChunkHolder
  | some swap =>
      h.addChunk swap.theirChunkId swap.theirChunkData (Bytes.zero 32)
  | none => h

/-- The pending swap, its reservation and the holder after a message of
somebody else. A message that names the swap leaves the counter; one
that names another may move it by that swap's own reservation, which
keeps it covering all of them. The holder gains the chunk of the swap
the message finalizes, if it does. -/
structure Untouched (P : Prims) (pid : ProposalId) (e : SwapEvent)
    (s s' : TransportState) : Prop where
  entry : s'.swapState.pendingSwaps.get pid
    = s.swapState.pendingSwaps.get pid
  counter : e.namedId P = some pid →
    s'.storageCapacity.reservedBytes = s.storageCapacity.reservedBytes
  covered : promisedTo s ≤ s.storageCapacity.reservedBytes →
    promisedTo s' ≤ s'.storageCapacity.reservedBytes
  holder : s'.chunkHolder = holding s.chunkHolder (e.finalizes P s)

variable {P : Prims} {env : Env} {s s' : TransportState}
  {pid pid' : ProposalId} {swap : PendingSwap} {e : SwapEvent}
  {K : Bytes 32} {known : KnownNode}

-- ========= proposals

/-- A proposal with another id leaves the entry alone. -/
theorem get_proposal_other (p : SwapProposal)
    (hne : proposalId P p ≠ pid) :
    ((handleMaintenanceProposal P env p).post
        s).swapState.pendingSwaps.get pid
      = s.swapState.pendingSwaps.get pid := by
  cases hopens : opens P env p s with
  | false => rw [((proposal_unchanged_iff p).2 hopens).1]
  | true =>
      obtain ⟨retId, -, hpost, -⟩ := run_proposal hopens
      rw [hpost]
      exact FMap.get_insert_ne _ _ (Ne.symm hne)

theorem covered_proposal (p : SwapProposal)
    (h : promisedTo s ≤ s.storageCapacity.reservedBytes) :
    promisedTo ((handleMaintenanceProposal P env p).post s)
      ≤ ((handleMaintenanceProposal P env
          p).post s).storageCapacity.reservedBytes := by
  cases hopens : opens P env p s with
  | false =>
      obtain ⟨hpending, hreserved, -⟩ :=
        (proposal_unchanged_iff p).2 hopens
      unfold promisedTo at h ⊢
      rw [hpending, hreserved]
      exact h
  | true =>
      obtain ⟨retId, -, hpost, -⟩ := run_proposal hopens
      rw [hpost]
      have hstart := promisedTo_start s
        (accepterEntry P p retId ENCRYPTED_CHUNK_SIZE env.now)
      have hstart : promisedTo (prepared P env p retId
          ENCRYPTED_CHUNK_SIZE (reconciled env p s))
          ≤ promisedTo s + ENCRYPTED_CHUNK_SIZE := hstart
      show _ ≤ s.storageCapacity.reservedBytes + ENCRYPTED_CHUNK_SIZE
      omega

theorem untouched_proposal (p : SwapProposal)
    (h : proposalId P p = pid → opens P env p s = false) :
    Untouched P pid (.proposal env p) s
      (SwapEvent.step P s (.proposal env p)) := by
  refine ⟨?_, ?_, covered_proposal p, proposal_chunkHolder p⟩
  · by_cases hid : proposalId P p = pid
    · exact congrArg (fun m => m.get pid)
        ((proposal_unchanged_iff p).2 (h hid)).1
    · exact get_proposal_other p hid
  · intro hnamed
    exact ((proposal_unchanged_iff p).2 (h (Option.some.inj hnamed))).2.1

-- ==== signed messages

/-- A message that is acted on and that is not the peer's speaks for
another sender: the pinned key leaves no other way. -/
theorem sender_of_foreign {sender peer : NodeId} {msg sig : List UInt8}
    {identity nonce : Bytes 32}
    (hroute : s.routingTable.get peer = some known)
    (hpin : known.identityPublicKey = some K)
    (hforeign : sender ≠ peer ∨ P.edCheck K msg sig = false)
    (hauth : (P.edCheck identity msg sig
      && authentic env sender identity nonce s) = true) :
    sender ≠ peer := by
  rintro rfl
  rw [Bool.and_eq_true] at hauth
  obtain ⟨hsigned, hauth⟩ := hauth
  unfold authentic at hauth
  have hpinned := (Bool.and_eq_true _ _ ▸ hauth).1
  unfold pinnedKeyOk checkMaintenanceSender at hpinned
  rw [out_read, hroute] at hpinned
  dsimp only at hpinned
  rw [hpin] at hpinned
  obtain rfl : K = identity := beq_iff_eq.1 hpinned
  rcases hforeign with hne | hunsigned
  · exact hne rfl
  · rw [hunsigned] at hsigned
    cases hsigned

/-- A swap pending with the sender is not the one pending with somebody
else. -/
theorem other_of_pendingWith {sender : NodeId}
    (hget : s.swapState.pendingSwaps.get pid = some swap)
    (hsender : sender ≠ swap.peer)
    (hwith : pendingWith pid' sender s = true) : pid' ≠ pid := by
  rintro rfl
  unfold pendingWith SwapState.getPendingSwap at hwith
  rw [hget] at hwith
  exact hsender (beq_iff_eq.1 hwith).symm

/-- What the body of a signed message may do: the entry stays, and
reservations stay covered. -/
structure Spares (pid : ProposalId) (s s' : TransportState) : Prop where
  entry : s'.swapState.pendingSwaps.get pid
    = s.swapState.pendingSwaps.get pid
  covered : promisedTo s ≤ s.storageCapacity.reservedBytes →
    promisedTo s' ≤ s'.storageCapacity.reservedBytes

theorem spares_abortAndRelease (hne : pid' ≠ pid) :
    Spares pid s ((abortAndRelease pid').post s) := by
  cases hget : s.swapState.pendingSwaps.get pid' with
  | none =>
      rw [post_abortAndRelease_absent hget]
      exact ⟨rfl, id⟩
  | some swap =>
      rw [post_abortAndRelease hget]
      have habort := (abortSwap_of_get hget).2.1
      constructor
      · show (s.swapState.abortSwap pid').2.pendingSwaps.get pid = _
        rw [habort, FMap.get_erase_ne _ (Ne.symm hne)]
      · intro hcovered
        have herase := promisedTo_erase
          (f := fun st => (st.abortSwap pid').2) hget habort
        show promisedTo (s.updSwaps fun st => (st.abortSwap pid').2)
          ≤ s.storageCapacity.reservedBytes - swap.reservedBytes
        omega

theorem spares_adoptAccept {a : SwapAccept} {size : Nat}
    (hother : pendingWith a.proposalId a.fromNode s = true →
      a.proposalId ≠ pid) :
    Spares pid s ((adoptAccept P env a size).post s) := by
  cases hwith : pendingWith a.proposalId a.fromNode s with
  | false =>
      rw [post_adoptAccept_foreign P env hwith]
      exact ⟨rfl, id⟩
  | true =>
      cases hroom : s.storageCapacity.canAccept size 0 with
      | false =>
          rw [post_adoptAccept_full P env hwith hroom]
          exact spares_abortAndRelease (hother hwith)
      | true =>
          rw [(run_adoptAccept P env hwith hroom).1]
          constructor
          · exact FMap.get_modify_ne _ _ (Ne.symm (hother hwith))
          · intro hcovered
            have hadopt := promisedTo_adopt s a size
            have hadopt : promisedTo (adopted a size s)
                ≤ promisedTo s + size := hadopt
            show _ ≤ s.storageCapacity.reservedBytes + size
            omega

/-- Finalizing a swap completes it or does nothing. -/
theorem spares_finalize (hne : pid' ≠ pid) :
    Spares pid s ((finalizeSwapIfReady pid').post s) := by
  have hcompleted {swap : PendingSwap} {s' : TransportState}
      (hget : s.swapState.pendingSwaps.get pid' = some swap)
      (hswaps : s'.swapState = (s.swapState.completeSwap pid').2)
      (hreserved : s'.storageCapacity.reservedBytes
        = s.storageCapacity.reservedBytes - swap.reservedBytes) :
      Spares pid s s' := by
    have hcomplete := (completeSwap_of_get hget).2.1
    constructor
    · rw [hswaps, hcomplete, FMap.get_erase_ne _ (Ne.symm hne)]
    · intro hcovered
      have herase := promisedTo_erase
        (f := fun st => (st.completeSwap pid').2) hget hcomplete
      have hpromised : promisedTo s' = promisedTo
          (s.updSwaps fun st => (st.completeSwap pid').2) := by
        unfold promisedTo
        rw [hswaps]
        rfl
      omega
  cases hready : (s.swapState.getPendingSwap pid').any
      PendingSwap.ready with
  | false =>
      rw [(run_finalize_waiting hready).1]
      exact ⟨rfl, id⟩
  | true =>
      obtain ⟨swap, hget, hready⟩ := (Option.any_eq_true _ _).1 hready
      cases hheld : s.chunkHolder.hasChunk swap.theirChunkId with
      | true =>
          rw [post_finalize_held hget hready hheld]
          exact hcompleted hget rfl rfl
      | false =>
          rw [(run_finalize_ready hget hready hheld).1]
          exact hcompleted hget rfl rfl

/-- The holder gains a finalized swap's chunk, if it is new. -/
theorem chunkHolder_finalize :
    ((finalizeSwapIfReady pid).post s).chunkHolder
      = holding s.chunkHolder
          ((s.swapState.getPendingSwap pid).filter fun swap =>
            swap.ready && !s.chunkHolder.hasChunk swap.theirChunkId) := by
  cases hget : s.swapState.pendingSwaps.get pid with
  | none =>
      have hwait : (s.swapState.getPendingSwap pid).any
          PendingSwap.ready = false := by
        unfold SwapState.getPendingSwap
        rw [hget]
        rfl
      rw [(run_finalize_waiting hwait).1]
      unfold SwapState.getPendingSwap
      rw [hget]
      rfl
  | some swap =>
      have hentry : s.swapState.getPendingSwap pid = some swap := hget
      rw [hentry]
      cases hready : swap.ready with
      | false =>
          have hwait : (s.swapState.getPendingSwap pid).any
              PendingSwap.ready = false := by
            rw [hentry]
            exact hready
          rw [(run_finalize_waiting hwait).1]
          simp [Option.filter, hready, holding]
      | true =>
          cases hheld : s.chunkHolder.hasChunk swap.theirChunkId with
          | true =>
              rw [post_finalize_held hget hready hheld]
              simp [Option.filter, hready, hheld, holding]
          | false =>
              rw [(run_finalize_ready hget hready hheld).1]
              simp [Option.filter, hready, hheld, holding, finalized]

theorem post_commitPending_ignored {c : SwapCommit}
    (hwith : pendingWith c.proposalId c.fromNode s = false) :
    (commitPending c).post s = s := by
  unfold commitPending
  rw [post_bind, out_read, post_read, hwith]
  rfl

theorem spares_commitPending {c : SwapCommit}
    (hother : pendingWith c.proposalId c.fromNode s = true →
      c.proposalId ≠ pid) :
    Spares pid s ((commitPending c).post s) := by
  cases hwith : pendingWith c.proposalId c.fromNode s with
  | false =>
      rw [post_commitPending_ignored hwith]
      exact ⟨rfl, id⟩
  | true =>
      rw [(run_commitPending c hwith).1]
      have hne := hother hwith
      obtain ⟨hentry, hcovered⟩ := spares_finalize
        (s := s.updSwaps fun st => st.markCommitReceived c.proposalId) hne
      constructor
      · rw [hentry]
        exact FMap.get_modify_ne _ _ (Ne.symm hne)
      · intro h
        refine hcovered ?_
        have hflag : promisedTo (s.updSwaps fun st =>
            st.markCommitReceived c.proposalId) = promisedTo s :=
          promisedTo_modify fun _ => rfl
        exact le_of_eq_of_le hflag h

theorem spares_abortPending {a : SwapAbort}
    (hother : pendingWith a.proposalId a.fromNode s = true →
      a.proposalId ≠ pid) :
    Spares pid s ((abortPending a).post s) := by
  unfold abortPending
  rw [post_bind, out_read, post_read]
  cases hwith : pendingWith a.proposalId a.fromNode s with
  | false => exact ⟨rfl, id⟩
  | true => exact spares_abortAndRelease (hother hwith)

-- ========== messages

/-- What a signed message about `pid'` leaves of the swap `pid`. -/
def SignedFrame (pid pid' : ProposalId) (s s' : TransportState) : Prop :=
  Spares pid s s' ∧ (pid' = pid →
    s'.storageCapacity.reservedBytes = s.storageCapacity.reservedBytes)

/-- The frame of a signed message around its body: acted on, the body
decides; ignored, nothing of the swap changes. -/
theorem untouched_signed {sender : NodeId} {msg sig : List UInt8}
    {identity nonce : Bytes 32} {body : Handler Unit}
    (hget : s.swapState.pendingSwaps.get pid = some swap)
    (hroute : s.routingTable.get swap.peer = some known)
    (hpin : known.identityPublicKey = some K)
    (hforeign : sender ≠ swap.peer ∨ P.edCheck K msg sig = false)
    (hbody : ∀ s₁ : TransportState,
      (pendingWith pid' sender s₁ = true → pid' ≠ pid) →
      Spares pid s₁ (body.post s₁)
        ∧ (pendingWith pid' sender s₁ = false →
          (body.post s₁).storageCapacity = s₁.storageCapacity)) :
    SignedFrame pid pid' s ((signedMessage env sender
      (P.edCheck identity msg sig) identity nonce body).post s) := by
  cases hauth : P.edCheck identity msg sig
      && authentic env sender identity nonce s with
  | false =>
      obtain ⟨cache, hpost⟩ := post_signedMessage_ignored body hauth
      rw [hpost]
      exact ⟨⟨rfl, id⟩, fun _ => rfl⟩
  | true =>
      rw [post_signedMessage hauth]
      have hsender := sender_of_foreign hroute hpin hforeign hauth
      have hother : pendingWith pid' sender (heard env sender nonce s)
          = true → pid' ≠ pid := other_of_pendingWith hget hsender
      obtain ⟨hspares, hcap⟩ := hbody (heard env sender nonce s) hother
      refine ⟨⟨hspares.entry, hspares.covered⟩, ?_⟩
      intro hsame
      cases hwith : pendingWith pid' sender (heard env sender nonce s) with
      | true => exact absurd hsame (hother hwith)
      | false => exact congrArg StorageCapacity.reservedBytes (hcap hwith)

/-- A commit from anyone but the peer lacks nothing. -/
theorem lacking_none {c : SwapCommit}
    (hwith : pendingWith c.proposalId c.fromNode s = false) :
    lacking c s = none := by
  unfold lacking
  rw [Option.filter_eq_none_iff]
  intro swap hget hall
  unfold pendingWith at hwith
  rw [hget] at hwith
  have hpeer : (swap.peer == c.fromNode) = false := hwith
  rw [hpeer] at hall
  cases hall

/-- The peer's commit makes ready what lacked only that. -/
theorem ready_marked {c : SwapCommit}
    (hwith : pendingWith c.proposalId c.fromNode s = true) :
    ((s.updSwaps fun st => st.markCommitReceived
        c.proposalId).swapState.getPendingSwap c.proposalId).filter
          (fun swap => swap.ready
            && !s.chunkHolder.hasChunk swap.theirChunkId)
      = (lacking c s).map fun swap =>
          { swap with receivedCommit := true } := by
  have hmarked : (s.updSwaps fun st => st.markCommitReceived
      c.proposalId).swapState.getPendingSwap c.proposalId
      = (s.swapState.getPendingSwap c.proposalId).map fun swap =>
        { swap with receivedCommit := true } :=
    FMap.get_modify_self _ _ _
  obtain ⟨swap, hget⟩ := pending_of_pendingWith hwith
  have hentry : s.swapState.getPendingSwap c.proposalId = some swap :=
    hget
  have hpeer : (swap.peer == c.fromNode) = true := by
    unfold pendingWith at hwith
    rw [hentry] at hwith
    exact hwith
  unfold lacking
  rw [hmarked, hentry]
  simp only [Option.filter, Option.map_some, PendingSwap.ready, hpeer,
    Bool.true_and, Bool.and_true]
  split <;> rfl

theorem chunkHolder_commitPending (c : SwapCommit) :
    ((commitPending c).post s).chunkHolder
      = holding s.chunkHolder (lacking c s) := by
  cases hwith : pendingWith c.proposalId c.fromNode s with
  | false => rw [post_commitPending_ignored hwith, lacking_none hwith]; rfl
  | true =>
      rw [(run_commitPending c hwith).1, chunkHolder_finalize]
      simp only [updSwaps_chunkHolder]
      rw [ready_marked hwith]
      cases lacking c s with
      | none => rfl
      | some swap => rfl

/-- The holder after a commit is handled. -/
theorem chunkHolder_commit (c : SwapCommit) :
    ((handleMaintenanceCommit P env c).post s).chunkHolder
      = holding s.chunkHolder
          (SwapEvent.finalizes P s (.commit env c)) := by
  show _ = holding s.chunkHolder (if c.verifySignature P
    && authentic env c.fromNode c.identityPublicKey c.nonce s then
      lacking c s else none)
  unfold handleMaintenanceCommit
  rw [view_signedMessage chunkHolder (fun _ => rfl) (commitPending c)]
  split
  · exact chunkHolder_commitPending c
  · rfl

/-- A message that is not from the peer of a pending swap leaves the
swap and its reservation as they are, and the holder too unless it is a
commit by which its own sender finalizes another swap. Proposals that
carry the id of the swap are covered as far as the node turns them
away. -/
theorem third_party_harmless (P : Prims) (s : TransportState)
    (pid : ProposalId) (swap : PendingSwap) (known : KnownNode)
    (K : Bytes 32) (e : SwapEvent)
    (hget : s.swapState.pendingSwaps.get pid = some swap)
    (hroute : s.routingTable.get swap.peer = some known)
    (hpin : known.identityPublicKey = some K)
    (hforeign : Foreign P K swap.peer e)
    (hrefused : ∀ env p, e = .proposal env p → proposalId P p = pid →
      opens P env p s = false) :
    Untouched P pid e s (e.step P s) := by
  cases e with
  | proposal env p =>
      exact untouched_proposal p (hrefused env p rfl)
  | accept env a =>
      obtain ⟨hspares, hcounter⟩ : SignedFrame pid a.proposalId s
          ((handleMaintenanceAccept P env a).post s) := untouched_signed
        hget hroute hpin hforeign fun s₁ hother =>
          ⟨spares_adoptAccept hother, fun hwith => by
            rw [post_adoptAccept_foreign P env hwith]⟩
      exact ⟨hspares.entry, fun h => hcounter (Option.some.inj h),
        hspares.covered,
        (sections_signedMessage (sections_adoptAccept a)).post_eq
          (fun s => s.chunkHolder) (fun _ _ _ h => h.1) s⟩
  | commit env c =>
      obtain ⟨hspares, hcounter⟩ : SignedFrame pid c.proposalId s
          ((handleMaintenanceCommit P env c).post s) := untouched_signed
        hget hroute hpin hforeign fun s₁ hother =>
          ⟨spares_commitPending hother, fun hwith => by
            unfold commitPending
            rw [post_bind, out_read, post_read, hwith]
            rfl⟩
      exact ⟨hspares.entry, fun h => hcounter (Option.some.inj h),
        hspares.covered, chunkHolder_commit c⟩
  | abort env a =>
      obtain ⟨hspares, hcounter⟩ : SignedFrame pid a.proposalId s
          ((handleMaintenanceAbort P env a).post s) := untouched_signed
        hget hroute hpin hforeign fun s₁ hother =>
          ⟨spares_abortPending hother, fun hwith => by
            unfold abortPending
            rw [post_bind, out_read, post_read, hwith]
            rfl⟩
      exact ⟨hspares.entry, fun h => hcounter (Option.some.inj h),
        hspares.covered,
        (sections_signedMessage (sections_abortPending a)).post_eq
          (fun s => s.chunkHolder) (fun _ _ _ h => h.1) s⟩
  | _ => exact hforeign.elim

-- ==== a forged proposal

/-- The node with the first offer pending, the offerer's key pinned, and
a swap with another peer that lacks only that peer's commit. -/
def pinnedNode : TransportState :=
  { onceOffered.updSwaps fun st => st.startPendingSwap
      { proposerEntry Prims.plain (Bytes.fill 16 8) offeredChunk 200 with
        proposalId := Bytes.fill 32 8
        theirChunkId := Bytes.fill 32 8
        receivedTheirChunk := true
        sentCommit := true } with
    routingTable :=
      (∅ : FMap NodeId KnownNode).insert (Bytes.fill 16 1)
        (knownPeer 1) }

/-- The entry of the first offer. -/
def pinnedEntry : PendingSwap :=
  accepterEntry Prims.plain offeredChunk (Bytes.fill 32 9)
    ENCRYPTED_CHUNK_SIZE 200

/-- The offer's visible fields, signed with another content key over
another master key. -/
def forgedOffer : SwapProposal :=
  createSwapProposal Prims.plain (Bytes.fill 16 1) (Bytes.fill 32 1)
    (Bytes.fill 32 13) 86400 100 (Bytes.fill 32 3) emptyProof
    (Bytes.fill 32 14) (some (Bytes.fill 32 14)) (Bytes.fill 32 6)

/-- The other peer's commit to its own swap. -/
def otherCommit : SwapCommit :=
  (createSwapCommit (Bytes.fill 32 8) (Bytes.fill 16 8)
    (Bytes.fill 32 11)).sign Prims.plain (Bytes.fill 32 8)
      (Bytes.fill 32 11)

/-- An abort in the offerer's name under the other peer's key. -/
def forgedAbort : SwapAbort :=
  (createSwapAbort (proposalId Prims.plain offeredChunk)
    (Bytes.fill 16 1) "" (Bytes.fill 32 12)).sign Prims.plain
      (Bytes.fill 32 8) (Bytes.fill 32 12)

theorem pinnedNode_get :
    pinnedNode.swapState.pendingSwaps.get
      (proposalId Prims.plain offeredChunk) = some pinnedEntry := by
  show ((FMap.insert _ (proposalId Prims.plain offeredChunk)
    pinnedEntry).insert (Bytes.fill 32 8) _).get _ = _
  rw [FMap.get_insert_ne _ _ (by decide), FMap.get_insert_self]

theorem pinnedNode_route :
    pinnedNode.routingTable.get pinnedEntry.peer
      = some (knownPeer 1) := FMap.get_insert_self _ _ _

theorem pinnedNode_opens :
    opens Prims.plain (quietEnv 7 210) forgedOffer pinnedNode = true := by
  have hpick : pickReturn (quietEnv 7 210) forgedOffer pinnedNode
      = some (Bytes.fill 32 9) := pickReturn_oneChunk (quietEnv 7 210) rfl
  unfold opens
  rw [hpick]
  decide

theorem pinnedNode_finalizes :
    SwapEvent.finalizes Prims.plain pinnedNode
      (.commit (quietEnv 7 210) otherCommit)
      = some { proposerEntry Prims.plain (Bytes.fill 16 8) offeredChunk
          200 with
        proposalId := Bytes.fill 32 8
        theirChunkId := Bytes.fill 32 8
        receivedTheirChunk := true
        sentCommit := true } := by decide

/-- The forged abort leaves the swap pending. -/
theorem third_party_harmless_abort :
    Untouched Prims.plain (proposalId Prims.plain offeredChunk)
      (.abort (quietEnv 7 210) forgedAbort) pinnedNode
      (SwapEvent.step Prims.plain pinnedNode
        (.abort (quietEnv 7 210) forgedAbort)) :=
  third_party_harmless Prims.plain pinnedNode
    (proposalId Prims.plain offeredChunk) pinnedEntry
    (knownPeer 1) (Bytes.fill 32 1) _ pinnedNode_get
    pinnedNode_route rfl (.inr (by decide)) nofun

/-- Two messages that are not the offerer's: a forged proposal replaces
the pending entry, and the commit of another peer, which finalizes that
peer's own swap, changes the holder. -/
theorem third_party_touches :
    pinnedNode.swapState.pendingSwaps.get
        (proposalId Prims.plain offeredChunk) = some pinnedEntry
      ∧ pinnedNode.routingTable.get pinnedEntry.peer
        = some (knownPeer 1)
      ∧ forgedOffer ≠ offeredChunk
      ∧ (SwapEvent.step Prims.plain pinnedNode
          (.proposal (quietEnv 7 210) forgedOffer)).swapState.pendingSwaps.get
            (proposalId Prims.plain offeredChunk) ≠ some pinnedEntry
      ∧ Foreign Prims.plain (Bytes.fill 32 1) pinnedEntry.peer
          (.commit (quietEnv 7 210) otherCommit)
      ∧ (SwapEvent.step Prims.plain pinnedNode
          (.commit (quietEnv 7 210) otherCommit)).chunkHolder
        ≠ pinnedNode.chunkHolder := by
  refine ⟨pinnedNode_get, pinnedNode_route, by decide, ?_,
    .inl (by decide), ?_⟩
  · obtain ⟨retId, -, hpost, -⟩ := run_proposal pinnedNode_opens
    have hid : proposalId Prims.plain forgedOffer
        = proposalId Prims.plain offeredChunk := by decide
    have hentry : (SwapEvent.step Prims.plain pinnedNode
        (.proposal (quietEnv 7 210) forgedOffer)).swapState.pendingSwaps.get
          (proposalId Prims.plain offeredChunk)
        = some (accepterEntry Prims.plain forgedOffer retId
          ENCRYPTED_CHUNK_SIZE 210) := by
      rw [← hid]
      show ((handleMaintenanceProposal Prims.plain (quietEnv 7 210)
        forgedOffer).post pinnedNode).swapState.pendingSwaps.get _ = _
      rw [hpost]
      exact FMap.get_insert_self _ _ _
    rw [hentry]
    intro hsame
    have hkey := congrArg PendingSwap.contentPubKey
      (Option.some.inj hsame)
    have hkey : (Bytes.fill 32 14 : Bytes 32) = Bytes.fill 32 4 := hkey
    exact absurd hkey (by decide)
  · intro hsame
    have hholder : (SwapEvent.step Prims.plain pinnedNode
        (.commit (quietEnv 7 210) otherCommit)).chunkHolder = _ :=
      chunkHolder_commit otherCommit
    rw [hholder, pinnedNode_finalizes] at hsame
    have hheld := congrArg (fun h => h.hasChunk (Bytes.fill 32 8)) hsame
    exact absurd hheld (by decide)

end StaticNet
