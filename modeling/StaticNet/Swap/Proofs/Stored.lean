/-
What a swap handler stores, and how it is entered in the books.

Three components of a transport state keep account of what is stored for
others: the holder itself, the counter of its bytes, and the number of
chunks per peer. A handler writes them only by finalizing a swap, apart
from the proposal handler, which reconciles the counter before it decides.

`completes` names the swap a call finalizes, from the state the call finds;
`books_step` is the whole effect of the call on the books.
-/
import StaticNet.Swap.Proofs.Reservation

namespace StaticNet

open Proc TransportState

-- ========= the books

/-- What keeps account of the stored chunks. -/
structure Books where
  chunkHolder : ChunkHolder
  currentBytes : Nat
  peerChunkCounts : FMap NodeId Nat

def TransportState.books (s : TransportState) : Books :=
  ⟨s.chunkHolder, s.storageCapacity.currentBytes, s.peerChunkCounts⟩

namespace Books

/-- Enter a finalized swap: a chunk that is held already changes nothing,
a new one is added, its reservation counted as stored, and its peer
charged. -/
def enter (b : Books) (swap : PendingSwap) : Books :=
  if b.chunkHolder.hasChunk swap.theirChunkId then b
  else
    { chunkHolder := b.chunkHolder.addChunk swap.theirChunkId
        swap.theirChunkData (Bytes.zero 32)
      currentBytes := b.currentBytes + swap.reservedBytes
      peerChunkCounts := b.peerChunkCounts.insert swap.peer
        ((b.peerChunkCounts.get swap.peer).getD 0 + 1) }

/-- Enter the swap if there is one. -/
def enterIf (b : Books) (swap : Option PendingSwap) : Books :=
  swap.elim b b.enter

@[simp] theorem enterIf_some (b : Books) (swap : PendingSwap) :
    b.enterIf (some swap) = b.enter swap := rfl

theorem enter_held {b : Books} {swap : PendingSwap}
    (h : b.chunkHolder.hasChunk swap.theirChunkId = true) :
    b.enter swap = b := if_pos h

theorem enter_new {b : Books} {swap : PendingSwap}
    (h : b.chunkHolder.hasChunk swap.theirChunkId = false) :
    b.enter swap
      = { chunkHolder := b.chunkHolder.addChunk swap.theirChunkId
            swap.theirChunkData (Bytes.zero 32)
          currentBytes := b.currentBytes + swap.reservedBytes
          peerChunkCounts := b.peerChunkCounts.insert swap.peer
            ((b.peerChunkCounts.get swap.peer).getD 0 + 1) } :=
  if_neg (ne_true_of_eq_false h)

end Books

-- ==== the swap entered

/-- The entry under an id, if it is ready to be finalized. -/
def readyAt (pid : ProposalId) (s : TransportState) : Option PendingSwap :=
  (s.swapState.getPendingSwap pid).filter PendingSwap.ready

/-- An entry once its peer's commit is in. -/
def PendingSwap.withCommit (swap : PendingSwap) : PendingSwap :=
  { swap with receivedCommit := true }

/-- An entry once its chunk is buffered and our commit is out. -/
def PendingSwap.withChunk (data : List UInt8) (swap : PendingSwap) :
    PendingSwap :=
  { swap with
    theirChunkData := data
    receivedTheirChunk := true
    sentCommit := true }

/-- The swap a commit finalizes: one that its sender has pending, and
that waits for nothing else. -/
def commitCompletes (P : Prims) (env : Env) (c : SwapCommit)
    (s : TransportState) : Option PendingSwap :=
  if c.verifySignature P
      && authentic env c.fromNode c.identityPublicKey c.nonce s then
    if pendingWith c.proposalId c.fromNode s then
      ((s.swapState.getPendingSwap c.proposalId).map
        PendingSwap.withCommit).filter PendingSwap.ready
    else none
  else none

/-- The swap a delivered chunk finalizes: the one it is for, if it passes
the gate and the peer's commit was first. -/
def retrievalCompletes (P : Prims) (env : Env) (chunkId : ChunkId)
    (data : List UInt8) (s : TransportState) : Option PendingSwap :=
  if data.length ≠ ENCRYPTED_CHUNK_SIZE then none
  else
    (findAwaiting env chunkId s).bind fun swap =>
      if passesGate P swap.contentRoot swap.merkleProof data then
        ((s.swapState.getPendingSwap swap.proposalId).map
          (PendingSwap.withChunk data)).filter PendingSwap.ready
      else none

/-- The swap a call finalizes, as it finds the state. -/
def SwapEvent.completes (P : Prims) (s : TransportState) :
    SwapEvent → Option PendingSwap
  | .commit env c => commitCompletes P env c s
  | .retrieval env chunkId data => retrievalCompletes P env chunkId data s
  | _ => none

/-- The books a call decides and finalizes on: the proposal handler has
reconciled the counter. -/
def SwapEvent.reconciles (b : Books) : SwapEvent → Books
  | .proposal _ _ => { b with currentBytes := b.chunkHolder.totalBytes }
  | _ => b

/-- The commit of the entry's own peer. -/
theorem commitCompletes_of_get {P : Prims} {env : Env} {c : SwapCommit}
    {s : TransportState} {swap : PendingSwap}
    (hauth : (c.verifySignature P && authentic env c.fromNode
      c.identityPublicKey c.nonce s) = true)
    (hget : s.swapState.pendingSwaps.get c.proposalId = some swap)
    (hpeer : swap.peer = c.fromNode) :
    commitCompletes P env c s
      = (some swap.withCommit).filter PendingSwap.ready := by
  unfold commitCompletes SwapState.getPendingSwap
  rw [if_pos hauth, if_pos (pendingWith_of_get hget hpeer), hget]
  rfl

/-- The chunk an entry waits for, when it passes the gate. -/
theorem retrievalCompletes_of_find {P : Prims} {env : Env}
    {chunkId : ChunkId} {data : List UInt8} {s : TransportState}
    {swap : PendingSwap} (hsize : data.length = ENCRYPTED_CHUNK_SIZE)
    (hfind : findAwaiting env chunkId s = some swap)
    (hgate : passesGate P swap.contentRoot swap.merkleProof data = true)
    (hget : s.swapState.pendingSwaps.get swap.proposalId = some swap) :
    retrievalCompletes P env chunkId data s
      = (some (swap.withChunk data)).filter PendingSwap.ready := by
  unfold retrievalCompletes SwapState.getPendingSwap
  rw [if_neg (not_not.2 hsize), hfind, Option.bind_some, if_pos hgate, hget]
  rfl

-- ==== what the parts do

variable {P : Prims} {env : Env} {s : TransportState} {pid : ProposalId}

theorem readyAt_modify (pid : ProposalId) (f : PendingSwap → PendingSwap)
    (s : TransportState) :
    readyAt pid (s.updSwaps fun st => st.modifyPending pid f)
      = ((s.swapState.getPendingSwap pid).map f).filter
          PendingSwap.ready := by
  show ((s.swapState.pendingSwaps.modify pid f).get pid).filter _ = _
  rw [FMap.get_modify_self]
  rfl

theorem books_abortAndRelease :
    ((abortAndRelease pid).post s).books = s.books := by
  cases hget : s.swapState.pendingSwaps.get pid with
  | none => rw [post_abortAndRelease_absent hget]
  | some swap =>
      rw [post_abortAndRelease hget]
      rfl

/-- Finalizing enters the entry, if it is ready. -/
theorem books_finalize (pid : ProposalId) (s : TransportState) :
    ((finalizeSwapIfReady pid).post s).books
      = s.books.enterIf (readyAt pid s) := by
  cases hready : readyAt pid s with
  | none =>
      have hwait : (s.swapState.getPendingSwap pid).any PendingSwap.ready
          = false := by
        rw [readyAt, Option.filter_eq_none_iff] at hready
        cases hget : s.swapState.getPendingSwap pid with
        | none => rfl
        | some swap => exact Bool.eq_false_iff.2 (hready swap hget)
      rw [(run_finalize_waiting hwait).1]
      rfl
  | some swap =>
      obtain ⟨hget, hflags⟩ := Option.filter_eq_some_iff.1 hready
      rw [Books.enterIf_some]
      cases hheld : s.chunkHolder.hasChunk swap.theirChunkId with
      | true =>
          rw [post_finalize_held hget hflags hheld,
            Books.enter_held hheld]
          rfl
      | false =>
          rw [(run_finalize_ready hget hflags hheld).1,
            Books.enter_new hheld]
          rfl

theorem books_releaseExpired (l : List PendingSwap) (draw : Nat)
    (s : TransportState) :
    ((releaseExpired P env draw l).post s).books = s.books := by
  induction l generalizing draw s with
  | nil => rfl
  | cons swap rest ih =>
      unfold releaseExpired
      rw [post_bind, post_bind, post_sendAbort, ih, post_write]
      rfl

/-- The prepare phase registers and reserves. -/
theorem books_prepareSwap (p : SwapProposal) (size n : Nat) :
    ((prepareSwap P env p size n).post s).books = s.books := by
  unfold prepareSwap tryReserve
  rw [post_bind, out_read, post_read]
  cases pickReturn env p s with
  | none => rfl
  | some retId =>
      by_cases hfull : MAX_PENDING_SWAPS ≤ s.swapState.pendingSwaps.len
      · simp only [post_bind, out_read, post_read, hfull, if_true]
        rfl
      · cases hroom : s.storageCapacity.canAccept size n with
        | false =>
            simp only [post_bind, out_read, post_read, hfull, if_false,
              out_atom, post_atom, hroom, Bool.false_eq_true]
            rfl
        | true =>
            simp only [post_bind, out_read, post_read, hfull, if_false,
              out_atom, post_atom, hroom, if_true]
            rfl

theorem books_adoptAccept (a : SwapAccept) (size : Nat)
    (s : TransportState) :
    ((adoptAccept P env a size).post s).books = s.books := by
  cases hpeer : pendingWith a.proposalId a.fromNode s with
  | false => rw [post_adoptAccept_foreign P env hpeer]
  | true =>
      cases hroom : s.storageCapacity.canAccept size 0 with
      | false =>
          rw [post_adoptAccept_full P env hpeer hroom]
          exact books_abortAndRelease
      | true =>
          rw [(run_adoptAccept P env hpeer hroom).1]
          rfl

theorem books_abortPending (a : SwapAbort) (s : TransportState) :
    ((abortPending a).post s).books = s.books := by
  unfold abortPending
  rw [post_bind, out_read, post_read]
  split
  · rfl
  · exact books_abortAndRelease

/-- A commit of the entry's peer is marked, then the entry finalized. -/
theorem books_commitPending (c : SwapCommit) (s : TransportState) :
    ((commitPending c).post s).books
      = s.books.enterIf
          (if pendingWith c.proposalId c.fromNode s then
            ((s.swapState.getPendingSwap c.proposalId).map
              PendingSwap.withCommit).filter PendingSwap.ready
          else none) := by
  cases hpeer : pendingWith c.proposalId c.fromNode s with
  | false =>
      unfold commitPending
      rw [post_bind, out_read, post_read, hpeer]
      rfl
  | true =>
      have hmarked := readyAt_modify c.proposalId PendingSwap.withCommit s
      rw [if_pos rfl, (run_commitPending c hpeer).1, books_finalize,
        ← hmarked]
      rfl

/-- After the chunk is buffered the entry is finalized, if it is
ready. -/
theorem books_commitRetrieved (peer : NodeId) :
    ((commitRetrieved P env pid peer).post s).books
      = s.books.enterIf
          (((s.swapState.getPendingSwap pid).map fun swap =>
            { swap with sentCommit := true }).filter
              PendingSwap.ready) := by
  rw [post_commitRetrieved, books_finalize, readyAt, claimCommit_pending,
    view_claimCommit books fun _ => rfl]

/-- A delivered chunk: the entry it is for, if it passes the gate and is
ready with it, is finalized. -/
theorem books_retrieval (chunkId : ChunkId) (data : List UInt8) :
    ((handleSwapChunkRetrieval P env chunkId data).post s).books
      = s.books.enterIf
          (retrievalCompletes P env chunkId data s) := by
  unfold handleSwapChunkRetrieval retrievalCompletes
  by_cases hsize : data.length ≠ ENCRYPTED_CHUNK_SIZE
  · rw [if_pos hsize, if_pos hsize]
    rfl
  rw [if_neg hsize, if_neg hsize, post_bind, out_read, post_read]
  cases hfind : findAwaiting env chunkId s with
  | none => rfl
  | some swap =>
      simp only [Option.bind_some]
      cases hgate : passesGate P swap.contentRoot swap.merkleProof
          data with
      | false =>
          simp only [Bool.not_false, if_true, post_bind, post_sendAbort,
            post_pure, Bool.false_eq_true, if_false]
          exact books_abortAndRelease
      | true =>
          simp only [Bool.not_true, Bool.false_eq_true, if_false, if_true]
          unfold bufferRetrieved
          rw [post_bind, out_atom, post_atom]
          unfold SwapState.receiveTheirChunk
          cases hget : s.swapState.pendingSwaps.get swap.proposalId with
          | none =>
              have hget' : s.swapState.getPendingSwap swap.proposalId
                  = none := hget
              rw [hget']
              rfl
          | some entry =>
              have hget' : s.swapState.getPendingSwap swap.proposalId
                  = some entry := hget
              have hbuf : (s.swapState.modifyPending swap.proposalId
                  fun swap => { swap with
                    theirChunkData := data
                    receivedTheirChunk := true }).getPendingSwap
                      swap.proposalId
                  = some { entry with
                      theirChunkData := data
                      receivedTheirChunk := true } := by
                show (s.swapState.pendingSwaps.modify swap.proposalId
                  _).get swap.proposalId = _
                rw [FMap.get_modify_self, hget]
                rfl
              simp only [Option.isSome_some, Bool.not_true,
                Bool.false_eq_true, if_false]
              rw [books_commitRetrieved, hbuf, hget']
              rfl

-- ========= one event

/-- A signed message is entered as its body enters it, where it is acted
on. -/
theorem books_signedMessage {sender : NodeId} {verified : Bool}
    {identity nonce : Bytes 32} {body : Handler Unit}
    {entered : Option PendingSwap}
    (hbody : (body.post (heard env sender nonce s)).books
      = s.books.enterIf entered) :
    ((signedMessage env sender verified identity nonce body).post s).books
      = s.books.enterIf
          (if verified && authentic env sender identity nonce s then entered
          else none) := by
  rw [view_signedMessage books (fun _ => rfl) body]
  split
  · exact hbody
  · rfl

/-- A signed message whose body leaves the books alone leaves them
alone. -/
theorem books_signedMessage_same {sender : NodeId} {verified : Bool}
    {identity nonce : Bytes 32} {body : Handler Unit}
    (hbody : ∀ s', (body.post s').books = s'.books) :
    ((signedMessage env sender verified identity nonce body).post s).books
      = s.books := by
  have h : ((signedMessage env sender verified identity nonce
      body).post s).books = s.books.enterIf (ite _ none none) :=
    books_signedMessage (hbody (heard env sender nonce s))
  rw [ite_self] at h
  exact h

/-- The proposal handler reconciles the counter; it finalizes nothing. -/
theorem books_proposal (p : SwapProposal) :
    ((handleMaintenanceProposal P env p).post s).books
      = { s.books with currentBytes := s.chunkHolder.totalBytes } := by
  rw [post_proposal]
  split
  next => exact books_prepareSwap p _ _
  next => rfl

/-- What a call of a swap handler does to the books: it enters the swap it
finalizes. -/
theorem books_step (P : Prims) (s : TransportState) (e : SwapEvent) :
    (e.step P s).books
      = (e.reconciles s.books).enterIf (e.completes P s) := by
  cases e with
  | propose env peer p => rfl
  | proposal env p => exact books_proposal p
  | accept env a =>
      exact books_signedMessage_same fun s' => books_adoptAccept a _ s'
  | commit env c =>
      exact books_signedMessage
        (books_commitPending c (heard env c.fromNode c.nonce s))
  | abort env a =>
      exact books_signedMessage_same fun s' => books_abortPending a s'
  | retrieval env chunkId data =>
      unfold SwapEvent.step SwapEvent.program
      rw [post_bind, post_pure]
      exact books_retrieval chunkId data
  | expire env =>
      unfold SwapEvent.step SwapEvent.program expirePendingSwaps
      rw [post_bind, post_pure, post_bind, out_atom, post_atom, post_bind,
        post_pure, books_releaseExpired]
      rfl

end StaticNet
