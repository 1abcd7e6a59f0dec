/-
The capacity counter and the holder, over a run: does `current_bytes` stay
`total_bytes()` without the periodic reconciliation?

Publishing and repairs reconcile on their way, the cache, its eviction and
the sweep count the lengths of what they move. A finalized swap counts its
*reservation*. An accepter's entry is reserved from the start, but a
proposer's has no reservation until an accept is adopted, and nothing keeps
it from being finalized without one: a chunk delivered for the all-zero id
of the entry and the peer's commit suffice. The chunk is stored and the
counter does not move.
-/
import StaticNet.Lib.Exact
import StaticNet.Node.Storing

namespace StaticNet

open Books

/-- The counter is the holder's total. -/
def CounterExact (n : StoringNode) : Prop :=
  n.transport.storageCapacity.currentBytes
    = n.transport.chunkHolder.totalBytes

/-- If the call finalizes a swap whose chunk is new, the swap has as many
bytes reserved as the chunk is long. -/
def StoreCall.Reserved (S : StoreSetup) (n : StoringNode)
    (call : StoreCall) : Prop :=
  ∀ swap, call.completes S n = some swap →
    n.transport.chunkHolder.hasChunk swap.theirChunkId = false →
    swap.theirChunkData.length = swap.reservedBytes

/-- One call. -/
theorem counter_step_iff (S : StoreSetup) {n : StoringNode}
    (hn : CounterExact n) (call : StoreCall) :
    CounterExact (call.step S n) ↔ call.Reserved S n := by
  obtain ⟨b, hmoved, hbooks, hholder⟩ := call.books_step S n
  have hb : b.Exact := hmoved.exact hn
  have hexact : CounterExact (call.step S n)
      ↔ (b.enterIf (call.completes S n)).Exact := by
    rw [← hbooks]
    exact Iff.rfl
  rw [hexact, exact_enterIf_iff hb]
  refine forall_congr' fun swap => ?_
  refine imp_congr_right fun hswap => ?_
  have hsame : b.chunkHolder = n.books.chunkHolder :=
    hholder fun hnone => by
      rw [hswap] at hnone
      cases hnone
  unfold Books.holds
  rw [hsame]
  exact Iff.rfl

/-- From an exact counter, a run of the storing functions keeps it exact
after every call if and only if every swap finalized in it, its chunk being
new, has as many bytes reserved as its chunk is long. -/
theorem capacity_counter_exact_iff (S : StoreSetup) (n : StoringNode)
    (calls : List StoreCall) (hn : CounterExact n) :
    Exact.Always (StoreCall.step S) CounterExact n calls
      ↔ Exact.Along (StoreCall.step S) (fun n call => call.Reserved S n) n
          calls :=
  Exact.always_iff_along (J := fun _ => True) (fun _ _ _ => trivial)
    (fun _ call _ hn => counter_step_iff S hn call) trivial hn

-- ==== a trade that counts

/-- The accepter's trade is reserved, so the counter follows it. -/
theorem capacity_counter_exact_accepted :
    Exact.Always (StoreCall.step tradingSetup) CounterExact
      (tradingNode crampedNode)
      (acceptedTrade (List.replicate ENCRYPTED_CHUNK_SIZE 0)) := by
  have hsize : (List.replicate ENCRYPTED_CHUNK_SIZE (0 : UInt8)).length
      = ENCRYPTED_CHUNK_SIZE := List.length_replicate
  generalize List.replicate ENCRYPTED_CHUNK_SIZE (0 : UInt8) = data
    at hsize
  refine (capacity_counter_exact_iff tradingSetup (tradingNode crampedNode)
    (acceptedTrade data) rfl).2 ⟨fun swap hswap => ?_, ?_, ?_, trivial⟩
  · cases hswap
  · rw [step_acceptedOffer]
    intro swap hswap
    rw [acceptedChunk_completes hsize] at hswap
    cases hswap
  · rw [step_acceptedOffer, step_acceptedChunk hsize]
    intro swap hswap _
    rw [acceptedCommit_completes] at hswap
    cases hswap
    exact hsize

-- ==== a trade that does not

/-- The proposer's side of a trade in which the peer never accepts: a
chunk for the all-zero id arrives, and the peer's commit. -/
def unacceptedTrade (data : List UInt8) : List StoreCall :=
  [.swap (.propose (quietEnv 30 200) (Bytes.fill 16 2) proposerOffer),
    .swap (.retrieval (quietEnv 32 200) (Bytes.zero 32) data),
    .swap (.commit (quietEnv 34 200) peerCommit)]

/-- The proposer with its proposal pending. -/
def proposerWaits : TransportState :=
  proposerNode.updSwaps fun st => st.startPendingSwap
    (proposerEntry Prims.plain (Bytes.fill 16 2) proposerOffer 200)

/-- Its entry once the chunk is there. -/
def unacceptedEntry (data : List UInt8) : PendingSwap :=
  (proposerEntry Prims.plain (Bytes.fill 16 2) proposerOffer
    200).withChunk data

theorem proposerWaits_get :
    proposerWaits.swapState.pendingSwaps.get offerId
      = some (proposerEntry Prims.plain (Bytes.fill 16 2) proposerOffer
          200) := FMap.get_insert_self _ _ _

theorem step_unacceptedChunk {data : List UInt8}
    (hsize : data.length = ENCRYPTED_CHUNK_SIZE) :
    (StoreCall.swap (.retrieval (quietEnv 32 200) (Bytes.zero 32)
        data)).step tradingSetup (tradingNode proposerWaits)
      = tradingNode (buffered offerId data proposerWaits) := by
  have hfind : findAwaiting (quietEnv 32 200) (Bytes.zero 32) proposerWaits
      = some (proposerEntry Prims.plain (Bytes.fill 16 2) proposerOffer
          200) := by decide
  rw [step_tradingNode]
  exact congrArg tradingNode
    (post_retrieval_waiting hsize hfind rfl proposerWaits_get rfl rfl)

/-- The commit completes the swap nobody accepted. -/
theorem unacceptedCommit_completes (data : List UInt8) :
    (StoreCall.swap (.commit (quietEnv 34 200) peerCommit)).completes
        tradingSetup (tradingNode (buffered offerId data proposerWaits))
      = some (unacceptedEntry data).withCommit := by
  have hget : (buffered offerId data
      proposerWaits).swapState.pendingSwaps.get offerId
      = some (unacceptedEntry data) := by
    show ((proposerWaits.swapState.pendingSwaps.modify offerId _).modify
      offerId _).get offerId = _
    rw [FMap.get_modify_self, FMap.get_modify_self, proposerWaits_get]
    rfl
  have hauth : (peerCommit.verifySignature Prims.plain
      && authentic (quietEnv 34 200) (Bytes.fill 16 2) (Bytes.fill 32 2)
        (Bytes.fill 32 23) (buffered offerId data proposerWaits))
      = true := by
    rw [authentic_congr (buffered offerId data proposerWaits) proposerNode
      rfl rfl]
    decide
  show commitCompletes Prims.plain (quietEnv 34 200) peerCommit
    (buffered offerId data proposerWaits) = _
  rw [commitCompletes_of_get hauth hget rfl]
  rfl

/-- The proposer's counter is exact at first; it stores a chunk nobody
accepted a swap for, and counts nothing. -/
theorem capacity_counter_unaccepted :
    CounterExact (tradingNode proposerNode)
      ∧ ¬Exact.Always (StoreCall.step tradingSetup) CounterExact
        (tradingNode proposerNode)
        (unacceptedTrade (List.replicate ENCRYPTED_CHUNK_SIZE 0)) := by
  refine ⟨rfl, ?_⟩
  have hsize : (List.replicate ENCRYPTED_CHUNK_SIZE (0 : UInt8)).length
      = ENCRYPTED_CHUNK_SIZE := List.length_replicate
  generalize List.replicate ENCRYPTED_CHUNK_SIZE (0 : UInt8) = data
    at hsize
  rintro ⟨-, -, hbefore, hafter⟩
  rw [show (StoreCall.swap (.propose (quietEnv 30 200) (Bytes.fill 16 2)
    proposerOffer)).step tradingSetup (tradingNode proposerNode)
      = tradingNode proposerWaits from step_tradingNode _ _,
    step_unacceptedChunk hsize] at hbefore hafter
  have hreserved := (counter_step_iff tradingSetup hbefore _).1 hafter _
    (unacceptedCommit_completes data) rfl
  have hzero : ENCRYPTED_CHUNK_SIZE = 0 := hsize.symm.trans hreserved
  exact absurd hzero (by decide)

end StaticNet
