/-
One node's part in a swap that goes well.

Two things have to come in before a node finalizes: the chunk it is to get,
on which it answers with its commit, and the peer's commit. They come in
either order, so a node is in one of four stages; `Part.holdings` is, in
closed form, all that the swap has changed of it by then. The proposer has
a stage before these, with an entry that does not yet name its chunk; the
peer's commit may reach it even there.

Every lemma here takes a node from one stage to the next and says what it
sends.
-/
import StaticNet.Swap.Proofs.Agreement

namespace StaticNet

open Proc TransportState

-- ======== the stages

/-- What a swap changes of a node. -/
structure Holdings where
  pendingSwaps : FMap ProposalId PendingSwap
  chunkHolder : ChunkHolder
  storageCapacity : StorageCapacity
  peerChunkCounts : FMap NodeId Nat
  leaseManager : LeaseManager

def TransportState.holdings (s : TransportState) : Holdings where
  pendingSwaps := s.swapState.pendingSwaps
  chunkHolder := s.chunkHolder
  storageCapacity := s.storageCapacity
  peerChunkCounts := s.peerChunkCounts
  leaseManager := s.leaseManager

/-- A node's part in a swap: its entry as agreed on, with nothing in yet,
and the chunk it is to get. -/
structure Part where
  entry : PendingSwap
  data : List UInt8

namespace Part

/-- The entry at a stage: our commit goes out with the chunk. -/
def stage (p : Part) (chunkIn commitIn : Bool) : PendingSwap :=
  { p.entry with
    theirChunkData := if chunkIn then p.data else p.entry.theirChunkData
    receivedTheirChunk := chunkIn
    sentCommit := chunkIn
    receivedCommit := commitIn }

/-- The holdings at a stage, from those at the start. With both in, the
entry is gone, the chunk stored and counted, and its lease entered. -/
def holdings (p : Part) (b : Holdings) (chunkIn commitIn : Bool) :
    Holdings :=
  if chunkIn && commitIn then
    { pendingSwaps := b.pendingSwaps.erase p.entry.proposalId
      chunkHolder := b.chunkHolder.addChunk p.entry.theirChunkId p.data
        (Bytes.zero 32)
      storageCapacity :=
        b.storageCapacity.releaseReserved p.entry.reservedBytes true
      peerChunkCounts := b.peerChunkCounts.insert p.entry.peer
        ((b.peerChunkCounts.get p.entry.peer).getD 0 + 1)
      leaseManager := b.leaseManager.addLease p.entry.theirChunkId
        (swapLease p.entry) }
  else
    { b with
      pendingSwaps := b.pendingSwaps.insert p.entry.proposalId
        (p.stage chunkIn commitIn) }

/-- A part that can be played out from these holdings: its chunk passes the
gate and is not there yet, and no other swap waits for it. -/
structure Fair (P : Prims) (p : Part) (b : Holdings) : Prop where
  size : p.data.length = ENCRYPTED_CHUNK_SIZE
  gate : passesGate P p.entry.contentRoot p.entry.merkleProof p.data = true
  missing : b.chunkHolder.hasChunk p.entry.theirChunkId = false
  alone : ∀ pid swap, b.pendingSwaps.get pid = some swap →
    pid ≠ p.entry.proposalId → awaits p.entry.theirChunkId swap = false

end Part

/-- What a node keeps throughout a swap. -/
structure Identity where
  nodeId : NodeId
  identityKey : SigningKey
  routingTable : FMap NodeId KnownNode

def TransportState.identity (s : TransportState) : Identity :=
  ⟨s.nodeId, s.identityKey, s.routingTable⟩

section

variable {P : Prims} {env : Env} {s : TransportState} {p : Part}
  {b : Holdings} {chunkIn commitIn : Bool}

theorem Part.holdings_open (h : (chunkIn && commitIn) = false) :
    p.holdings b chunkIn commitIn
      = { b with
          pendingSwaps := b.pendingSwaps.insert p.entry.proposalId
            (p.stage chunkIn commitIn) } := by
  unfold Part.holdings
  rw [h]
  rfl

/-- The entry of an open stage. -/
theorem Part.get_open (h : (chunkIn && commitIn) = false)
    (hs : s.holdings = p.holdings b chunkIn commitIn) :
    s.swapState.pendingSwaps.get p.entry.proposalId
      = some (p.stage chunkIn commitIn) := by
  have hp := congrArg Holdings.pendingSwaps hs
  rw [Part.holdings_open h] at hp
  show s.holdings.pendingSwaps.get _ = _
  rw [hp]
  exact FMap.get_insert_self _ _ _

-- ======== finalizing

theorem erase_insert (m : FMap ProposalId PendingSwap) (k : ProposalId)
    (v : PendingSwap) : (m.insert k v).erase k = m.erase k := by
  apply FMap.ext_get
  intro k'
  rw [FMap.get_erase, FMap.get_erase, FMap.get_insert]
  split <;> rfl

/-- What a handler, run in this state, leaves and sends. -/
structure Advances {α : Type} (h : Handler α) (s : TransportState)
    (left : Holdings) (cache : FMap (Bytes 32) Nat)
    (sent : List (NodeId × SwapMessage)) : Prop where
  holdings : (h.post s).holdings = left
  identity : (h.post s).identity = s.identity
  nonces : (h.post s).maintenanceNonces = cache
  sends : ∀ x, sendsIn x (h.acts s)
    = sent.map fun m => ⟨x, m.1, .message m.2⟩

/-- Finalizing at a stage: with both in, the swap is entered. -/
theorem advances_finalize
    (hmissing : (chunkIn && commitIn) = true →
      b.chunkHolder.hasChunk p.entry.theirChunkId = false)
    (hs : s.holdings = { b with
      pendingSwaps := b.pendingSwaps.insert p.entry.proposalId
        (p.stage chunkIn commitIn) }) :
    Advances (finalizeSwapIfReady p.entry.proposalId) s
      (p.holdings b chunkIn commitIn) s.maintenanceNonces [] := by
  have hpend : s.swapState.pendingSwaps = b.pendingSwaps.insert
      p.entry.proposalId (p.stage chunkIn commitIn) :=
    congrArg Holdings.pendingSwaps hs
  have hget : s.swapState.pendingSwaps.get p.entry.proposalId
      = some (p.stage chunkIn commitIn) := by
    rw [hpend]
    exact FMap.get_insert_self _ _ _
  have hready : (p.stage chunkIn commitIn).ready
      = (chunkIn && commitIn) := by
    unfold PendingSwap.ready Part.stage
    cases chunkIn <;> cases commitIn <;> rfl
  cases hboth : chunkIn && commitIn with
  | false =>
      have hwait : (s.swapState.getPendingSwap p.entry.proposalId).any
          PendingSwap.ready = false := by
        unfold SwapState.getPendingSwap
        rw [hget, Option.any_some, hready, hboth]
      obtain ⟨hpost, hacts⟩ := run_finalize_waiting hwait
      refine ⟨?_, ?_, ?_, fun x => ?_⟩
      · rw [hpost, hs, Part.holdings_open hboth]
      · rw [hpost]
      · rw [hpost]
      · rw [hacts]
        rfl
  | true =>
      rw [Bool.and_eq_true] at hboth
      obtain ⟨rfl, rfl⟩ := hboth
      have hholder : s.chunkHolder = b.chunkHolder :=
        congrArg Holdings.chunkHolder hs
      have hcap : s.storageCapacity = b.storageCapacity :=
        congrArg Holdings.storageCapacity hs
      have hcounts : s.peerChunkCounts = b.peerChunkCounts :=
        congrArg Holdings.peerChunkCounts hs
      have hleases : s.leaseManager = b.leaseManager :=
        congrArg Holdings.leaseManager hs
      have hnew : s.chunkHolder.hasChunk
          (p.stage true true).theirChunkId = false := by
        rw [hholder]
        exact hmissing rfl
      obtain ⟨hpost, hacts⟩ := run_finalize_ready hget hready hnew
      refine ⟨?_, ?_, ?_, fun x => ?_⟩
      · rw [hpost]
        unfold TransportState.holdings finalized Part.holdings
        simp only [updSwaps_swapState, (completeSwap_of_get hget).2.1,
          hpend, erase_insert, hholder, hcap, hcounts, hleases,
          Bool.and_self, if_true]
        rfl
      · rw [hpost]
        rfl
      · rw [hpost]
        rfl
      · rw [hacts]
        rfl

-- ====== the messages

/-- The chunk comes in: it is buffered, and our commit goes out. -/
theorem advances_chunk (env : Env) (hfair : p.Fair P b)
    (hs : s.holdings = p.holdings b false commitIn) :
    Advances (Payload.handler P env (.chunk p.entry.theirChunkId p.data)) s
      (p.holdings b true commitIn) s.maintenanceNonces
      [(p.entry.peer,
        .commit (ownCommit P env p.entry.proposalId s))] := by
  have hget := Part.get_open (Bool.false_and _) hs
  have hpend : s.swapState.pendingSwaps = b.pendingSwaps.insert
      p.entry.proposalId (p.stage false commitIn) := by
    rw [Part.holdings_open (Bool.false_and _)] at hs
    exact congrArg Holdings.pendingSwaps hs
  have hfind : findAwaiting env p.entry.theirChunkId s
      = some (p.stage false commitIn) := by
    unfold findAwaiting
    rw [IterOrder.find_unique hget]
    · rfl
    · unfold awaits Part.stage
      simp
    · intro pid swap hswap hawaits
      by_contra hne
      rw [hpend, FMap.get_insert_ne _ _ hne] at hswap
      rw [hfair.alone pid swap hswap hne] at hawaits
      cases hawaits
  have hbuf : (buffered p.entry.proposalId p.data s).holdings
      = { b with
          pendingSwaps := b.pendingSwaps.insert p.entry.proposalId
            (p.stage true commitIn) } := by
    rw [Part.holdings_open (Bool.false_and _)] at hs
    calc (buffered p.entry.proposalId p.data s).holdings
        = { s.holdings with
            pendingSwaps := (buffered p.entry.proposalId p.data
              s).swapState.pendingSwaps } := rfl
      _ = _ := by
          rw [buffered_pendingSwaps hget, hpend, FMap.insert_insert, hs]
          rfl
  obtain ⟨hpost, hacts⟩ := run_retrieval P hfair.size hfind hfair.gate
    hget rfl
  have hfin := advances_finalize (fun _ => hfair.missing) hbuf
  refine ⟨?_, ?_, ?_, fun x => ?_⟩
  · rw [Duo.post_chunkPayload, hpost]
    exact hfin.holdings
  · rw [Duo.post_chunkPayload, hpost]
    exact hfin.identity
  · rw [Duo.post_chunkPayload, hpost]
    exact hfin.nonces
  · rw [Duo.acts_chunkPayload, hacts]
    exact congrArg (_ :: ·) (hfin.sends x)

/-- Before a proposer knows its chunk, and once a node has it, nothing
waits for it. -/
theorem not_awaited {chunkId : ChunkId}
    (halone : ∀ pid swap, b.pendingSwaps.get pid = some swap →
      pid ≠ p.entry.proposalId → awaits chunkId swap = false)
    (hown : awaits chunkId (p.stage chunkIn commitIn) = false)
    (hs : s.holdings = p.holdings b chunkIn commitIn) :
    findAwaiting env chunkId s = none := by
  have hgone : ∀ pid swap, s.swapState.pendingSwaps.get pid = some swap →
      awaits chunkId swap = false := by
    intro pid swap hget
    have hpend : s.swapState.pendingSwaps
        = (p.holdings b chunkIn commitIn).pendingSwaps :=
      congrArg Holdings.pendingSwaps hs
    rw [hpend] at hget
    by_cases hpid : pid = p.entry.proposalId
    · subst hpid
      cases hboth : chunkIn && commitIn with
      | true =>
          unfold Part.holdings at hget
          rw [hboth, if_pos rfl, FMap.get_erase_self] at hget
          cases hget
      | false =>
          rw [Part.holdings_open hboth, FMap.get_insert_self] at hget
          rw [← Option.some.inj hget]
          exact hown
    · refine halone pid swap ?_ hpid
      unfold Part.holdings at hget
      split at hget
      · rwa [FMap.get_erase_ne _ hpid] at hget
      · rwa [FMap.get_insert_ne _ _ hpid] at hget
  unfold findAwaiting
  rw [Option.map_eq_none_iff]
  cases hfind : env.swapOrder.find s.swapState.pendingSwaps
      fun _ swap => awaits chunkId swap with
  | none => rfl
  | some found =>
      obtain ⟨hget, hawaits⟩ := IterOrder.find_some hfind
      rw [hgone _ _ hget] at hawaits
      cases hawaits

/-- A chunk that no swap waits for changes nothing. -/
theorem advances_chunk_ignored (P : Prims) {chunkId : ChunkId}
    (data : List UInt8) (h : findAwaiting env chunkId s = none) :
    Advances (Payload.handler P env (.chunk chunkId data)) s s.holdings
      s.maintenanceNonces [] := by
  have hrun : (handleSwapChunkRetrieval P env chunkId data).post s = s
      ∧ ∀ x, sendsIn x
        ((handleSwapChunkRetrieval P env chunkId data).acts s) = [] := by
    unfold handleSwapChunkRetrieval
    split
    · exact ⟨rfl, fun _ => rfl⟩
    · rw [post_bind, acts_bind, out_read, post_read, h]
      exact ⟨rfl, fun _ => rfl⟩
  obtain ⟨hpost, hsends⟩ := hrun
  refine ⟨?_, ?_, ?_, fun x => ?_⟩
  · rw [Duo.post_chunkPayload, hpost]
  · rw [Duo.post_chunkPayload, hpost]
  · rw [Duo.post_chunkPayload, hpost]
  · rw [Duo.acts_chunkPayload, hsends]
    rfl

/-- An authentic message advances as its body does. -/
theorem Advances.signed {sender : NodeId} {verified : Bool}
    {identity nonce : Bytes 32} {body : Handler Unit} {left : Holdings}
    {sent : List (NodeId × SwapMessage)}
    (hauth : (verified && authentic env sender identity nonce s) = true)
    (hbody : Advances body (heard env sender nonce s) left
      (checkNonceCache env nonce s.maintenanceNonces).2 sent) :
    Advances (signedMessage env sender verified identity nonce body) s left
      (checkNonceCache env nonce s.maintenanceNonces).2 sent := by
  refine ⟨?_, ?_, ?_, fun x => ?_⟩
  · rw [post_signedMessage hauth]
    exact hbody.holdings
  · rw [post_signedMessage hauth]
    exact hbody.identity
  · rw [post_signedMessage hauth]
    exact hbody.nonces
  · rw [acts_signedMessage hauth]
    exact hbody.sends x

/-- The peer's commit comes in. -/
theorem advances_commit {c : SwapCommit}
    (hmissing : chunkIn = true →
      b.chunkHolder.hasChunk p.entry.theirChunkId = false)
    (hs : s.holdings = p.holdings b chunkIn false)
    (hid : c.proposalId = p.entry.proposalId)
    (hfrom : c.fromNode = p.entry.peer)
    (hauth : (c.verifySignature P && authentic env c.fromNode
      c.identityPublicKey c.nonce s) = true) :
    Advances (handleMaintenanceCommit P env c) s (p.holdings b chunkIn true)
      (checkNonceCache env c.nonce s.maintenanceNonces).2 [] := by
  have hopen := Bool.and_false chunkIn
  have hget := Part.get_open hopen hs
  have hpeer : pendingWith c.proposalId c.fromNode
      (heard env c.fromNode c.nonce s) = true := by
    rw [hid]
    exact pendingWith_of_get hget hfrom.symm
  obtain ⟨hpost, hacts⟩ := run_commitPending c hpeer
  have hmarked : ((heard env c.fromNode c.nonce s).updSwaps fun st =>
      st.markCommitReceived c.proposalId).holdings
      = { b with
          pendingSwaps := b.pendingSwaps.insert p.entry.proposalId
            (p.stage chunkIn true) } := by
    rw [Part.holdings_open hopen] at hs
    have hpend : s.swapState.pendingSwaps = b.pendingSwaps.insert
        p.entry.proposalId (p.stage chunkIn false) :=
      congrArg Holdings.pendingSwaps hs
    have hmod : s.swapState.pendingSwaps.modify c.proposalId
        (fun swap => { swap with receivedCommit := true })
        = b.pendingSwaps.insert p.entry.proposalId
          (p.stage chunkIn true) := by
      rw [hid, FMap.modify_of_get hget, hpend, FMap.insert_insert]
      rfl
    calc ((heard env c.fromNode c.nonce s).updSwaps fun st =>
        st.markCommitReceived c.proposalId).holdings
        = { s.holdings with
            pendingSwaps := s.swapState.pendingSwaps.modify c.proposalId
              fun swap => { swap with receivedCommit := true } } := rfl
      _ = _ := by rw [hmod, hs]
  have hfin := advances_finalize
    (fun hin => hmissing ((Bool.and_true chunkIn).symm.trans hin)) hmarked
  rw [← hid] at hfin
  apply Advances.signed hauth
  refine ⟨?_, ?_, ?_, fun x => ?_⟩
  · rw [hpost]
    exact hfin.holdings
  · rw [hpost]
    exact hfin.identity
  · rw [hpost]
    exact hfin.nonces
  · rw [hacts]
    exact hfin.sends x

/-- The accept comes in where there is room: the part has its terms, and
the room is reserved. -/
theorem advances_accept {a : SwapAccept}
    (hs : s.holdings = p.holdings b false commitIn)
    (hid : a.proposalId = p.entry.proposalId)
    (hfrom : a.fromNode = p.entry.peer)
    (hroom : b.storageCapacity.canAccept ENCRYPTED_CHUNK_SIZE 0 = true)
    (hauth : (a.verifySignature P && authentic env a.fromNode
      a.identityPublicKey a.nonce s) = true) :
    Advances (handleMaintenanceAccept P env a) s
      (Part.holdings { p with
          entry := adoptTerms a ENCRYPTED_CHUNK_SIZE p.entry }
        { b with
          storageCapacity := b.storageCapacity.reserve ENCRYPTED_CHUNK_SIZE }
        false commitIn)
      (checkNonceCache env a.nonce s.maintenanceNonces).2 [] := by
  have hopen := Bool.false_and commitIn
  have hget := Part.get_open hopen hs
  rw [Part.holdings_open hopen] at hs
  have hpend : s.swapState.pendingSwaps = b.pendingSwaps.insert
      p.entry.proposalId (p.stage false commitIn) :=
    congrArg Holdings.pendingSwaps hs
  have hcap : s.storageCapacity = b.storageCapacity :=
    congrArg Holdings.storageCapacity hs
  have hpeer : pendingWith a.proposalId a.fromNode
      (heard env a.fromNode a.nonce s) = true := by
    rw [hid]
    exact pendingWith_of_get hget hfrom.symm
  have hroom' : (heard env a.fromNode a.nonce
      s).storageCapacity.canAccept ENCRYPTED_CHUNK_SIZE 0 = true := by
    show s.storageCapacity.canAccept ENCRYPTED_CHUNK_SIZE 0 = true
    rw [hcap]
    exact hroom
  obtain ⟨hpost, hacts⟩ := run_adoptAccept P env hpeer hroom'
  have hterms : adoptTerms a ENCRYPTED_CHUNK_SIZE (p.stage false commitIn)
      = Part.stage { p with
          entry := adoptTerms a ENCRYPTED_CHUNK_SIZE p.entry }
        false commitIn := by
    unfold adoptTerms Part.stage
    dsimp only
    split <;> rfl
  have hkey : (adoptTerms a ENCRYPTED_CHUNK_SIZE p.entry).proposalId
      = p.entry.proposalId := by
    unfold adoptTerms
    split <;> rfl
  have hmod : s.swapState.pendingSwaps.modify a.proposalId
      (adoptTerms a ENCRYPTED_CHUNK_SIZE)
      = b.pendingSwaps.insert p.entry.proposalId
        (adoptTerms a ENCRYPTED_CHUNK_SIZE (p.stage false commitIn)) := by
    rw [hid, FMap.modify_of_get hget, hpend, FMap.insert_insert]
  apply Advances.signed hauth
  refine ⟨?_, ?_, ?_, fun x => ?_⟩
  · rw [hpost, Part.holdings_open hopen, hkey, ← hterms, ← hmod, ← hcap]
    have hholder : s.chunkHolder = b.chunkHolder :=
      congrArg Holdings.chunkHolder hs
    have hcounts : s.peerChunkCounts = b.peerChunkCounts :=
      congrArg Holdings.peerChunkCounts hs
    have hleases : s.leaseManager = b.leaseManager :=
      congrArg Holdings.leaseManager hs
    rw [← hholder, ← hcounts, ← hleases]
    rfl
  · rw [hpost]
    rfl
  · rw [hpost]
    rfl
  · rw [hacts]
    rfl

end

end StaticNet
