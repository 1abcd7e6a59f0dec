/-
Content addressing: is what a node files under a shard's id that shard?

A chunk id is the hash of a ciphertext, but of the paths that write the
holder none hashes what it files. A completed response goes to the
cache, to the content retriever or into a pending swap under the id it
names; the Merkle gate binds the data to a root, not to the id, and only
where the root is not zero. One reply with other data is filed, served,
copied to the host buffer on rotation and used by repair.

# What is proved

If every found response for a shard's id carries data with that hash,
every entry under a shard's id has it (`Addressed`), wherever a pool of
tasks gets. Two sections need a condition of their own: an accept must
not rename the chunk a swap has buffered, and a swap must still wait for
the chunk that is buffered into it (`IdsKept`). Repair files what
Reed-Solomon makes of the shards found, so it needs the code's law for
the manifest's shards (`Genuine`).
-/
import StaticNet.Node.Proofs.Durable
import StaticNet.Swap.Proofs.Gate

namespace StaticNet

open Proc TransportState NodeState

-- ===== the invariant

/-- The data has the id as its hash, if the id is a shard's. -/
def Matches (P : Prims) (S : ChunkId → Prop) (c : ChunkId)
    (data : List UInt8) : Prop := S c → P.blake3 data = c

/-- The transport's tables: what is held, and what pending swaps have
buffered. -/
structure Filed (P : Prims) (S : ChunkId → Prop) (s : TransportState) :
    Prop where
  held : ∀ c data, s.chunkHolder.getChunk c = some data →
    Matches P S c data
  buffered : ∀ pid swap, s.swapState.pendingSwaps.get pid = some swap →
    swap.receivedTheirChunk = true →
      Matches P S swap.theirChunkId swap.theirChunkData

/-- The node's: these, the retriever's and the host buffer's. -/
structure Addressed (P : Prims) (S : ChunkId → Prop) (n : NodeState) :
    Prop where
  filed : Filed P S n.transport
  received : ∀ c chunk, n.contentRetriever.received.get c = some chunk →
    Matches P S c chunk.data
  copies : ∀ c data createdAt,
    n.hostBuffer.buffer.get c = some (data, createdAt) →
      Matches P S c data

/-- The section leaves a buffered chunk under the id it came for. -/
def IdsKept : Act → TransportState → Prop
  | .terms a, s => ∀ swap,
      s.swapState.pendingSwaps.get a.proposalId = some swap →
      swap.receivedTheirChunk = true → a.chunkId = swap.theirChunkId
  | .buffer pid chunkId _, s => ∀ swap,
      s.swapState.pendingSwaps.get pid = some swap →
        swap.theirChunkId = chunkId
  | _, _ => True

def NodeIdsKept : NodeAct → NodeState → Prop
  | .transport a, n => IdsKept a n.transport
  | _, _ => True

/-- A handler keeps the transport's tables in any pool. -/
abbrev Files {α : Type} (P : Prims) (S : ChunkId → Prop)
    (p : Handler α) : Prop :=
  Keeps (Filed P S) IdsKept (fun _ => True) p

/-- A task keeps the node's in any pool. -/
abbrev Addresses {α : Type} (P : Prims) (S : ChunkId → Prop)
    (p : Task α) : Prop :=
  Keeps (Addressed P S) NodeIdsKept (fun _ => True) p

variable {P : Prims} {S : ChunkId → Prop} {env : Env} {pid : ProposalId}
  {s s' : TransportState} {n n' : NodeState}

-- ==== the swap handlers

/-- Nothing new is held, and nothing new is buffered. -/
theorem Filed.harmless (h : Filed P S s)
    (hholder : s'.chunkHolder = s.chunkHolder)
    (hswaps : Harmless s.swapState.pendingSwaps
      s'.swapState.pendingSwaps) : Filed P S s' := by
  refine ⟨by rw [hholder]; exact h.held, ?_⟩
  intro pid swap' hget hreceived
  obtain ⟨swap, hold, hrec, hid, hdata, -, -⟩ :=
    hswaps pid swap' hget hreceived
  rw [hid, hdata]
  exact h.buffered pid swap hold hrec

/-- An accept names the chunk and leaves what is buffered. -/
theorem adoptTerms_ids (a : SwapAccept) (size : Nat) (swap : PendingSwap) :
    (adoptTerms a size swap).theirChunkId = a.chunkId
      ∧ (adoptTerms a size swap).theirChunkData = swap.theirChunkData
      ∧ (adoptTerms a size swap).receivedTheirChunk
        = swap.receivedTheirChunk := by
  unfold adoptTerms
  dsimp only
  split <;> exact ⟨rfl, rfl, rfl⟩

/-- A tame section files nothing. -/
theorem Filed.tame {l : Act} (h : Filed P S s) (hC : IdsKept l s)
    (ht : Tame l s s') : Filed P S s' := by
  obtain ⟨hholder, -, hl⟩ := ht
  cases l with
  | put swap => exact hl.elim
  | terms a =>
      refine ⟨by rw [hholder]; exact h.held, ?_⟩
      intro pid swap' hget hreceived
      rw [hl] at hget
      by_cases hpid : pid = a.proposalId
      · rw [hpid, FMap.get_modify_self, Option.map_eq_some_iff] at hget
        obtain ⟨swap, hold, rfl⟩ := hget
        obtain ⟨hid, hdata, hrec⟩ :=
          adoptTerms_ids a ENCRYPTED_CHUNK_SIZE swap
        rw [hrec] at hreceived
        rw [hid, hdata, hC swap hold hreceived]
        exact h.buffered _ swap hold hreceived
      · rw [FMap.get_modify_ne _ _ hpid] at hget
        exact h.buffered pid swap' hget hreceived
  | send dest msg =>
      cases msg with
      | commit c => exact hl.elim
      | _ => exact h.harmless hholder hl
  | _ => exact h.harmless hholder hl

theorem files_tame {α : Type} {p : Handler α} (h : Sections Tame p) :
    Files P S p :=
  .of_sections h fun _ _ _ hG hC hs => hs.tame hC hG

theorem files_read {α : Type} (l : Act) (f : TransportState → α) :
    Files P S (Proc.read l f) := keeps_read fun _ _ => trivial

/-- What is completed was buffered, and is put as it was. -/
theorem files_finalize : Files P S (finalizeSwapIfReady pid) := by
  unfold finalizeSwapIfReady
  refine Keeps.bind (Q := fun completed => ∀ done, completed = some done →
    Matches P S done.theirChunkId done.theirChunkData)
    (keeps_atom fun s hs => ?_) ?_
  · rcases completeReady_cases pid s with hc | ⟨done, hget, hready, hc⟩
    · rw [hc]
      exact ⟨hs, nofun⟩
    · rw [hc]
      have hreceived : done.receivedTheirChunk = true := by
        unfold PendingSwap.ready at hready
        rw [Bool.and_eq_true] at hready
        exact hready.2
      refine ⟨hs.harmless rfl ?_, ?_⟩
      · show Harmless _ (s.swapState.completeSwap pid).2.pendingSwaps
        rw [(completeSwap_of_get hget).2.1]
        exact harmless_erase _ _
      · rintro _ ⟨⟩
        exact hs.buffered pid done hget hreceived
  intro completed hcompleted
  cases completed with
  | none => trivial
  | some done =>
      have hmatch := hcompleted done rfl
      refine Keeps.then (keeps_atom fun s hs => ⟨?_, trivial⟩) ?_
      · split
        · exact hs
        refine ⟨?_, hs.buffered⟩
        intro c data hget
        unfold ChunkHolder.getChunk ChunkHolder.addChunk at hget
        dsimp only at hget
        by_cases hc : c = done.theirChunkId
        · rw [hc, FMap.get_insert_self] at hget
          injection hget with hget
          rw [hc, ← hget]
          exact hmatch
        · rw [FMap.get_insert_ne _ _ hc] at hget
          exact hs.held c data hget
      · intro storedNew
        exact files_tame (sections_accountStored done storedNew)

/-- The checks file nothing. -/
theorem files_signedMessage {sender : NodeId} {verified : Bool}
    {identity nonce : Bytes 32} {body : Handler Unit}
    (hbody : Files P S body) :
    Files P S (signedMessage env sender verified identity nonce body) := by
  refine Keeps.then (files_tame fun _ =>
    ⟨⟨rfl, rfl, Harmless.refl _⟩, trivial⟩) ?_
  intro _
  split
  · trivial
  refine Keeps.then (files_read _ _) ?_
  intro pinned
  split
  · trivial
  refine Keeps.then (files_tame fun _ =>
    ⟨⟨rfl, rfl, Harmless.refl _⟩, trivial⟩) ?_
  intro fresh
  split
  · trivial
  · exact hbody

/-- A commit files what is buffered. -/
theorem files_commitPending (c : SwapCommit) :
    Files P S (commitPending c) := by
  refine Keeps.then (files_read _ _) ?_
  intro peerOk
  split
  · trivial
  refine Keeps.then (keeps_write fun s hs => hs.harmless rfl ?_) ?_
  · exact harmless_modify _ _ fun _ => ⟨rfl, rfl, rfl, rfl, rfl⟩
  intro _
  exact files_finalize.then fun _ => trivial

/-- The buffer section files the data under the id the swap has by
then. -/
theorem files_buffer {c : ChunkId} {data : List UInt8}
    (hmatch : Matches P S c data) :
    Files P S (atom (.buffer pid c data) fun s =>
      let r := s.swapState.receiveTheirChunk pid data
      (r.1, { s with swapState := r.2 })) := by
  intro s hs hC
  refine ⟨⟨hs.held, ?_⟩, trivial⟩
  intro pid' swap' hget hreceived
  dsimp only [SwapState.receiveTheirChunk, SwapState.modifyPending]
    at hget
  by_cases hpid : pid' = pid
  · rw [hpid, FMap.get_modify_self, Option.map_eq_some_iff] at hget
    obtain ⟨swap, hold, rfl⟩ := hget
    dsimp only
    rw [hC swap hold]
    exact hmatch
  · rw [FMap.get_modify_ne _ _ hpid] at hget
    exact hs.buffered pid' swap' hget hreceived

/-- A chunk that matches is buffered, and filed. -/
theorem files_retrieval {c : ChunkId} {data : List UInt8}
    (hmatch : Matches P S c data) :
    Files P S (handleSwapChunkRetrieval P env c data) := by
  unfold handleSwapChunkRetrieval
  split
  · trivial
  refine Keeps.then (files_read _ _) ?_
  intro found
  cases found with
  | none => trivial
  | some pending =>
      dsimp only
      split
      · refine Keeps.then (files_tame sections_abortAndRelease) ?_
        intro _
        exact Keeps.then (files_tame (sections_sendAbort _ _ _))
          fun _ => trivial
      refine Keeps.then (files_buffer hmatch) ?_
      intro received
      split
      · trivial
      refine Keeps.then (files_tame sections_claimCommit) ?_
      intro needCommit
      dsimp only
      split
      · refine Keeps.then ?_ ?_
        · refine Keeps.then (files_read _ _) ?_
          intro key
          exact keeps_write fun s hs => hs.harmless rfl (Harmless.refl _)
        intro _
        exact files_finalize.then fun _ => trivial
      · exact files_finalize.then fun _ => trivial

-- ==== the lease tasks

/-- Removing chunks files nothing. -/
theorem Filed.removeChunk (h : Filed P S s) (c : ChunkId) :
    Filed P S { s with chunkHolder := s.chunkHolder.removeChunk c } := by
  refine ⟨?_, h.buffered⟩
  intro c' data hget
  unfold ChunkHolder.getChunk ChunkHolder.removeChunk at hget
  dsimp only at hget
  rw [FMap.get_erase] at hget
  split at hget
  · cases hget
  · exact h.held c' data hget

/-- Dropping files nothing. -/
theorem files_dropExpired (ids : List ChunkId) :
    Files P S (dropExpired ids) := by
  induction ids with
  | nil => trivial
  | cons c rest ih =>
      refine Keeps.then (keeps_atom fun s hs =>
        ⟨hs.removeChunk c, trivial⟩) ?_
      intro size
      refine Keeps.then (keeps_write fun s hs =>
        hs.harmless rfl (Harmless.refl _)) ?_
      intro _
      exact Keeps.then (keeps_write fun s hs =>
        hs.harmless rfl (Harmless.refl _)) fun _ => ih

/-- Leases are no part of it. -/
theorem files_lease (now : Nat) (e : LeaseEvent) :
    Files P S (e.program P now) := by
  cases e with
  | heartbeat hb =>
      refine Keeps.then (files_read _ _) ?_
      intro held
      exact Keeps.then (keeps_atom fun s hs =>
        ⟨hs.harmless rfl (Harmless.refl _), trivial⟩) fun _ => trivial
  | tick order =>
      exact Keeps.then (keeps_atom fun s hs =>
        ⟨hs.harmless rfl (Harmless.refl _), trivial⟩) fun _ => trivial
  | sweep order =>
      refine Keeps.then ?_ fun _ => trivial
      refine Keeps.then (files_read _ _) ?_
      intro expired
      refine Keeps.then (files_dropExpired expired) ?_
      intro _
      exact Keeps.then (keeps_write fun s hs =>
        hs.harmless rfl (Harmless.refl _)) fun _ => trivial

-- ==== the node's tasks

/-- The update leaves the four tables as they are. -/
structure Retains (n n' : NodeState) : Prop where
  holder : n'.transport.chunkHolder = n.transport.chunkHolder
  swaps : n'.transport.swapState.pendingSwaps
    = n.transport.swapState.pendingSwaps
  received : n'.contentRetriever.received = n.contentRetriever.received
  copies : n'.hostBuffer.buffer = n.hostBuffer.buffer

/-- An update that leaves the four tables keeps the invariant. -/
theorem Addressed.retains (hn : Addressed P S n) (h : Retains n n') :
    Addressed P S n' := by
  refine ⟨hn.filed.harmless h.holder ?_, ?_, ?_⟩
  · rw [h.swaps]
    exact Harmless.refl _
  · rw [h.received]
    exact hn.received
  · rw [h.copies]
    exact hn.copies

theorem addresses_read {α : Type} (l : NodeAct) (f : NodeState → α) :
    Addresses P S (Proc.read l f) := keeps_read fun _ _ => trivial

theorem addresses_write {l : NodeAct} {upd : NodeState → NodeState}
    (h : ∀ n, Retains n (upd n)) : Addresses P S (Proc.write l upd) :=
  keeps_write fun _ hn => hn.retains (h _)

theorem addresses_atom {α : Type} {l : NodeAct}
    {f : NodeState → α × NodeState} (h : ∀ n, Retains n (f n).2) :
    Addresses P S (Proc.atom l f) :=
  keeps_atom fun _ hn => ⟨hn.retains (h _), trivial⟩

/-- A handler that keeps the transport's keeps the node's. -/
theorem addresses_onTransport {α : Type} {p : Handler α}
    (hp : Files P S p) : Addresses P S (onTransport p) :=
  hp.zoom (fun _ h => h.filed) (fun _ _ h => h)
    fun _ _ ht hs => ⟨hs, ht.received, ht.copies⟩

/-- Filing a chunk that matches. -/
theorem Addressed.addChunk (hn : Addressed P S n) {c : ChunkId}
    {data : List UInt8} (hmatch : Matches P S c data)
    (contentId : ContentId) :
    Addressed P S (n.updHolder fun h => h.addChunk c data contentId) := by
  refine ⟨⟨?_, hn.filed.buffered⟩, hn.received, hn.copies⟩
  intro c' data' hget
  have hget : (n.transport.chunkHolder.chunks.insert c data).get c'
      = some data' := hget
  by_cases hc : c' = c
  · rw [hc, FMap.get_insert_self] at hget
    injection hget with hget
    rw [hc, ← hget]
    exact hmatch
  · rw [FMap.get_insert_ne _ _ hc] at hget
    exact hn.filed.held c' data' hget

/-- Removing a chunk files nothing. -/
theorem Addressed.removeChunk (hn : Addressed P S n) (c : ChunkId) :
    Addressed P S (n.updHolder fun h => h.removeChunk c) :=
  ⟨hn.filed.removeChunk c, hn.received, hn.copies⟩

-- ------ the cache

/-- A chunk that matches may be cached, -/
theorem addresses_storeCached (now : Nat) {c : ChunkId}
    {data : List UInt8} (hmatch : Matches P S c data) :
    Addresses P S (storeCached now c data) := by
  refine Keeps.then (keeps_write fun _ hn => hn.addChunk hmatch _) ?_
  intro _
  refine Keeps.then (addresses_write fun _ => ⟨rfl, rfl, rfl, rfl⟩) ?_
  intro _
  exact addresses_write fun _ => ⟨rfl, rfl, rfl, rfl⟩

/-- in exchange for another. -/
theorem addresses_cacheRetrievedChunk (cfg : NodeConfig) (now : Nat)
    (order : IterOrder ChunkId) {c : ChunkId} {data : List UInt8}
    (hmatch : Matches P S c data) :
    Addresses P S (cacheRetrievedChunk cfg now order c data) := by
  unfold cacheRetrievedChunk
  split
  · trivial
  split
  · trivial
  refine Keeps.then (addresses_read _ _) ?_
  intro held
  split
  · trivial
  refine Keeps.then (addresses_read _ _) ?_
  intro fits
  split
  · exact addresses_storeCached now hmatch
  split
  · trivial
  refine Keeps.then (addresses_read _ _) ?_
  intro lru
  cases lru with
  | none => trivial
  | some lruId =>
      refine Keeps.then (addresses_read _ _) ?_
      intro evictedLen
      refine Keeps.then (keeps_write fun _ hn => hn.removeChunk lruId) ?_
      intro _
      refine Keeps.then (addresses_write fun _ => ⟨rfl, rfl, rfl, rfl⟩) ?_
      intro _
      refine Keeps.then (addresses_write fun _ => ⟨rfl, rfl, rfl, rfl⟩) ?_
      intro _
      refine Keeps.then (addresses_read _ _) ?_
      intro fits'
      split
      · exact addresses_storeCached now hmatch
      · trivial

/-- Evicting files nothing. -/
theorem addresses_evictExcessCache (order : IterOrder ChunkId)
    (maxCached turns : Nat) :
    Addresses P S (evictExcessCache order maxCached turns) := by
  unfold evictExcessCache
  split
  · trivial
  induction turns with
  | zero => trivial
  | succ turns ih =>
      refine Keeps.then (addresses_read _ _) ?_
      intro lru
      cases lru with
      | none => trivial
      | some lruId =>
          refine Keeps.then (keeps_atom fun _ hn =>
            ⟨hn.removeChunk lruId, trivial⟩) ?_
          intro evictedLen
          refine Keeps.then (addresses_write
            fun _ => ⟨rfl, rfl, rfl, rfl⟩) ?_
          intro _
          exact Keeps.then (addresses_write
            fun _ => ⟨rfl, rfl, rfl, rfl⟩) fun _ => ih

-- ------ responses and retrievals

/-- A chunk that matches may be recorded. -/
theorem Addressed.recordChunk (hn : Addressed P S n) {c : ChunkId}
    {data : List UInt8} (hmatch : Matches P S c data) :
    Addressed P S { n with contentRetriever :=
      (n.contentRetriever.recordChunk ⟨c, data⟩).2 } := by
  refine ⟨hn.filed, ?_, hn.copies⟩
  intro c' chunk hget
  dsimp only [ContentRetriever.recordChunk] at hget
  split at hget
  · by_cases hc : c' = c
    · rw [hc, FMap.get_insert_self] at hget
      injection hget with hget
      rw [hc, ← hget]
      exact hmatch
    · rw [FMap.get_insert_ne _ _ hc] at hget
      exact hn.received c' chunk hget
  · exact hn.received c' chunk hget

/-- What the holder has is recorded under its own id. -/
theorem Addressed.recordIfHeld (hn : Addressed P S n) (c : ChunkId) :
    Addressed P S (recordIfHeld c n) := by
  unfold StaticNet.recordIfHeld
  cases hget : n.transport.chunkHolder.getChunk c with
  | none => exact hn
  | some data => exact hn.recordChunk (hn.filed.held c data hget)

/-- A truthful response. -/
theorem addresses_response (cfg : NodeConfig) {r : ChunkResponse}
    (h : r.found = true → Matches P S r.chunkId r.chunkData) :
    Addresses P S (handleChunkResponse P cfg env r) := by
  unfold handleChunkResponse
  split
  next hfound =>
    have hmatch := h hfound
    refine Keeps.then (addresses_onTransport (files_retrieval hmatch)) ?_
    intro consumed
    split
    · trivial
    refine Keeps.then (keeps_atom fun _ hn =>
      ⟨hn.recordChunk hmatch, trivial⟩) ?_
    intro recorded
    dsimp only
    split
    · refine Keeps.then (addresses_write
        fun _ => ⟨rfl, rfl, rfl, rfl⟩) ?_
      intro _
      exact addresses_cacheRetrievedChunk _ _ _ hmatch
    · exact addresses_cacheRetrievedChunk _ _ _ hmatch
  next => exact addresses_write fun _ => ⟨rfl, rfl, rfl, rfl⟩

/-- What is still writes none of the four tables, but for marks. -/
theorem Still.addresses {l : NodeAct} (h : Still l n n')
    (hn : Addressed P S n) : Addressed P S n' := by
  refine ⟨hn.filed.harmless h.holder h.swaps.harmless, ?_, ?_⟩
  · rw [h.received]
    exact hn.received
  · rw [h.copies]
    exact hn.copies

theorem addresses_still {α : Type} {p : Task α} (hp : Sections Still p) :
    Addresses P S p :=
  .of_sections hp fun _ _ _ h _ hn => h.addresses hn

-- ------ the host buffer

/-- A drop brings no entry, -/
theorem HostBuffer.get_drop {b : HostBuffer} {c c' : ChunkId}
    {e : List UInt8 × Nat} (h : (b.drop c).buffer.get c' = some e) :
    b.buffer.get c' = some e := by
  unfold HostBuffer.drop at h
  split at h
  · dsimp only at h
    rw [FMap.get_erase] at h
    split at h
    · cases h
    · exact h
  · exact h

/-- nor does making room. -/
theorem HostBuffer.get_makeRoom {len : Nat} {ids : List ChunkId}
    {b : HostBuffer} {c : ChunkId} {e : List UInt8 × Nat}
    (h : (HostBuffer.makeRoom len ids b).buffer.get c = some e) :
    b.buffer.get c = some e := by
  induction ids generalizing b with
  | nil => exact h
  | cons old rest ih =>
      unfold HostBuffer.makeRoom at h
      split at h
      · exact HostBuffer.get_drop (ih h)
      · exact h

/-- An entry of the buffer after an insertion is the new one or an old
one. -/
theorem HostBuffer.get_insert {b : HostBuffer} {c c' : ChunkId}
    {data data' : List UInt8} {t t' : Nat}
    (h : (b.insert c data t).buffer.get c' = some (data', t')) :
    (c' = c ∧ data' = data) ∨ b.buffer.get c' = some (data', t') := by
  unfold HostBuffer.insert at h
  split at h
  · exact .inr h
  dsimp only at h
  by_cases hc : c' = c
  · rw [hc, FMap.get_insert_self] at h
    injection h with h
    injection h with hdata ht
    exact .inl ⟨hc, hdata.symm⟩
  · rw [FMap.get_insert_ne _ _ hc] at h
    have hroom := HostBuffer.get_makeRoom h
    split at hroom
    · exact .inr (HostBuffer.get_drop hroom)
    · exact .inr hroom

-- ------ rotation

/-- The copy for a proposal is what is held. -/
theorem addresses_dispatchProposal (renv : RotateEnv) (peer : NodeId)
    (p : SwapProposal) {c : ChunkId} {data : List UInt8}
    (hmatch : Matches P S c data) :
    Addresses P S (dispatchProposal P renv peer p c data) := by
  refine Keeps.then (addresses_write fun _ => ⟨rfl, rfl, rfl, rfl⟩) ?_
  intro _
  refine Keeps.then (addresses_write fun _ => ⟨rfl, rfl, rfl, rfl⟩) ?_
  intro _
  refine Keeps.then (addresses_read _ _) ?_
  intro created
  refine Keeps.then (keeps_write fun n hn =>
    ⟨hn.filed, hn.received, ?_⟩) ?_
  · intro c' data' t hget
    rcases HostBuffer.get_insert hget with ⟨hc, hdata⟩ | hold
    · rw [hc, hdata]
      exact hmatch
    · exact hn.copies c' data' t hold
  intro _
  exact addresses_write fun _ => ⟨rfl, rfl, rfl, rfl⟩

/-- A round of proposals for what is held. -/
theorem addresses_proposeAll (renv : RotateEnv) (node : NodeId)
    (masterKey : SymmetricKey) (known : List NodeId)
    (senders : FMap NodeId Unit) (i : Nat)
    (eligible : List (ChunkId × List UInt8))
    (h : ∀ e ∈ eligible, Matches P S e.1 e.2) :
    Addresses P S
      (proposeAll P renv node masterKey known senders i eligible) := by
  induction eligible generalizing i with
  | nil => trivial
  | cons entry rest ih =>
      have hentry := h entry List.mem_cons_self
      have ih := fun i => ih i fun e he => h e (List.mem_cons_of_mem _ he)
      unfold proposeAll
      dsimp only
      split
      · exact ih _
      refine Keeps.then (addresses_read _ _) ?_
      intro binding
      cases binding with
      | none => exact ih _
      | some binding =>
          refine Keeps.then (addresses_dispatchProposal _ _ _ hentry) ?_
          intro _
          exact (ih _).then fun _ => trivial

/-- The epoch copies what is held. -/
theorem addresses_rotationTick (cfg : RotationConfig) (node : NodeId)
    (renv : RotateEnv) :
    Addresses P S (rotationTick P cfg node renv) := by
  have hstamp : Addresses P S (stampEpoch renv.now) :=
    addresses_write fun _ => ⟨rfl, rfl, rfl, rfl⟩
  unfold rotationTick
  split
  · trivial
  refine Keeps.then (addresses_read _ _) ?_
  intro chunkIds
  refine Keeps.then (addresses_read _ _) ?_
  intro chosen
  split
  · exact hstamp
  refine Keeps.bind (Q := fun held => ∀ e ∈ held, Matches P S e.1 e.2)
    (keeps_read fun n hn e he => ?_) ?_
  · obtain ⟨c, -, hc⟩ := List.mem_filterMap.1 he
    obtain ⟨data, hget, rfl⟩ := Option.map_eq_some_iff.1 hc
    exact hn.filed.held c data hget
  intro held hheld
  refine Keeps.bind (Q := fun eligible => ∀ e ∈ eligible,
    Matches P S e.1 e.2) (keeps_read fun n hn e he => ?_) ?_
  · exact hheld e (List.mem_filter.1 he).1
  intro eligible heligible
  split
  · exact hstamp
  refine Keeps.then (addresses_read _ _) ?_
  intro known
  split
  · exact hstamp
  refine Keeps.then hstamp ?_
  intro _
  refine Keeps.then (addresses_read _ _) ?_
  intro masterKey
  refine Keeps.then (addresses_read _ _) ?_
  intro senders
  refine Keeps.then (addresses_proposeAll _ _ _ _ _ _ _ heligible) ?_
  intro dispatched
  dsimp only
  split
  · refine Keeps.then (addresses_write fun _ => ⟨rfl, rfl, rfl, rfl⟩) ?_
    intro _
    exact addresses_evictExcessCache _ _ _
  · exact addresses_evictExcessCache _ _ _

-- ============ repair

/-- The shards found for a list of ids, by position. -/
def Aligned (P : Prims) (S : ChunkId → Prop) (ids : List ChunkId)
    (shards : List (Option EncryptedChunk)) : Prop :=
  ∀ (i : Nat) (c : ChunkId) (chunk : EncryptedChunk), ids[i]? = some c →
    shards[i]? = some (some chunk) → Matches P S c chunk.data

/-- The manifest names the shards of an encoded content: the code fills
in what is missing of them, and no other data has their hashes. -/
structure Genuine (P : Prims) (rs : ErasureRepair) (S : ChunkId → Prop)
    (manifest : ContentManifest) (word : List (List UInt8)) : Prop where
  ids : manifest.chunkIds = word.map P.blake3
  total : word.length = manifest.dataShards + manifest.parityShards
  shards : ∀ c ∈ manifest.chunkIds, S c
  unique : ∀ d ∈ word, ∀ d', P.blake3 d' = P.blake3 d → d' = d
  fills : ∀ gaps : List (Option (List UInt8)), gaps.length = word.length →
    manifest.dataShards ≤ gaps.countP Option.isSome →
    (∀ (i : Nat) d, gaps[i]? = some (some d) → word[i]? = some d) →
    ∀ filled, rs.reconstruct manifest.dataShards manifest.parityShards gaps
      = .ok filled → filled = word

/-- Fetched shards fill gaps in place. -/
theorem aligned_merge {ids : List ChunkId}
    {available fetched : List (Option EncryptedChunk)}
    (h : Aligned P S ids available) (h' : Aligned P S ids fetched) :
    Aligned P S ids (mergeShards available fetched) := by
  intro i c chunk hid hget
  unfold mergeShards at hget
  rw [List.getElem?_map, List.getElem?_zipIdx] at hget
  cases hav : available[i]? with
  | none => rw [hav] at hget; cases hget
  | some shard =>
      rw [hav] at hget
      simp only [Option.map_some, Nat.zero_add, Option.some.injEq] at hget
      cases shard with
      | some own =>
          rw [Option.some_or] at hget
          exact h i c chunk hid (by rw [hav, hget])
      | none =>
          rw [Option.none_or] at hget
          cases hf : fetched[i]? with
          | none => rw [hf] at hget; cases hget
          | some other =>
              rw [hf] at hget
              exact h' i c chunk hid (by rw [hf]; exact congrArg some hget)

/-- A shard that matches is the content's own. -/
theorem aligned_word {rs : ErasureRepair} {manifest : ContentManifest}
    {word : List (List UInt8)} {shards : List (Option EncryptedChunk)}
    (hgen : Genuine P rs S manifest word)
    (halign : Aligned P S manifest.chunkIds shards)
    (hlen : shards.length = word.length) {i : Nat} {d : List UInt8}
    (hd : (shards.map fun s => s.map EncryptedChunk.data)[i]?
      = some (some d)) : word[i]? = some d := by
  rw [List.getElem?_map, Option.map_eq_some_iff] at hd
  obtain ⟨shard, hshard, hdata⟩ := hd
  obtain ⟨chunk, rfl, rfl⟩ := Option.map_eq_some_iff.1 hdata
  obtain ⟨hi, -⟩ := List.getElem?_eq_some_iff.1 hshard
  rw [hlen] at hi
  have hw : word[i]? = some word[i] := List.getElem?_eq_getElem hi
  have hid : manifest.chunkIds[i]? = some (P.blake3 word[i]) := by
    rw [hgen.ids, List.getElem?_map, hw, Option.map_some]
  have hhash := halign i _ chunk hid hshard
    (hgen.shards _ (List.mem_of_getElem? hid))
  rw [hw, hgen.unique _ (List.getElem_mem hi) _ hhash]

/-- What is decoded from shards that match is what the manifest names. -/
theorem erasureDecode_matches {rs : ErasureRepair}
    {manifest : ContentManifest} {word : List (List UInt8)}
    {shards : List (Option EncryptedChunk)} {chunks : List EncryptedChunk}
    (hgen : Genuine P rs S manifest word)
    (halign : Aligned P S manifest.chunkIds shards)
    (hdec : erasureDecode P rs shards manifest.dataShards
      manifest.parityShards = .ok chunks) :
    ∀ e ∈ manifest.chunkIds.zip chunks, Matches P S e.1 e.2.data := by
  unfold erasureDecode at hdec
  dsimp only at hdec
  split at hdec
  · cases hdec
  next hlen =>
    split at hdec
    · cases hdec
    next hpresent =>
      split at hdec
      · cases hdec
      next filled hfilled =>
        injection hdec with hdec
        have hword : filled = word := by
          refine hgen.fills _ ?_ ?_ ?_ filled hfilled
          · rw [List.length_map, hgen.total]
            exact not_not.1 hlen
          · rw [List.countP_map]
            have hsame : (Option.isSome ∘ fun s : Option EncryptedChunk =>
                s.map EncryptedChunk.data) = Option.isSome := by
              funext s
              exact Option.isSome_map
            rw [hsame]
            exact Nat.not_lt.1 hpresent
          · exact fun i d => aligned_word hgen halign
              ((not_not.1 hlen).trans hgen.total.symm)
        rw [hword] at hdec
        intro e he
        obtain ⟨i, hi⟩ := List.getElem?_of_mem he
        obtain ⟨hid, hchunk⟩ := List.getElem?_zip_eq_some.1 hi
        rw [← hdec, List.getElem?_map] at hchunk
        obtain ⟨d, hd, hdata⟩ := Option.map_eq_some_iff.1 hchunk
        have hd : word[i]? = some d := by
          rw [List.getElem?_take] at hd
          split at hd
          · exact hd
          · cases hd
        rw [hgen.ids, List.getElem?_map, hd, Option.map_some] at hid
        injection hid with hid
        intro _
        rw [← hdata]
        exact hid

-- ------ storing

/-- A chunk that matches may be stored again, -/
theorem addresses_storeRepairedChunk (now : Nat) (contentId : ContentId)
    {c : ChunkId} {data : List UInt8} (hmatch : Matches P S c data)
    (createdAt : Nat) :
    Addresses P S
      (storeRepairedChunk now contentId c data createdAt) := by
  refine Keeps.then (addresses_read _ _) ?_
  intro actual
  refine Keeps.then (addresses_atom fun _ => ⟨rfl, rfl, rfl, rfl⟩) ?_
  intro fits
  split
  · trivial
  refine Keeps.then (keeps_write fun n hn => ?_) ?_
  · unfold putRepaired
    split
    · exact hn
    · exact (hn.addChunk hmatch contentId).retains ⟨rfl, rfl, rfl, rfl⟩
  intro _
  exact Keeps.then (addresses_write fun _ => ⟨rfl, rfl, rfl, rfl⟩)
    fun _ => trivial

/-- What is reseeded comes from the host buffer. -/
theorem addresses_reseed (now : Nat) (contentId : ContentId)
    (ids : List ChunkId) :
    Addresses P S (reseed now contentId ids) := by
  induction ids with
  | nil => trivial
  | cons c rest ih =>
      refine Keeps.then (addresses_read _ _) ?_
      intro held
      split
      · exact ih
      refine Keeps.bind (Q := fun buffered => ∀ e, buffered = some e →
        Matches P S c e.1)
        (keeps_read fun n hn e he => hn.copies c e.1 e.2 he) ?_
      intro buffered hbuffered
      cases buffered with
      | none => exact ih
      | some entry =>
          exact (addresses_storeRepairedChunk now contentId
            (hbuffered entry rfl) entry.2).then fun _ =>
              ih.then fun _ => trivial

/-- and so may a list of them. -/
theorem addresses_storeReconstructed (now : Nat) (contentId : ContentId)
    (chunks : List (ChunkId × EncryptedChunk))
    (h : ∀ e ∈ chunks, Matches P S e.1 e.2.data) :
    Addresses P S (storeReconstructed now contentId chunks) := by
  induction chunks with
  | nil => trivial
  | cons entry rest ih =>
      have hentry := h entry List.mem_cons_self
      have ih := ih fun e he => h e (List.mem_cons_of_mem _ he)
      refine Keeps.then (addresses_read _ _) ?_
      intro held
      split
      · exact ih
      · exact (addresses_storeRepairedChunk now contentId hentry now).then
          fun _ => ih.then fun _ => trivial

-- ------ gathering

/-- What is held may be recorded. -/
theorem addresses_recordLocal (ids : List ChunkId) :
    Addresses P S (recordLocal ids) := by
  induction ids with
  | nil => trivial
  | cons c rest ih =>
      exact Keeps.then (keeps_write fun _ hn => hn.recordIfHeld c)
        fun _ => ih

/-- A task that returns shards found for the ids. -/
abbrev Finds (P : Prims) (S : ChunkId → Prop) (ids : List ChunkId)
    (p : Task (List (Option EncryptedChunk))) : Prop :=
  Keeps (Addressed P S) NodeIdsKept (Aligned P S ids) p

/-- What was received is found, -/
theorem finds_takeReceived (manifest : ContentManifest) :
    Finds P S manifest.chunkIds (takeReceived manifest) := by
  refine Keeps.bind (Q := Aligned P S manifest.chunkIds)
    (keeps_read fun n hn i c chunk hid hget => ?_) ?_
  · unfold snapshot at hget
    rw [List.getElem?_map, hid, Option.map_some] at hget
    injection hget with hget
    exact hn.received c chunk hget
  intro received hreceived
  refine Keeps.then (keeps_write fun n hn => ?_) fun _ => hreceived
  exact ⟨hn.filed, nofun, hn.copies⟩

/-- after asking for it, -/
theorem finds_fetchMissing (renv : RepairEnv)
    (manifest : ContentManifest) :
    Finds P S manifest.chunkIds (fetchMissing renv manifest) := by
  unfold fetchMissing
  split
  · exact fun i c chunk hid hget => by cases hget
  refine Keeps.then (addresses_atom fun _ => ⟨rfl, rfl, rfl, rfl⟩) ?_
  intro pending
  refine Keeps.then (addresses_recordLocal pending) ?_
  intro _
  refine Keeps.then (addresses_read _ _) ?_
  intro complete
  split
  · exact finds_takeReceived manifest
  refine Keeps.then (addresses_read _ _) ?_
  intro ids
  refine Keeps.then (addresses_still (still_sendRequests _)) ?_
  intro _
  exact (addresses_still (still_awaitComplete _)).then fun _ =>
    finds_takeReceived manifest

/-- and so is what is held. -/
theorem finds_heldShards (ids : List ChunkId) :
    Finds P S ids (heldShards ids) := by
  induction ids with
  | nil => exact fun i c chunk hid => by cases hid
  | cons c rest ih =>
      refine Keeps.bind (Q := fun shard => ∀ chunk, shard = some chunk →
        Matches P S c chunk.data) (keeps_read fun n hn chunk hchunk => ?_) ?_
      · obtain ⟨data, hget, rfl⟩ := Option.map_eq_some_iff.1 hchunk
        exact hn.filed.held c data hget
      intro shard hshard
      refine Keeps.bind ih ?_
      intro shards hshards i c' chunk hid hget
      cases i with
      | zero =>
          obtain rfl : c = c' := Option.some.inj hid
          exact hshard chunk (Option.some.inj hget)
      | succ i => exact hshards i c' chunk hid hget

/-- Repair files what the code makes of matching shards. -/
theorem addresses_repairContentOnce {rs : ErasureRepair}
    (renv : RepairEnv) {manifest : ContentManifest}
    {word : List (List UInt8)} (hgen : Genuine P rs S manifest word) :
    Addresses P S (repairContentOnce P rs renv manifest) := by
  refine Keeps.then (addresses_reseed _ _ _) ?_
  intro _
  refine Keeps.bind (finds_heldShards manifest.chunkIds) ?_
  intro available havailable
  refine Keeps.bind (Q := fun gathered => ∀ shards,
    gathered = some shards → Aligned P S manifest.chunkIds shards) ?_ ?_
  · unfold gatherShards
    split
    · rintro shards ⟨⟩
      exact havailable
    refine Keeps.then (addresses_still (still_gossipMissing _ _)) ?_
    intro _
    split
    · exact nofun
    refine Keeps.bind (finds_fetchMissing renv manifest) ?_
    rintro fetched hfetched shards ⟨⟩
    exact aligned_merge havailable hfetched
  intro gathered hgathered
  cases gathered with
  | none => trivial
  | some shards =>
      dsimp only
      split
      · trivial
      split
      · trivial
      next chunks hdec =>
        exact (addresses_storeReconstructed _ _ _ (erasureDecode_matches
          hgen (hgathered shards rfl) hdec)).then fun _ => trivial

-- ========== any task

/-- What the outside must grant a call: a found response for a shard's
id carries data with that hash, and a manifest under repair names the
shards of an encoded content. -/
def Truthful (N : NodeSetup) (S : ChunkId → Prop) : NodeEvent → Prop
  | .response _ r => r.found = true →
      Matches N.prims S r.chunkId r.chunkData
  | .repair _ manifest =>
      ∃ word, Genuine N.prims N.erasure S manifest word
  | _ => True

/-- A truthful call keeps the invariant. -/
theorem addresses_program (N : NodeSetup) {e : NodeEvent}
    (h : Truthful N S e) : Addresses N.prims S (e.program N) := by
  cases e with
  | proposal env p =>
      exact addresses_onTransport (files_tame (sections_proposal p))
  | accept env a =>
      exact addresses_onTransport (files_tame
        (sections_signedMessage (sections_adoptAccept a)))
  | commit env c =>
      exact addresses_onTransport (files_signedMessage
        (files_commitPending c))
  | abort env a =>
      exact addresses_onTransport (files_tame
        (sections_signedMessage (sections_abortPending a)))
  | reject r =>
      refine addresses_onTransport (Keeps.then (keeps_write fun s hs =>
        hs.harmless rfl (Harmless.refl _)) fun _ => ?_)
      exact keeps_write fun s hs => hs.harmless rfl (Harmless.refl _)
  | response env r => exact addresses_response _ h
  | expirePending env =>
      exact (addresses_onTransport (files_tame sections_expire)).then
        fun _ => trivial
  | retrievals order replySession sent =>
      exact addresses_still (still_retrievals _ _ _)
  | lease now e => exact addresses_onTransport (files_lease now e)
  | rotation env => exact addresses_rotationTick _ _ _
  | repair env manifest =>
      obtain ⟨word, hgen⟩ := h
      exact (addresses_repairContentOnce env hgen).then fun _ => trivial

-- ==== wherever the node gets

/-- As long as responses and manifests are truthful and no accept renames
a buffered chunk, every chunk held and every shard recorded under a
shard's id has that hash, however the tasks interleave. -/
theorem shards_addressed (N : NodeSetup) (S : ChunkId → Prop)
    (E : NodeEvent → Prop) (hE : ∀ e, E e → Truthful N S e)
    (n₀ n : NodeState) (hinit : Addressed N.prims S n₀)
    (ps : List (Task Unit)) (tr : List (Step NodeAct NodeState))
    (hreach : Reach (TaskOf N E) NodeIdsKept n₀ n ps tr) :
    (∀ c data, n.transport.chunkHolder.getChunk c = some data → S c →
        N.prims.blake3 data = c)
      ∧ ∀ c chunk, n.contentRetriever.received.get c = some chunk → S c →
          N.prims.blake3 chunk.data = c := by
  have hn : Addressed N.prims S n := by
    refine hreach.keeps hinit ?_
    rintro p ⟨e, he, rfl⟩
    exact addresses_program N (hE e he)
  exact ⟨hn.filed.held, hn.received⟩

-- ==== one reply, concretely

/-- The id of a one-byte ciphertext. -/
def oneByteShard : ChunkId := Prims.plain.blake3 [7]

/-- A reply for that shard. -/
def shardReply (data : List UInt8) : NodeEvent :=
  .response (quietEnv 40 150) ⟨oneByteShard, data, true⟩

/-- A reply that carries the shard is filed under its id. -/
theorem shards_addressed_reply :
    ((shardReply [7]).step cachingSetup
        cachingNode).transport.chunkHolder.getChunk oneByteShard = some [7]
      ∧ Prims.plain.blake3 [7] = oneByteShard := by
  have hstored : ((shardReply [7]).step cachingSetup
      cachingNode).transport.chunkHolder.getChunk oneByteShard
        = some [7] := rfl
  refine ⟨hstored, ?_⟩
  have hinit : Addressed Prims.plain (· = oneByteShard) cachingNode := by
    refine ⟨⟨?_, nofun⟩, nofun, nofun⟩
    have hnone : cachingNode.transport.chunkHolder.getChunk oneByteShard
      = none := by decide
    rintro c data hget rfl
    rw [hnone] at hget
    cases hget
  have hacts : ((shardReply [7]).program cachingSetup).acts cachingNode
      = [.retriever, .singles, .transport .holder, .transport .capacity,
          .transport .holder, .transport .capacity, .rotation] := rfl
  obtain ⟨tr, hreach, -⟩ := Reach.drain_of
    (H := TaskOf cachingSetup (· = shardReply [7])) (C := NodeIdsKept)
    ((shardReply [7]).program cachingSetup) cachingNode
    (by
      intro l hl n
      rw [hacts] at hl
      simp only [List.mem_cons, List.not_mem_nil, or_false] at hl
      rcases hl with rfl | rfl | rfl | rfl | rfl | rfl | rfl <;> trivial)
    [] [] [] (.spawn _ ⟨_, rfl, rfl⟩ .init)
  refine (shards_addressed cachingSetup (· = oneByteShard)
    (· = shardReply [7]) ?_ cachingNode _ hinit _ _ hreach).1 _ _
      hstored rfl
  rintro e rfl _ _
  rfl

/-- A reply that names the shard and carries another byte is cached under
the shard's id. -/
theorem shard_poisoned_by_reply :
    Prims.plain.blake3 [7] = oneByteShard
      ∧ ((shardReply [1]).step cachingSetup
          cachingNode).transport.chunkHolder.getChunk oneByteShard
        = some [1]
      ∧ Prims.plain.blake3 [1] ≠ oneByteShard :=
  ⟨rfl, rfl, by decide⟩

end StaticNet
