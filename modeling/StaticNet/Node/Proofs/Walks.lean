/-
What the node's tasks do beside what an invariant is about.

An invariant of the node speaks of a few of its tables, and most sections
of most tasks write none of them. What they do is said once: `Aside` of a
section that sends no proposal and leaves the pending entries, the ages
and the host buffer; `Mild` of one that leaves the holder, the leases and
the cache's list as well; `Still` of one that leaves what the retriever
has received. A class of tasks that has the mild ones and is closed
under sequencing (`Closed`) has a repair once it has what a repair
stores, a response once it has what a response hands on, and a rotation
tick once it has its proposals.
-/
import StaticNet.Lib.Keeps
import StaticNet.Node.Run
import StaticNet.Swap.Proofs.Effects
import StaticNet.Swap.Proofs.Gate

namespace StaticNet

open Proc NodeState

-- ====== the sections

/-- The table is as it was, or an entry is marked as requested. -/
def Marked (m m' : FMap ProposalId PendingSwap) : Prop :=
  m' = m ∨ ∃ pid, m' = m.modify pid fun swap =>
    { swap with retrievalRequested := true }

/-- No proposal is sent, and the pending entries, the ages and the host
buffer stay. -/
structure Aside (l : NodeAct) (n n' : NodeState) : Prop where
  silent : ∀ dest p, l ≠ .propose dest p
  swaps : Marked n.transport.swapState.pendingSwaps
    n'.transport.swapState.pendingSwaps
  metadata : n'.chunkMetadata = n.chunkMetadata
  copies : n'.hostBuffer = n.hostBuffer

/-- Nor are the holder, the leases and the cache's list written. -/
structure Mild (l : NodeAct) (n n' : NodeState) : Prop
    extends Aside l n n' where
  holder : n'.transport.chunkHolder = n.transport.chunkHolder
  leases : n'.transport.leaseManager = n.transport.leaseManager
  cached : n'.rotationState.cachedChunks = n.rotationState.cachedChunks

/-- Nor is what the retriever has received. -/
structure Still (l : NodeAct) (n n' : NodeState) : Prop
    extends Mild l n n' where
  received : n'.contentRetriever.received = n.contentRetriever.received

variable {P : Prims} {l : NodeAct} {n n' : NodeState}
  {m m' : FMap ProposalId PendingSwap}

/-- A mark keeps every entry's peer. -/
theorem Marked.traced {K : ProposalId → NodeId → Prop}
    (h : Marked m m') : Traced K m m' := by
  rcases h with rfl | ⟨pid, rfl⟩
  · exact .refl _
  · exact .modify _ pid fun _ => rfl

/-- A mark is none of what the gate reads. -/
theorem Marked.harmless (h : Marked m m') : Harmless m m' := by
  rcases h with rfl | ⟨pid, rfl⟩
  · exact .refl _
  · exact harmless_modify _ pid fun _ => ⟨rfl, rfl, rfl, rfl, rfl⟩

/-- What changes nothing and offers nothing is aside, -/
theorem Aside.refl (hl : ∀ dest p, l ≠ .propose dest p) : Aside l n n :=
  ⟨hl, .inl rfl, rfl, rfl⟩

/-- is mild, -/
theorem Mild.refl (hl : ∀ dest p, l ≠ .propose dest p) : Mild l n n :=
  ⟨.refl hl, rfl, rfl, rfl⟩

/-- and is still. -/
theorem Still.refl (hl : ∀ dest p, l ≠ .propose dest p) : Still l n n :=
  ⟨.refl hl, rfl⟩

theorem aside_read {α : Type} (f : NodeState → α)
    (hl : ∀ dest p, l ≠ .propose dest p) :
    Sections Aside (Proc.read l f) :=
  fun _ => ⟨.refl hl, trivial⟩

theorem mild_read {α : Type} (f : NodeState → α)
    (hl : ∀ dest p, l ≠ .propose dest p) :
    Sections Mild (Proc.read l f) :=
  fun _ => ⟨.refl hl, trivial⟩

theorem still_read {α : Type} (f : NodeState → α)
    (hl : ∀ dest p, l ≠ .propose dest p) :
    Sections Still (Proc.read l f) :=
  fun _ => ⟨.refl hl, trivial⟩

theorem aside_write {upd : NodeState → NodeState}
    (h : ∀ n, Aside l n (upd n)) : Sections Aside (Proc.write l upd) :=
  fun n => ⟨h n, trivial⟩

theorem mild_write {upd : NodeState → NodeState}
    (h : ∀ n, Mild l n (upd n)) : Sections Mild (Proc.write l upd) :=
  fun n => ⟨h n, trivial⟩

theorem mild_atom {α : Type} {f : NodeState → α × NodeState}
    (h : ∀ n, Mild l n (f n).2) : Sections Mild (Proc.atom l f) :=
  fun n => ⟨h n, trivial⟩

/-- What is sent and is no proposal. -/
theorem still_send (hl : ∀ dest p, l ≠ .propose dest p) :
    Sections Still (Proc.write l id) :=
  fun _ => ⟨.refl hl, trivial⟩

/-- Whatever is still is mild. -/
theorem mild_of_still {α : Type} {p : Task α} (hp : Sections Still p) :
    Sections Mild p :=
  hp.mono fun _ _ _ h => h.toMild

-- ========= the cache

/-- Caching writes the holder, the count and the list. -/
theorem aside_storeCached (now : Nat) (c : ChunkId) (data : List UInt8) :
    Sections Aside (storeCached now c data) := by
  refine Sections.bind (aside_write fun _ => ⟨nofun, .inl rfl, rfl, rfl⟩) ?_
  intro _
  refine Sections.bind (aside_write fun _ => ⟨nofun, .inl rfl, rfl, rfl⟩) ?_
  intro _
  exact aside_write fun _ => ⟨nofun, .inl rfl, rfl, rfl⟩

/-- Caching a chunk and evicting one for it are aside. -/
theorem aside_cacheRetrievedChunk (cfg : NodeConfig) (now : Nat)
    (order : IterOrder ChunkId) (c : ChunkId) (data : List UInt8) :
    Sections Aside (cacheRetrievedChunk cfg now order c data) := by
  unfold cacheRetrievedChunk
  split
  · trivial
  split
  · trivial
  refine Sections.bind (aside_read _ nofun) ?_
  intro held
  split
  · trivial
  refine Sections.bind (aside_read _ nofun) ?_
  intro fits
  split
  · exact aside_storeCached now c data
  split
  · trivial
  refine Sections.bind (aside_read _ nofun) ?_
  intro lru
  cases lru with
  | none => trivial
  | some lruId =>
      refine Sections.bind (aside_read _ nofun) ?_
      intro evictedLen
      refine Sections.bind
        (aside_write fun _ => ⟨nofun, .inl rfl, rfl, rfl⟩) ?_
      intro _
      refine Sections.bind
        (aside_write fun _ => ⟨nofun, .inl rfl, rfl, rfl⟩) ?_
      intro _
      refine Sections.bind
        (aside_write fun _ => ⟨nofun, .inl rfl, rfl, rfl⟩) ?_
      intro _
      refine Sections.bind (aside_read _ nofun) ?_
      intro fits'
      split
      · exact aside_storeCached now c data
      · trivial

/-- An eviction writes these too. -/
theorem aside_evictExcessCache (order : IterOrder ChunkId)
    (maxCached turns : Nat) :
    Sections Aside (evictExcessCache order maxCached turns) := by
  unfold evictExcessCache
  split
  · trivial
  induction turns with
  | zero => trivial
  | succ turns ih =>
      refine Sections.bind (aside_read _ nofun) ?_
      intro lru
      cases lru with
      | none => trivial
      | some lruId =>
          refine Sections.bind
            (fun _ => ⟨⟨nofun, .inl rfl, rfl, rfl⟩, trivial⟩) ?_
          intro evictedLen
          refine Sections.bind
            (aside_write fun _ => ⟨nofun, .inl rfl, rfl, rfl⟩) ?_
          intro _
          exact Sections.bind
            (aside_write fun _ => ⟨nofun, .inl rfl, rfl, rfl⟩) fun _ => ih

/-- Noting rotations leaves the cache's list. -/
theorem recordRotations_cachedChunks (order : IterOrder ChunkId)
    (now : Nat) (cs : List ChunkId) (st : RotationState) :
    (cs.foldl (fun st c => st.recordRotation order c now) st).cachedChunks
      = st.cachedChunks := by
  induction cs generalizing st with
  | nil => rfl
  | cons c rest ih => exact ih _

-- ========== requests

/-- A request for a pending swap's chunk marks the swap. -/
theorem still_requestTargets (sent : ProposalId → Bool)
    (targets : List (ProposalId × NodeId × ChunkId)) :
    Sections Still (requestTargets sent targets) := by
  induction targets with
  | nil => trivial
  | cons target rest ih =>
      obtain ⟨pid, peer, c⟩ := target
      refine Sections.bind (still_read _ nofun) ?_
      intro known
      dsimp only
      split
      · refine Sections.bind (still_send nofun) ?_
        intro _
        split
        · refine Sections.bind (fun n => ⟨?_, trivial⟩) fun _ => ih
          exact ⟨⟨⟨nofun, .inr ⟨pid, rfl⟩, rfl, rfl⟩, rfl, rfl, rfl⟩, rfl⟩
        · exact ih
      · exact ih

/-- The round asks for each chunk that is named. -/
theorem still_retrievals (order : IterOrder ProposalId)
    (replySession : Bool) (sent : ProposalId → Bool) :
    Sections Still (processSwapRetrievals order replySession sent) := by
  refine Sections.bind (still_read _ nofun) ?_
  intro targets
  split
  · trivial
  split
  · trivial
  · exact still_requestTargets sent targets

/-- Requests are only sent, -/
theorem still_sendRequests (requests : List (NodeId × ChunkId)) :
    Sections Still (sendRequests requests) := by
  induction requests with
  | nil => trivial
  | cons request rest ih =>
      exact Sections.bind (still_send nofun) fun _ => ih

/-- waiting only looks, -/
theorem still_awaitComplete (polls : Nat) :
    Sections Still (awaitComplete polls) := by
  induction polls with
  | zero => trivial
  | succ polls ih =>
      refine Sections.bind (still_read _ nofun) ?_
      intro done
      split
      · trivial
      · exact ih

/-- reports are only sent, -/
theorem still_gossipMissing (contentId : ContentId)
    (shards : List (ChunkId × Option EncryptedChunk)) :
    Sections Still (gossipMissing contentId shards) := by
  induction shards with
  | nil => trivial
  | cons shard rest ih =>
      obtain ⟨c, shard⟩ := shard
      unfold gossipMissing
      dsimp only
      split
      · exact Sections.bind (still_send nofun) fun _ => ih
      · exact ih

/-- and what is held is only read. -/
theorem still_heldShards (ids : List ChunkId) :
    Sections Still (heldShards ids) := by
  induction ids with
  | nil => trivial
  | cons c rest ih =>
      exact Sections.bind (still_read _ nofun) fun _ =>
        ih.bind fun _ => trivial

-- ========== fetching

/-- Recording writes the retriever, -/
theorem mild_recordLocal (ids : List ChunkId) :
    Sections Mild (recordLocal ids) := by
  induction ids with
  | nil => trivial
  | cons c rest ih =>
      exact Sections.bind (mild_write fun _ =>
        ⟨⟨nofun, .inl rfl, rfl, rfl⟩, rfl, rfl, rfl⟩) fun _ => ih

/-- and so does taking. -/
theorem mild_takeReceived (manifest : ContentManifest) :
    Sections Mild (takeReceived manifest) := by
  refine Sections.bind (mild_read _ nofun) ?_
  intro received
  exact Sections.bind (mild_write fun _ =>
    ⟨⟨nofun, .inl rfl, rfl, rfl⟩, rfl, rfl, rfl⟩) fun _ => trivial

/-- Fetching writes the retriever and nothing else. -/
theorem mild_fetchMissing (env : RepairEnv) (manifest : ContentManifest) :
    Sections Mild (fetchMissing env manifest) := by
  unfold fetchMissing
  split
  · trivial
  refine Sections.bind (mild_atom fun _ =>
    ⟨⟨nofun, .inl rfl, rfl, rfl⟩, rfl, rfl, rfl⟩) ?_
  intro pending
  refine Sections.bind (mild_recordLocal pending) ?_
  intro _
  refine Sections.bind (mild_read _ nofun) ?_
  intro complete
  split
  · exact mild_takeReceived manifest
  refine Sections.bind (mild_read _ nofun) ?_
  intro ids
  refine Sections.bind (mild_of_still (still_sendRequests _)) ?_
  intro _
  exact (mild_of_still (still_awaitComplete _)).bind fun _ =>
    mild_takeReceived manifest

/-- Gathering asks and fetches. -/
theorem mild_gatherShards (env : RepairEnv) (manifest : ContentManifest)
    (available : List (Option EncryptedChunk)) :
    Sections Mild (gatherShards env manifest available) := by
  unfold gatherShards
  split
  · trivial
  refine Sections.bind (mild_of_still (still_gossipMissing _ _)) ?_
  intro _
  split
  · trivial
  · exact (mild_fetchMissing _ _).bind fun _ => trivial

-- ==== closed classes

/-- A class of tasks that has the mild ones and is closed under
sequencing. -/
structure Closed (H : (α : Type) → Task α → Prop) : Prop where
  mild : ∀ {α : Type} {p : Task α}, Sections Mild p → H α p
  bind : ∀ {α β : Type} {p : Task α} {f : α → Task β}, H α p →
    (∀ a, H β (f a)) → H β (p >>= f)

/-- An invariant that mild sections keep. -/
theorem closed_keeps {J : NodeState → Prop} {C : NodeAct → NodeState → Prop}
    (hJ : ∀ l n n', Mild l n n' → J n → J n') :
    Closed fun _ p => Keeps J C (fun _ => True) p :=
  ⟨fun hp => .of_sections hp fun l n n' h _ => hJ l n n' h, Keeps.then⟩

/-- A guarantee of which mild sections are a case. -/
theorem closed_sections {G : NodeAct → NodeState → NodeState → Prop}
    (hG : ∀ l n n', Mild l n n' → G l n n') :
    Closed fun _ p => Sections G p :=
  ⟨fun hp => hp.mono hG, Sections.bind⟩

variable {H : (α : Type) → Task α → Prop}

/-- A chunk no swap waits for: what is cached. -/
theorem Closed.keepRetrieved (hH : Closed H) {cfg : NodeConfig} {env : Env}
    {c : ChunkId} {data : List UInt8}
    (hcache : H _ (cacheRetrievedChunk cfg env.now env.chunkOrder c data)) :
    H _ (keepRetrieved cfg env c data) := by
  refine hH.bind (hH.mild (mild_atom fun _ =>
    ⟨⟨nofun, .inl rfl, rfl, rfl⟩, rfl, rfl, rfl⟩)) ?_
  intro recorded
  dsimp only
  split
  · exact hH.bind (hH.mild (mild_write fun _ =>
      ⟨⟨nofun, .inl rfl, rfl, rfl⟩, rfl, rfl, rfl⟩)) fun _ => hcache
  · exact hcache

/-- A response: what the swaps make of it, and what is cached. -/
theorem Closed.response (hH : Closed H) {cfg : NodeConfig} {env : Env}
    {r : ChunkResponse}
    (hswaps : H _ (onTransport
      (handleSwapChunkRetrieval P env r.chunkId r.chunkData)))
    (hcache : H _ (cacheRetrievedChunk cfg env.now env.chunkOrder r.chunkId
      r.chunkData)) :
    H _ (handleChunkResponse P cfg env r) := by
  unfold handleChunkResponse
  split
  · refine hH.bind hswaps ?_
    intro consumed
    split
    · exact hH.mild trivial
    · exact Closed.keepRetrieved hH hcache
  · exact hH.mild (mild_write fun _ => .refl nofun)

/-- A rotation tick: its proposals, and the eviction at its end. -/
theorem Closed.rotationTick (hH : Closed H) {cfg : RotationConfig}
    {node : NodeId} {env : RotateEnv}
    (hpropose : ∀ masterKey known senders eligible, H _
      (proposeAll P env node masterKey known senders 0 eligible))
    (hevict : ∀ order maxCached turns, H _
      (evictExcessCache order maxCached turns)) :
    H _ (rotationTick P cfg node env) := by
  have hstamp : H _ (stampEpoch env.now) := hH.mild (mild_write fun _ =>
    ⟨⟨nofun, .inl rfl, rfl, rfl⟩, rfl, rfl, rfl⟩)
  have hread : ∀ {α : Type} {l : NodeAct} (f : NodeState → α),
      (∀ dest p, l ≠ .propose dest p) → H _ (Proc.read l f) :=
    fun f hl => hH.mild (mild_read f hl)
  unfold StaticNet.rotationTick
  split
  · exact hH.mild trivial
  refine hH.bind (hread _ nofun) ?_
  intro chunkIds
  refine hH.bind (hread _ nofun) ?_
  intro chosen
  split
  · exact hstamp
  refine hH.bind (hread _ nofun) ?_
  intro held
  refine hH.bind (hread _ nofun) ?_
  intro eligible
  split
  · exact hstamp
  refine hH.bind (hread _ nofun) ?_
  intro known
  split
  · exact hstamp
  refine hH.bind hstamp ?_
  intro _
  refine hH.bind (hread _ nofun) ?_
  intro masterKey
  refine hH.bind (hread _ nofun) ?_
  intro senders
  refine hH.bind (hpropose _ _ _ _) ?_
  intro dispatched
  dsimp only
  split
  · refine hH.bind (hH.mild (mild_write fun n =>
      ⟨⟨nofun, .inl rfl, rfl, rfl⟩, rfl, rfl, ?_⟩)) fun _ => hevict _ _ _
    exact recordRotations_cachedChunks _ _ _ _
  · exact hevict _ _ _

section Stores

variable (hH : Closed H) (hstore : ∀ now contentId c data createdAt,
  H _ (storeRepairedChunk now contentId c data createdAt))

include hH hstore

/-- Pass 1 stores what is buffered. -/
theorem Closed.reseed (now : Nat) (contentId : ContentId)
    (ids : List ChunkId) : H _ (reseed now contentId ids) := by
  induction ids with
  | nil => exact hH.mild trivial
  | cons c rest ih =>
      refine hH.bind (hH.mild (mild_read _ nofun)) ?_
      intro held
      split
      · exact ih
      refine hH.bind (hH.mild (mild_read _ nofun)) ?_
      intro buffered
      cases buffered with
      | none => exact ih
      | some entry =>
          exact hH.bind (hstore _ _ _ _ _) fun _ =>
            hH.bind ih fun _ => hH.mild trivial

/-- Pass 3 stores what was reconstructed. -/
theorem Closed.storeReconstructed (now : Nat) (contentId : ContentId)
    (chunks : List (ChunkId × EncryptedChunk)) :
    H _ (storeReconstructed now contentId chunks) := by
  induction chunks with
  | nil => exact hH.mild trivial
  | cons chunk rest ih =>
      obtain ⟨c, chunk⟩ := chunk
      refine hH.bind (hH.mild (mild_read _ nofun)) ?_
      intro held
      split
      · exact ih
      · exact hH.bind (hstore _ _ _ _ _) fun _ =>
          hH.bind ih fun _ => hH.mild trivial

/-- A repair: what it stores. -/
theorem Closed.repair (rs : ErasureRepair) (env : RepairEnv)
    (manifest : ContentManifest) :
    H _ (repairContentOnce P rs env manifest) := by
  refine hH.bind (Closed.reseed hH hstore _ _ _) ?_
  intro _
  refine hH.bind (hH.mild (mild_of_still (still_heldShards _))) ?_
  intro available
  refine hH.bind (hH.mild (mild_gatherShards _ _ _)) ?_
  intro gathered
  cases gathered with
  | none => exact hH.mild trivial
  | some available =>
      dsimp only
      split
      · exact hH.mild trivial
      split
      · exact hH.mild trivial
      · exact hH.bind (Closed.storeReconstructed hH hstore _ _ _)
          fun _ => hH.mild trivial

end Stores

end StaticNet
