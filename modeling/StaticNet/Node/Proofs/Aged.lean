/-
How old a chunk is, in a node that barters it away and stores it again.

A chunk stays on its host for a day, and its day must not begin anew when
it comes back: neither when a report has it stored again from the host
buffer, nor when a repair does, nor when the rotation copies it there. Its
age is written in two places, the metadata and the host buffer, by tasks
that read it in one section and write it in another. As long as the
metadata says when the chunk is from, each of them reads that
(`Aged`). Only a publication of the same chunk would begin its day anew:
it is not among the tasks (`HostTask`).
-/
import StaticNet.Lib.Abides
import StaticNet.Node.Proofs.Addressed
import StaticNet.Node.Proofs.Carried
import StaticNet.Node.Proofs.FirstHop
import StaticNet.Node.Proofs.Unmatched
import StaticNet.Node.Reseed

namespace StaticNet

open Proc NodeState

-- =========== the age

/-- The chunk is from `t`, wherever it says when it is from. -/
structure Aged (c : ChunkId) (t : Nat) (n : NodeState) : Prop where
  metadata : ∃ m, n.chunkMetadata.get c = some m ∧ m.createdAt = t
  copy : ∀ data t', n.hostBuffer.buffer.get c = some (data, t') → t' = t

/-- A proposal that offers the chunk is sent. -/
def Offers (c : ChunkId) : NodeAct → Prop
  | .propose _ p => p.chunkId = c
  | _ => False

/-- What a task may do: it offers no chunk that is young. -/
abbrev Permitted (young : Prop) (c : ChunkId) (l : NodeAct) : Prop :=
  young → ¬ Offers c l

/-- A task that keeps the age. -/
abbrev Ages {α : Type} (young : Prop) (c : ChunkId) (t : Nat)
    (p : Task α) : Prop :=
  Abides (Aged c t) (Permitted young c) (fun _ => True) p

variable {P : Prims} {young : Prop} {c : ChunkId} {t : Nat}
  {n n' : NodeState}

/-- Neither of the two places is written. -/
structure Timeless (n n' : NodeState) : Prop where
  metadata : n'.chunkMetadata = n.chunkMetadata
  copies : n'.hostBuffer.buffer = n.hostBuffer.buffer

/-- What writes neither place keeps the age. -/
theorem Aged.timeless (hn : Aged c t n) (h : Timeless n n') :
    Aged c t n' := by
  refine ⟨?_, ?_⟩
  · rw [h.metadata]
    exact hn.metadata
  · rw [h.copies]
    exact hn.copy

/-- A read that offers nothing keeps it, -/
theorem ages_read {α : Type} {l : NodeAct} {f : NodeState → α}
    (hl : ¬ Offers c l) : Ages young c t (Proc.read l f) :=
  abides_read (fun _ => hl) fun _ _ => trivial

/-- so does a write of neither place, -/
theorem ages_write {l : NodeAct} {upd : NodeState → NodeState}
    (hl : ¬ Offers c l) (h : ∀ n, Timeless n (upd n)) :
    Ages young c t (Proc.write l upd) :=
  abides_write (fun _ => hl) fun _ hn => hn.timeless (h _)

/-- and a section that does both. -/
theorem ages_atom {α : Type} {l : NodeAct} {f : NodeState → α × NodeState}
    (hl : ¬ Offers c l) (h : ∀ n, Timeless n (f n).2) :
    Ages young c t (Proc.atom l f) :=
  abides_atom (fun _ => hl) fun _ hn => ⟨hn.timeless (h _), trivial⟩

/-- The transport has neither place. -/
theorem ages_onTransport {α : Type} (p : Handler α) :
    Ages young c t (onTransport p) :=
  abides_zoom (fun _ _ => id) (fun _ _ hn => hn.timeless ⟨rfl, rfl⟩) p

-- ==== the tasks beside it

/-- What is aside writes neither place and offers nothing. -/
theorem Aside.ages {l : NodeAct} (h : Aside l n n') :
    Permitted young c l ∧ (Aged c t n → Aged c t n') := by
  refine ⟨fun _ hoffer => ?_, fun hn => hn.timeless ⟨h.metadata, ?_⟩⟩
  · cases l with
    | propose dest p => exact h.silent dest p rfl
    | _ => exact hoffer
  · rw [h.copies]

theorem ages_aside {α : Type} {p : Task α} (hp : Sections Aside p) :
    Ages young c t p :=
  have : Nonempty NodeState := ⟨rotatingNode⟩
  .of_sections hp fun _ _ _ h => h.ages

/-- The age is kept by all that is mild. -/
theorem ages_closed : Closed fun _ p => Ages young c t p :=
  ⟨fun hp => ages_aside (hp.mono fun _ _ _ h => h.toAside), Abides.then⟩

/-- A response is recorded, and may be cached. -/
theorem ages_response (cfg : NodeConfig) (env : Env) (r : ChunkResponse) :
    Ages young c t (handleChunkResponse P cfg env r) :=
  ages_closed.response (ages_onTransport _)
    (ages_aside (aside_cacheRetrievedChunk _ _ _ _ _))

-- ===== storing again

/-- What a stored chunk's metadata says, if it was there. -/
theorem ages_storeRepairedChunk (now : Nat) (contentId : ContentId)
    (id : ChunkId) (data : List UInt8) (createdAt : Nat) :
    Ages young c t
      (storeRepairedChunk now contentId id data createdAt) := by
  refine Abides.then (ages_read not_false) ?_
  intro actual
  refine Abides.then (ages_atom not_false fun _ => ⟨rfl, rfl⟩) ?_
  intro fits
  split
  · trivial
  refine Abides.then (ages_write not_false fun n => ?_) ?_
  · unfold putRepaired
    split
    · exact ⟨rfl, rfl⟩
    · exact ⟨rfl, rfl⟩
  intro _
  refine Abides.then (abides_write (fun _ => not_false) fun n hn => ?_)
    fun _ => trivial
  obtain ⟨m, hm, ht⟩ := hn.metadata
  refine ⟨?_, hn.copy⟩
  dsimp only
  by_cases hid : c = id
  · subst hid
    rw [hm]
    exact ⟨_, FMap.get_insert_self _ _ _, ht⟩
  · rw [FMap.get_insert_ne _ _ hid]
    exact ⟨m, hm, ht⟩

/-- What a report stores again keeps its age. -/
theorem ages_handleMissingChunkGossip (env : ReseedEnv)
    (gossip : MissingChunkGossip) :
    Ages young c t (handleMissingChunkGossip P env gossip) := by
  unfold handleMissingChunkGossip
  split
  · trivial
  refine Abides.then (ages_read not_false) ?_
  intro buffered
  cases buffered with
  | none => trivial
  | some entry =>
      refine Abides.then (ages_storeRepairedChunk _ _ _ _ _) ?_
      intro stored
      split
      · trivial
      · trivial

-- ------ rotation

/-- An entry of the buffer after an insertion is as old as what was
inserted, or was there. -/
theorem HostBuffer.of_get_insert {b : HostBuffer} {c' : ChunkId}
    {data data' : List UInt8} {t' : Nat}
    (h : (b.insert c data t).buffer.get c' = some (data', t')) :
    (c' = c ∧ t' = t) ∨ b.buffer.get c' = some (data', t') := by
  unfold HostBuffer.insert at h
  split at h
  · exact .inr h
  dsimp only at h
  by_cases hc : c' = c
  · rw [hc, FMap.get_insert_self] at h
    injection h with h
    injection h with hdata ht
    exact .inl ⟨hc, ht.symm⟩
  · rw [FMap.get_insert_ne _ _ hc] at h
    have hroom := HostBuffer.get_makeRoom h
    split at hroom
    · exact .inr (HostBuffer.get_drop hroom)
    · exact .inr hroom

/-- The copy for a proposal has the age of the metadata. -/
theorem ages_dispatchProposal (env : RotateEnv) (peer : NodeId)
    (p : SwapProposal) (id : ChunkId) (data : List UInt8)
    (hoffer : Permitted young c (.propose peer p)) :
    Ages young c t (dispatchProposal P env peer p id data) := by
  refine Abides.then (ages_write not_false fun _ => ⟨rfl, rfl⟩) ?_
  intro _
  refine Abides.then (abides_write hoffer fun _ hn => hn) ?_
  intro _
  refine Abides.bind (Q := fun created => id = c → created = t)
    (abides_read (fun _ => not_false) fun n hn hid => ?_) ?_
  · obtain ⟨m, hm, ht⟩ := hn.metadata
    rw [hid, hm]
    exact ht
  intro created hcreated
  refine Abides.then (abides_write (fun _ => not_false) fun n hn =>
    ⟨hn.metadata, ?_⟩) ?_
  · intro data' t' hget
    rcases HostBuffer.of_get_insert hget with ⟨hc, ht⟩ | hold
    · rw [ht]
      exact hcreated hc.symm
    · exact hn.copy data' t' hold
  intro _
  refine abides_write (fun _ => not_false) fun n hn => ?_
  obtain ⟨m, hm, ht⟩ := hn.metadata
  refine ⟨?_, hn.copy⟩
  dsimp only
  by_cases hid : c = id
  · subst hid
    rw [FMap.get_modify_self, hm]
    exact ⟨_, rfl, ht⟩
  · rw [FMap.get_modify_ne _ _ hid]
    exact ⟨m, hm, ht⟩

/-- A proposal is for the chunk it was made for. -/
theorem createSwapProposal_chunkId {fromNode : NodeId} {id : ChunkId}
    {masterKey : SymmetricKey} {duration now : Nat} {root : MerkleRoot}
    {proof : MerkleProof} {key : Bytes 32} {sk : Option SigningKey}
    {drawn : Bytes 32} :
    (createSwapProposal P fromNode id masterKey duration now root proof key
      sk drawn).chunkId = id := by
  unfold createSwapProposal
  dsimp only
  split <;> rfl

/-- A round of proposals, none for the chunk while it is young. -/
theorem ages_proposeAll (env : RotateEnv) (node : NodeId)
    (masterKey : SymmetricKey) (known : List NodeId)
    (senders : FMap NodeId Unit) (i : Nat)
    (eligible : List (ChunkId × List UInt8))
    (h : young → ∀ e ∈ eligible, e.1 ≠ c) :
    Ages young c t
      (proposeAll P env node masterKey known senders i eligible) := by
  induction eligible generalizing i with
  | nil => trivial
  | cons entry rest ih =>
      have hentry : young → entry.1 ≠ c := fun hyoung =>
        h hyoung entry List.mem_cons_self
      have ih := fun i => ih i fun hyoung e he =>
        h hyoung e (List.mem_cons_of_mem _ he)
      unfold proposeAll
      dsimp only
      split
      · exact ih _
      refine Abides.then (ages_read not_false) ?_
      intro binding
      cases binding with
      | none => exact ih _
      | some binding =>
          refine Abides.then (ages_dispatchProposal _ _ _ _ _ ?_) ?_
          · intro hyoung hoffer
            refine hentry hyoung (Eq.trans ?_ hoffer)
            exact createSwapProposal_chunkId.symm
          intro _
          exact (ih _).then fun _ => trivial

/-- A chunk that is young is not rotated. -/
theorem Aged.not_rotatable (hn : Aged c t n) {cfg : RotationConfig}
    {now : Nat} (hyoung : now < t + STALENESS_THRESHOLD_SECS) :
    rotatable cfg now n c = false := by
  obtain ⟨m, hm, ht⟩ := hn.metadata
  have hfresh : m.barterEligible now = false := by
    unfold ChunkMetadata.barterEligible
    rw [ht, decide_eq_false_iff_not]
    unfold STALENESS_THRESHOLD_SECS at hyoung ⊢
    omega
  unfold rotatable
  rw [hm]
  dsimp only
  rw [hfresh, Bool.and_false]

/-- The filter lets no young chunk through. -/
theorem ages_rotationTick (cfg : RotationConfig) (node : NodeId)
    (env : RotateEnv)
    (hyoung : young → env.now < t + STALENESS_THRESHOLD_SECS) :
    Ages young c t (rotationTick P cfg node env) := by
  have hstamp : Ages young c t (stampEpoch env.now) :=
    ages_write not_false fun _ => ⟨rfl, rfl⟩
  unfold rotationTick
  split
  · trivial
  refine Abides.then (ages_read not_false) ?_
  intro chunkIds
  refine Abides.then (ages_read not_false) ?_
  intro chosen
  split
  · exact hstamp
  refine Abides.then (ages_read not_false) ?_
  intro held
  -- the filter looks at the metadata
  refine Abides.bind (Q := fun eligible =>
    young → ∀ e ∈ eligible, e.1 ≠ c)
    (abides_read (fun _ => not_false) fun n hn hy e he hid => ?_) ?_
  · have hrot := (List.mem_filter.1 he).2
    rw [hid, hn.not_rotatable (hyoung hy)] at hrot
    cases hrot
  intro eligible heligible
  split
  · exact hstamp
  refine Abides.then (ages_read not_false) ?_
  intro known
  split
  · exact hstamp
  refine Abides.then hstamp ?_
  intro _
  refine Abides.then (ages_read not_false) ?_
  intro masterKey
  refine Abides.then (ages_read not_false) ?_
  intro senders
  refine Abides.then (ages_proposeAll _ _ _ _ _ _ _ heligible) ?_
  intro dispatched
  dsimp only
  split
  · refine Abides.then (ages_write not_false fun _ => ⟨rfl, rfl⟩) ?_
    intro _
    exact ages_aside (aside_evictExcessCache _ _ _)
  · exact ages_aside (aside_evictExcessCache _ _ _)

-- ========== any task

/-- A task of the node, the handling of a report, or a publication that
stamps other chunks. -/
inductive HostTask (N : NodeSetup) (E : NodeEvent → Prop) (c : ChunkId) :
    Task Unit → Prop
  | task {p : Task Unit} (h : TaskOf N E p) : HostTask N E c p
  | report (env : ReseedEnv) (gossip : MissingChunkGossip) :
      HostTask N E c do
        let _ ← handleMissingChunkGossip N.prims env gossip
  | published (now : Nat) (ids : List ChunkId) (h : c ∉ ids) :
      HostTask N E c (stampPublished now ids)

/-- A publication leaves the metadata of all other chunks. -/
theorem ages_stampPublished (now : Nat) {ids : List ChunkId}
    (h : c ∉ ids) : Ages young c t (stampPublished now ids) := by
  have hsame : ∀ (ids : List ChunkId) (m : FMap ChunkId ChunkMetadata),
      c ∉ ids → (ids.foldl
        (fun m id => m.insert id (ChunkMetadata.fresh now)) m).get c
        = m.get c := by
    intro ids
    induction ids with
    | nil => exact fun _ _ => rfl
    | cons id rest ih =>
        intro m hc
        rw [List.mem_cons, not_or] at hc
        rw [List.foldl_cons, ih _ hc.2, FMap.get_insert_ne _ _ hc.1]
  refine abides_write (fun _ => not_false) fun n hn => ?_
  obtain ⟨m, hm, ht⟩ := hn.metadata
  exact ⟨⟨m, (hsame ids _ h).trans hm, ht⟩, hn.copy⟩

/-- Every call of the node keeps the age. -/
theorem ages_program (N : NodeSetup) {e : NodeEvent}
    (h : ∀ env, e = .rotation env → young →
      env.now < t + STALENESS_THRESHOLD_SECS) :
    Ages young c t (e.program N) := by
  cases e with
  | proposal env p => exact ages_onTransport _
  | accept env a => exact ages_onTransport _
  | commit env c => exact ages_onTransport _
  | abort env a => exact ages_onTransport _
  | reject r => exact ages_onTransport _
  | response env r => exact ages_response _ _ _
  | expirePending env => exact (ages_onTransport _).then fun _ => trivial
  | retrievals order replySession sent =>
      exact ages_closed.mild (mild_of_still (still_retrievals _ _ _))
  | lease now e => exact ages_onTransport _
  | rotation env => exact ages_rotationTick _ _ _ (h env rfl)
  | repair env manifest =>
      exact (ages_closed.repair ages_storeRepairedChunk N.erasure env
        manifest).then fun _ => trivial

/-- So does every task of a host. -/
theorem ages_hostTask (N : NodeSetup) {E : NodeEvent → Prop}
    (h : young → ∀ env, E (.rotation env) →
      env.now < t + STALENESS_THRESHOLD_SECS) {p : Task Unit}
    (hp : HostTask N E c p) : Ages young c t p := by
  cases hp with
  | task htask =>
      obtain ⟨e, he, rfl⟩ := htask
      refine ages_program N ?_
      rintro env rfl hyoung
      exact h hyoung env he
  | report env gossip =>
      exact (ages_handleMissingChunkGossip _ _).then fun _ => trivial
  | published now ids hc => exact ages_stampPublished now hc

-- ======== the report

/-- What a report has stored again: it is in time, the host buffer has the
chunk, and it fits. -/
def reseedData (env : ReseedEnv) (gossip : MissingChunkGossip)
    (n : NodeState) : Option (List UInt8) :=
  if gossip.inTime env.now then
    match n.hostBuffer.buffer.get gossip.chunkId with
    | none => none
    | some (data, _) =>
        if (n.transport.storageCapacity.reconcile
            n.transport.chunkHolder.totalBytes).canAccept data.length 0
        then some data
        else none
  else none

/-- The way back that a report names. -/
def MissingChunkGossip.back (gossip : MissingChunkGossip) : Route :=
  ⟨gossip.returnRoute.hops, gossip.returnRoute.destination⟩

/-- What a report is answered with: the chunk. -/
def reseedPayload (gossip : MissingChunkGossip) (data : List UInt8) :
    List UInt8 := serializeResponse ⟨gossip.chunkId, data, true⟩

/-- The report can be answered: the way back has a hop, the KEM key of
every hop is known, and of the destination where it does not end there,
it is not too long, and every packet can encapsulate to its hops. -/
structure Repliable (P : Prims) (env : ReseedEnv)
    (gossip : MissingChunkGossip) (data : List UInt8) : Prop where
  hop : gossip.back.hops ≠ []
  known : ∀ hop ∈ gossip.back.hops,
    (env.kemLookup hop.nodeId).isSome = true
  ends : gossip.back.hops.getLast?.map RouteHop.nodeId
      = some gossip.back.destination
    ∨ (env.kemLookup gossip.back.destination).isSome = true
  sealable : ∀ route,
    effectiveRoute env.kemLookup gossip.back = .ok route →
    route.hops.length ≤ MAX_HOPS
      ∧ ∀ k < (fragmentPayload (reseedPayload gossip data)).length,
        ∀ i hop, route.hops[i]? = some hop →
          (P.encapsulateTo hop.kemPublicKey ((env.draws k).coins i)).isSome
            = true

/-- The chunk is held again, or still, nothing else is, and the reporter
is sent its bytes if it can be. -/
structure Reseeds (P : Prims) (env : ReseedEnv)
    (gossip : MissingChunkGossip) (n : NodeState) (data : List UInt8) :
    Prop where
  /-- when an answer goes out -/
  answered : (handleMissingChunkGossip P env gossip).out n ≠ none
    ↔ Repliable P env gossip data
  /-- to whom, and what it carries: a packet for each fragment -/
  carries : ∀ firstHop packets,
    (handleMissingChunkGossip P env gossip).out n = some (firstHop, packets) →
    gossip.back.hops.head?.map RouteHop.nodeId = some firstHop
      ∧ ∃ route, effectiveRoute env.kemLookup gossip.back = .ok route
        ∧ List.Forall₂ (fun (fk : List UInt8 × Nat) packet =>
            createPacketHybrid P (env.draws fk.2) route fk.1 = .ok packet)
          ((fragmentPayload (reseedPayload gossip data)).map
            serializeFragment).zipIdx packets
  held : ((handleMissingChunkGossip P env gossip).post
      n).transport.chunkHolder.getChunk gossip.chunkId
    = some ((n.transport.chunkHolder.getChunk gossip.chunkId).getD data)
  others : ∀ id, id ≠ gossip.chunkId →
    ((handleMissingChunkGossip P env gossip).post
        n).transport.chunkHolder.getChunk id
      = n.transport.chunkHolder.getChunk id

/-- Nothing is answered or stored. -/
structure Declines (P : Prims) (env : ReseedEnv)
    (gossip : MissingChunkGossip) (n : NodeState) : Prop where
  answer : (handleMissingChunkGossip P env gossip).out n = none
  holder : ((handleMissingChunkGossip P env gossip).post
    n).transport.chunkHolder = n.transport.chunkHolder
  metadata : ((handleMissingChunkGossip P env gossip).post
    n).chunkMetadata = n.chunkMetadata

/-- A route has its KEM keys exactly when they are known. -/
theorem effectiveRoute_ok_iff {kemLookup : NodeId → Option (List UInt8)}
    {back : Route} :
    (∃ route, effectiveRoute kemLookup back = .ok route)
      ↔ (∀ hop ∈ back.hops, (kemLookup hop.nodeId).isSome = true)
        ∧ (back.hops.getLast?.map RouteHop.nodeId = some back.destination
          ∨ (kemLookup back.destination).isSome = true) := by
  by_cases hknown : ∀ hop ∈ back.hops, ∃ kem,
      kemLookup hop.nodeId = some kem
  · obtain ⟨hs, hok⟩ := hopsWithKem_of hknown
    have hlast : hs.getLast?.map HybridRouteHop.nodeId
        = back.hops.getLast?.map RouteHop.nodeId := by
      rw [← (hopsWithKem_ok hok).1, List.getLast?_map, Option.map_map]
      rfl
    have hall : ∀ hop ∈ back.hops, (kemLookup hop.nodeId).isSome = true :=
      fun hop hmem => Option.isSome_iff_exists.2 (hknown hop hmem)
    rw [and_iff_right hall]
    unfold effectiveRoute
    rw [hok]
    dsimp only
    rw [hlast]
    by_cases hend : back.hops.getLast?.map RouteHop.nodeId
        = some back.destination
    · rw [if_neg (not_not.2 hend)]
      exact iff_of_true ⟨_, rfl⟩ (.inl hend)
    · rw [if_pos hend]
      unfold hopWithKem
      cases kemLookup back.destination with
      | none => simp [hend]
      | some kem => simp
  · constructor
    · rintro ⟨route, hroute⟩
      exfalso
      unfold effectiveRoute at hroute
      cases hhops : hopsWithKem kemLookup back.hops with
      | error e =>
          rw [hhops] at hroute
          cases hroute
      | ok hs =>
          refine hknown fun hop hmem => ?_
          obtain ⟨hmap, hkeys⟩ := hopsWithKem_ok hhops
          rw [← hmap] at hmem
          obtain ⟨h, hh, rfl⟩ := List.mem_map.1 hmem
          exact ⟨_, hkeys h hh⟩
    · rintro ⟨hall, -⟩
      exact absurd (fun hop hmem =>
        Option.isSome_iff_exists.1 (hall hop hmem)) hknown

/-- A route with its keys has the hops it had, or one more. -/
theorem effectiveRoute_hops {kemLookup : NodeId → Option (List UInt8)}
    {back : Route} {route : HybridRoute} (hne : back.hops ≠ [])
    (h : effectiveRoute kemLookup back = .ok route) :
    0 < route.hops.length := by
  unfold effectiveRoute at h
  cases hhops : hopsWithKem kemLookup back.hops with
  | error e =>
      rw [hhops] at h
      cases h
  | ok hs =>
      have hmap := (hopsWithKem_ok hhops).1
      have hpos : 0 < hs.length := by
        rw [← List.length_map HybridRouteHop.classical, hmap]
        exact List.length_pos_of_ne_nil hne
      rw [hhops] at h
      dsimp only at h
      split at h
      · split at h
        · cases h
        · cases h
          exact Nat.lt_of_lt_of_le hpos (by simp)
      · cases h
        exact hpos

/-- The packets of a payload over a route with hops. -/
theorem fragmentPackets_ok_iff {draws : Nat → PacketDraws}
    {route : HybridRoute} (hpos : 0 < route.hops.length)
    (payload : List UInt8) :
    (∃ packets, bodyPackets P draws route 0
        ((fragmentPayload payload).map serializeFragment) = .ok packets)
      ↔ route.hops.length ≤ MAX_HOPS
        ∧ ∀ k < (fragmentPayload payload).length,
          ∀ i hop, route.hops[i]? = some hop →
            (P.encapsulateTo hop.kemPublicKey ((draws k).coins i)).isSome
              = true := by
  have hbody : ∀ k (hk : k < (fragmentPayload payload).length),
      ((fragmentPayload payload).map serializeFragment)[k]?
        = some (serializeFragment (fragmentPayload payload)[k]) := by
    intro k hk
    rw [List.getElem?_map, List.getElem?_eq_getElem hk]
    rfl
  have hsize : ∀ f, (serializeFragment f).length ≤ BODY_SIZE :=
    fun f => Nat.le_of_eq (length_serializeFragment f)
  rw [bodyPackets_ok_iff]
  constructor
  · intro hall
    have hmax : route.hops.length ≤ MAX_HOPS := by
      obtain ⟨packet, hok⟩ :=
        hall 0 _ (hbody 0 (Turn.fragmentPayload_pos payload))
      exact (createPacketHybrid_ok hok).2.1
    refine ⟨hmax, fun k hk => ?_⟩
    have hone := hall k _ (hbody k hk)
    rw [Nat.zero_add] at hone
    exact (createPacketHybrid_ok_iff hpos hmax (hsize _)).1 hone
  · rintro ⟨hmax, hseal⟩ k body hget
    obtain ⟨f, hf, rfl⟩ := Option.map_eq_some_iff.1
      ((List.getElem?_map).symm.trans hget)
    rw [Nat.zero_add]
    exact (createPacketHybrid_ok_iff hpos hmax (hsize f)).2
      (hseal k (List.getElem?_eq_some_iff.1 hf).1)

/-- When there is an answer. -/
theorem reseedAnswer_ne_none_iff {env : ReseedEnv}
    {gossip : MissingChunkGossip} {data : List UInt8} :
    reseedAnswer P env gossip data ≠ none
      ↔ Repliable P env gossip data := by
  have hpackets : reseedAnswer P env gossip data ≠ none
      ↔ gossip.back.hops ≠ [] ∧ ∃ packets, createHybridPayloadPackets P
        env.draws (reseedPayload gossip data) gossip.back env.kemLookup
          = .ok packets := by
    unfold reseedAnswer
    cases hhops : gossip.returnRoute.hops with
    | nil => simp [MissingChunkGossip.back, hhops]
    | cons hop rest =>
        have hback : gossip.back.hops ≠ [] := by
          simp [MissingChunkGossip.back, hhops]
        rw [and_iff_right hback]
        unfold MissingChunkGossip.back reseedPayload
        rw [hhops, List.head?_cons]
        dsimp only
        cases createHybridPayloadPackets P env.draws _ _ env.kemLookup with
        | error e => simp
        | ok packets => simp
  rw [hpackets]
  constructor
  · rintro ⟨hne, packets, hok⟩
    unfold createHybridPayloadPackets at hok
    cases hroute : effectiveRoute env.kemLookup gossip.back with
    | error e =>
        rw [hroute] at hok
        cases hok
    | ok route =>
        rw [hroute] at hok
        obtain ⟨hknown, hends⟩ := effectiveRoute_ok_iff.1 ⟨route, hroute⟩
        refine ⟨hne, hknown, hends, fun route' hroute' => ?_⟩
        obtain rfl := Except.ok.inj (hroute.symm.trans hroute')
        exact (fragmentPackets_ok_iff
          (effectiveRoute_hops hne hroute) _).1 ⟨packets, hok⟩
  · intro h
    obtain ⟨route, hroute⟩ := effectiveRoute_ok_iff.2 ⟨h.known, h.ends⟩
    refine ⟨h.hop, ?_⟩
    unfold createHybridPayloadPackets
    rw [hroute]
    exact (fragmentPackets_ok_iff
      (effectiveRoute_hops h.hop hroute) _).2 (h.sealable route hroute)

/-- An answer goes to the first hop and carries the fragments. -/
theorem reseedAnswer_carries {env : ReseedEnv}
    {gossip : MissingChunkGossip} {data : List UInt8} {firstHop : NodeId}
    {packets : List SphinxPacket}
    (h : reseedAnswer P env gossip data = some (firstHop, packets)) :
    gossip.back.hops.head?.map RouteHop.nodeId = some firstHop
      ∧ ∃ route, effectiveRoute env.kemLookup gossip.back = .ok route
        ∧ List.Forall₂ (fun (fk : List UInt8 × Nat) packet =>
            createPacketHybrid P (env.draws fk.2) route fk.1 = .ok packet)
          ((fragmentPayload (reseedPayload gossip data)).map
            serializeFragment).zipIdx packets := by
  unfold reseedAnswer at h
  split at h
  · cases h
  · next hop hhead =>
      split at h
      · next packets' hok =>
          cases h
          refine ⟨congrArg (Option.map RouteHop.nodeId) hhead, ?_⟩
          unfold createHybridPayloadPackets at hok
          cases hroute : effectiveRoute env.kemLookup gossip.back with
          | error e =>
              unfold MissingChunkGossip.back at hroute
              rw [hroute] at hok
              cases hok
          | ok route =>
              unfold MissingChunkGossip.back at hroute
              rw [hroute] at hok
              exact ⟨route, rfl, bodyPackets_get hok⟩
      · cases h

/-- Storing again adds the chunk, if it is not held. -/
theorem putRepaired_holder (contentId : ContentId) (id : ChunkId)
    (data : List UInt8) (n : NodeState) :
    (putRepaired contentId id data n).transport.chunkHolder
      = if n.transport.chunkHolder.hasChunk id then n.transport.chunkHolder
        else n.transport.chunkHolder.addChunk id data contentId := by
  unfold putRepaired
  split <;> rfl

/-- Where it fits it is stored, -/
theorem storeRepairedChunk_fits (now : Nat) (contentId : ContentId)
    (id : ChunkId) {data : List UInt8} (createdAt : Nat)
    (hfits : (n.transport.storageCapacity.reconcile
      n.transport.chunkHolder.totalBytes).canAccept data.length 0 = true) :
    (storeRepairedChunk now contentId id data createdAt).out n = true
      ∧ ((storeRepairedChunk now contentId id data createdAt).post
          n).transport.chunkHolder
        = if n.transport.chunkHolder.hasChunk id then n.transport.chunkHolder
          else n.transport.chunkHolder.addChunk id data contentId := by
  have hfits' : (n.updSpace fun cap => cap.reconcile
      n.transport.chunkHolder.totalBytes).transport.storageCapacity.canAccept
        data.length 0 = true := hfits
  unfold storeRepairedChunk
  simp only [out_bind, post_bind, out_read, post_read, out_atom, post_atom,
    hfits', Bool.not_true, Bool.false_eq_true, if_false, post_write,
    out_pure, post_pure, true_and]
  exact putRepaired_holder contentId id data _

/-- and elsewhere only the count of bytes is corrected. -/
theorem storeRepairedChunk_full (now : Nat) (contentId : ContentId)
    (id : ChunkId) {data : List UInt8} (createdAt : Nat)
    (hfull : (n.transport.storageCapacity.reconcile
      n.transport.chunkHolder.totalBytes).canAccept data.length 0 = false) :
    (storeRepairedChunk now contentId id data createdAt).out n = false
      ∧ (storeRepairedChunk now contentId id data createdAt).post n
        = n.updSpace fun cap => cap.reconcile
            n.transport.chunkHolder.totalBytes := by
  have hfull' : (n.updSpace fun cap => cap.reconcile
      n.transport.chunkHolder.totalBytes).transport.storageCapacity.canAccept
        data.length 0 = false := hfull
  unfold storeRepairedChunk
  simp only [out_bind, post_bind, out_read, post_read, out_atom, post_atom,
    hfull', Bool.not_false, if_true, out_pure, post_pure, true_and]

/-- With the chunk in the buffer, a report in time comes down to storing
it. -/
theorem handleMissingChunkGossip_buffered {env : ReseedEnv}
    {gossip : MissingChunkGossip} {data : List UInt8} {createdAt : Nat}
    (htime : gossip.inTime env.now = true)
    (hget : n.hostBuffer.buffer.get gossip.chunkId
      = some (data, createdAt)) :
    (handleMissingChunkGossip P env gossip).out n
        = (if (storeRepairedChunk env.now gossip.contentId gossip.chunkId
            data createdAt).out n then reseedAnswer P env gossip data
          else none)
      ∧ (handleMissingChunkGossip P env gossip).post n
        = (storeRepairedChunk env.now gossip.contentId gossip.chunkId data
            createdAt).post n := by
  unfold handleMissingChunkGossip
  rw [htime]
  simp only [Bool.not_true, Bool.false_eq_true, if_false, out_bind,
    post_bind, out_read, post_read, hget]
  cases (storeRepairedChunk env.now gossip.contentId gossip.chunkId data
    createdAt).out n with
  | false => exact ⟨rfl, rfl⟩
  | true => exact ⟨rfl, rfl⟩

/-- What the host buffer has and what fits is stored and answered. -/
theorem reseeds_of_data {env : ReseedEnv} {gossip : MissingChunkGossip}
    {data : List UInt8} (h : reseedData env gossip n = some data) :
    Reseeds P env gossip n data := by
  obtain ⟨createdAt, htime, hget, hfits⟩ : ∃ createdAt,
      gossip.inTime env.now = true
        ∧ n.hostBuffer.buffer.get gossip.chunkId = some (data, createdAt)
        ∧ (n.transport.storageCapacity.reconcile
            n.transport.chunkHolder.totalBytes).canAccept data.length 0
          = true := by
    unfold reseedData at h
    split at h
    · next htime =>
        split at h
        · cases h
        · next data' createdAt hget =>
            split at h
            · next hfits =>
                obtain rfl := Option.some.inj h
                exact ⟨createdAt, htime, hget, hfits⟩
            · cases h
    · cases h
  obtain ⟨hout, hpost⟩ := @handleMissingChunkGossip_buffered P n env gossip
    data createdAt htime hget
  obtain ⟨hstored, hholder⟩ := storeRepairedChunk_fits env.now
    gossip.contentId gossip.chunkId createdAt hfits
  rw [hstored, if_pos rfl] at hout
  refine ⟨?_, ?_, ?_, ?_⟩
  · rw [hout]
    exact reseedAnswer_ne_none_iff
  · intro firstHop packets hsent
    exact reseedAnswer_carries (hout.symm.trans hsent)
  · rw [hpost, hholder]
    unfold ChunkHolder.hasChunk FMap.contains
    cases hheld : n.transport.chunkHolder.chunks.get gossip.chunkId with
    | some held =>
        rw [Option.isSome_some, if_pos rfl]
        unfold ChunkHolder.getChunk
        rw [hheld]
        rfl
    | none =>
        rw [Option.isSome_none, if_neg Bool.false_ne_true]
        unfold ChunkHolder.getChunk
        rw [hheld]
        exact FMap.get_insert_self _ _ _
  · intro id hid
    rw [hpost, hholder]
    split
    · rfl
    · exact FMap.get_insert_ne _ _ hid

/-- Anything else is declined. -/
theorem declines_of_none {env : ReseedEnv} {gossip : MissingChunkGossip}
    (h : reseedData env gossip n = none) : Declines P env gossip n := by
  unfold reseedData at h
  by_cases htime : gossip.inTime env.now = true
  · rw [if_pos htime] at h
    cases hget : n.hostBuffer.buffer.get gossip.chunkId with
    | none =>
        have hsilent : (handleMissingChunkGossip P env gossip).out n = none
            ∧ (handleMissingChunkGossip P env gossip).post n = n := by
          unfold handleMissingChunkGossip
          rw [htime]
          simp only [Bool.not_true, Bool.false_eq_true, if_false, out_bind,
            post_bind, out_read, post_read, hget, out_pure, post_pure,
            and_self]
        obtain ⟨hout, hpost⟩ := hsilent
        exact ⟨hout, by rw [hpost], by rw [hpost]⟩
    | some entry =>
        obtain ⟨data, createdAt⟩ := entry
        rw [hget] at h
        dsimp only at h
        split at h
        · cases h
        · next hfull =>
            obtain ⟨hout, hpost⟩ := @handleMissingChunkGossip_buffered P n
              env gossip data createdAt htime hget
            obtain ⟨hstored, hbooks⟩ := storeRepairedChunk_full env.now
              gossip.contentId gossip.chunkId createdAt
              (Bool.not_eq_true _ ▸ hfull)
            rw [hstored, if_neg Bool.false_ne_true] at hout
            rw [hbooks] at hpost
            exact ⟨hout, by rw [hpost]; rfl, by rw [hpost]; rfl⟩
  · have hlate : (!gossip.inTime env.now) = true := by
      rw [Bool.not_eq_true']
      exact Bool.not_eq_true _ ▸ htime
    have hsilent : handleMissingChunkGossip P env gossip = pure none :=
      if_pos hlate
    exact ⟨by rw [hsilent]; rfl, by rw [hsilent]; rfl, by rw [hsilent]; rfl⟩

-- ==== wherever the node gets

/-- However the tasks of a node and the reports it handles interleave, a
chunk stays as old as it was, in its metadata and in the host buffer. As
long as it is young no rotation offers it. And a report of it is declined,
or the chunk is stored again from the host buffer, and goes to the first
hop of the way back if the report can be answered. -/
theorem age_kept (N : NodeSetup) (E : NodeEvent → Prop) (c : ChunkId)
    (t : Nat) (n₀ n : NodeState) (hinit : Aged c t n₀)
    (ps : List (Task Unit)) (tr : List (Step NodeAct NodeState))
    (hreach : Reach (HostTask N E c) (fun _ _ => True) n₀ n ps tr) :
    Aged c t n
      ∧ ((∀ env, E (.rotation env) →
          env.now < t + STALENESS_THRESHOLD_SECS) →
        ∀ x ∈ tr, ¬ Offers c x.1)
      ∧ ∀ env gossip,
        (∀ data, reseedData env gossip n = some data →
          Reseeds N.prims env gossip n data)
          ∧ (reseedData env gossip n = none →
            Declines N.prims env gossip n) := by
  refine ⟨?_, ?_, ?_⟩
  · exact (hreach.abides (L := Permitted False c) hinit fun p hp =>
      ages_hostTask N False.elim hp).1
  · intro hyoung x hx
    exact (hreach.abides (L := Permitted True c) hinit fun p hp =>
      ages_hostTask N (fun _ => hyoung) hp).2 x hx trivial
  · intro env gossip
    exact ⟨fun _ => reseeds_of_data, declines_of_none⟩

-- ==== two epochs, concretely

/-- A chunk of second 1, and one without metadata. -/
def datedChunk : ChunkId := Bytes.fill 32 9

def undatedChunk : ChunkId := Bytes.fill 32 8

/-- A node that holds both, with leases and proofs, and is connected to
one peer. -/
def datedNode : NodeState :=
  { rotatingNode with
    transport := { rotatingNode.transport with
      chunkHolder := (ChunkHolder.new.addChunk datedChunk [5]
        (Bytes.zero 32)).addChunk undatedChunk [7] (Bytes.zero 32)
      leaseManager := (LeaseManager.new.addLease datedChunk
          ⟨datedChunk, 200000, Bytes.zero 32, Bytes.zero 32⟩).addLease
        undatedChunk
          ⟨undatedChunk, 200000, Bytes.zero 32, Bytes.zero 32⟩ }
    merkleProofs := (FMap.insert ∅ datedChunk
        (Bytes.fill 32 3, emptyProof)).insert undatedChunk
      (Bytes.fill 32 3, emptyProof)
    chunkMetadata := FMap.insert ∅ datedChunk ⟨1, 1, false⟩
    hostBuffer := HostBuffer.new 10 }

/-- The chunk is from second 1. -/
theorem datedNode_aged : Aged datedChunk 1 datedNode :=
  ⟨⟨_, FMap.get_insert_self _ _ _, rfl⟩, nofun⟩

/-- An epoch on the second day. -/
def secondDay : RotateEnv := quietRotation (Bytes.fill 32 4) 6 90000

/-- A report of the first chunk, over one hop. -/
def chunkReport : MissingChunkGossip where
  contentId := Bytes.fill 32 0
  chunkId := datedChunk
  timestamp := 90050
  returnRoute := ⟨[⟨Bytes.fill 32 5, Bytes.fill 16 5⟩], Bytes.fill 16 5⟩

/-- It comes at second 90100. -/
def reportEnv : ReseedEnv :=
  ⟨90100, fun _ => some (List.replicate 1184 0), fun _ => quietDraws⟩

/-- The tick offers the other one. -/
theorem datedNode_offers : ∃ p, NodeAct.propose (Bytes.fill 16 1) p
      ∈ ((NodeEvent.rotation rotatingEnv).program rotatingSetup).acts
          datedNode
    ∧ p.chunkId = undatedChunk := by
  have hat : (((NodeEvent.rotation rotatingEnv).program
      rotatingSetup).acts datedNode)[10]?
      = some (.propose (Bytes.fill 16 1) (rotationProposal Prims.plain
        rotatingEnv (Bytes.fill 16 2) (Bytes.zero 32) 0 undatedChunk
        (Bytes.fill 32 3, emptyProof))) := rfl
  exact ⟨_, List.mem_of_getElem? hat, createSwapProposal_chunkId⟩

/-- On the first day the epoch offers the other chunk only. On the second
it offers both, and the copy it makes is from second 1: a report has it
sent. -/
theorem age_kept_rotated :
    (∃ ps tr, Reach (HostTask rotatingSetup (· = .rotation rotatingEnv)
          datedChunk) (fun _ _ => True) datedNode
          ((NodeEvent.rotation rotatingEnv).step rotatingSetup datedNode)
          ps tr
        ∧ (∃ x ∈ tr, Offers undatedChunk x.1)
        ∧ ∀ x ∈ tr, ¬ Offers datedChunk x.1)
      ∧ Aged datedChunk 1
        ((NodeEvent.rotation secondDay).step rotatingSetup datedNode)
      ∧ ((NodeEvent.rotation secondDay).step rotatingSetup
          datedNode).hostBuffer.buffer.get datedChunk = some ([5], 1)
      ∧ (handleMissingChunkGossip Prims.plain reportEnv chunkReport).out
          ((NodeEvent.rotation secondDay).step rotatingSetup datedNode)
        ≠ none := by
  have hrepliable : Repliable Prims.plain reportEnv chunkReport [5] := by
    refine ⟨by decide, fun _ _ => rfl, .inl (by decide), ?_⟩
    intro route hroute
    obtain rfl := Except.ok.inj hroute
    refine ⟨by decide, fun k hk i hop hget => ?_⟩
    obtain ⟨hi, rfl⟩ := List.getElem?_eq_some_iff.1 hget
    obtain rfl := Nat.lt_one_iff.1 hi
    show (Prims.plain.encapsulateTo (List.replicate 1184 0) _).isSome = true
    unfold Prims.encapsulateTo
    rw [if_neg (by rw [List.length_replicate]; decide)]
    rfl
  have hday := Reach.sequential
    (H := HostTask rotatingSetup (· = .rotation secondDay) datedChunk)
    (C := fun _ _ => True) (fun _ _ => trivial)
    (p := (NodeEvent.rotation secondDay).program rotatingSetup)
    (.task ⟨_, rfl, rfl⟩) (s := datedNode) .init
  obtain ⟨tr, hreach, -⟩ := hday
  obtain ⟨haged, -, hreport⟩ := age_kept rotatingSetup _ datedChunk 1
    datedNode _ datedNode_aged _ _ hreach
  refine ⟨?_, haged, by decide +kernel, ?_⟩
  · obtain ⟨tr, hreach, hacts⟩ := Reach.sequential
      (H := HostTask rotatingSetup (· = .rotation rotatingEnv) datedChunk)
      (C := fun _ _ => True) (fun _ _ => trivial)
      (p := (NodeEvent.rotation rotatingEnv).program rotatingSetup)
      (.task ⟨_, rfl, rfl⟩) (s := datedNode) .init
    refine ⟨_, [] ++ tr, hreach, ?_, ?_⟩
    · obtain ⟨p, hp, hid⟩ := datedNode_offers
      rw [← hacts] at hp
      obtain ⟨x, hx, hl⟩ := List.mem_map.1 hp
      refine ⟨x, hx, ?_⟩
      rw [hl]
      exact hid
    · refine (age_kept rotatingSetup _ datedChunk 1 datedNode _
        datedNode_aged _ _ hreach).2.1 ?_
      rintro env henv
      obtain rfl := NodeEvent.rotation.inj henv
      decide
  · exact ((hreport reportEnv chunkReport).1 [5]
      (by decide +kernel)).answered.2 hrepliable

end StaticNet
