/-
Which repairs a tick starts.

# Where it breaks

A tick asks for three copies of every chunk and can count three at most:
one in the holder, one with a swap partner, one in the host buffer. A
repair only fills the holder, so a content whose chunks are all held stays
below three and is repaired again, to no effect, tick after tick
(`repaired_again`). And the budget of a tick is spent on the first owned
content, whether or not there is anything to do for it: one that is
healthy, or beyond repair, keeps a tick from the ones that need it
(`turn_wasted`).

# The argument

`copyCountsOf_get` is what a tick counts: the listings of a chunk times
the registries that know it. Health then is a condition on the registries
(`isHealthy_iff`, `isRecoverable_iff`), a turn starts a repair exactly when
that condition asks for one (`repairOwned_started`), and a tick has one
turn (`tick_started`). Over runs the exactness of a tick is carried along
(`Along`).
-/
import StaticNet.Content.RoundTrip
import StaticNet.Lib.Exact
import StaticNet.Node.Proofs.Restore
import StaticNet.Node.RepairTick

namespace StaticNet

open Proc NodeState Exact

variable {P : Prims} {rr : ErasureRepair} {env : TickEnv}
  {st : RepairNode} {n : NodeState} {c : ChunkId} {content : ContentId}
  {manifest : ContentManifest} {ids : List ChunkId}
  {counts : FMap ChunkId Nat}

-- ========== counting

/-- Every listing of a chunk the registry knows adds one. -/
theorem countKnown_get (knows : ChunkId → Bool) (ids : List ChunkId)
    (counts : FMap ChunkId Nat) :
    ((countKnown knows ids counts).get c).getD 0
      = (counts.get c).getD 0 + ids.count c * (knows c).toNat := by
  unfold countKnown
  induction ids generalizing counts with
  | nil => simp
  | cons d ids ih =>
      rw [List.foldl_cons, ih, List.count_cons]
      by_cases hd : d = c
      · subst hd
        cases hk : knows d with
        | false => simp
        | true =>
            rw [if_pos rfl, FMap.get_insert_self]
            simp
            omega
      · have hne : c ≠ d := Ne.symm hd
        cases hk : knows d with
        | false => simp [hd]
        | true =>
            rw [if_pos rfl, FMap.get_insert_ne _ _ hne]
            simp [hd]

/-- How many registries know a chunk. -/
def registries (n : NodeState) (c : ChunkId) : Nat :=
  (n.transport.chunkHolder.hasChunk c).toNat
    + (n.transport.swapState.activeSwaps.contains c).toNat
    + (n.hostBuffer.buffer.get c).isSome.toNat

/-- What a tick counts. -/
theorem copyCountsOf_get (manifest : ContentManifest) (n : NodeState)
    (c : ChunkId) :
    ((copyCountsOf manifest n).get c).getD 0
      = manifest.chunkIds.count c * registries n c := by
  unfold copyCountsOf registries
  rw [countKnown_get, countKnown_get, countKnown_get, FMap.get_empty,
    Option.getD_none, Nat.zero_add, Nat.mul_add, Nat.mul_add]

-- ============ health

/-- Every chunk has the copies it needs, as they are counted. -/
def Healthy (n : NodeState) (manifest : ContentManifest) : Prop :=
  ∀ c ∈ manifest.chunkIds,
    MIN_CHUNK_COPIES ≤ manifest.chunkIds.count c * registries n c

/-- As many chunks are known somewhere as there are data shards. -/
def Recoverable (n : NodeState) (manifest : ContentManifest) : Prop :=
  manifest.dataShards
    ≤ manifest.chunkIds.countP fun c => 0 < registries n c

theorem isHealthy_iff :
    (checkContentHealth content manifest
      (copyCountsOf manifest n)).isHealthy = true
        ↔ Healthy n manifest := by
  unfold checkContentHealth chunkHealthOf Healthy
  dsimp only
  rw [List.all_map, List.all_eq_true]
  apply forall₂_congr
  intro c _
  simp [copyCountsOf_get]

theorem isRecoverable_iff :
    (checkContentHealth content manifest
      (copyCountsOf manifest n)).isRecoverable = true
        ↔ Recoverable n manifest := by
  have hcount : (manifest.chunkIds.map
        (chunkHealthOf (copyCountsOf manifest n))).countP
          (fun h => 0 < h.copyCount)
      = manifest.chunkIds.countP fun c => 0 < registries n c := by
    rw [List.countP_map]
    apply List.countP_congr
    intro c hc
    have hlisted : 0 < manifest.chunkIds.count c := List.count_pos_iff.2 hc
    unfold chunkHealthOf
    simp only [Function.comp_apply, copyCountsOf_get, decide_eq_true_eq]
    constructor
    · intro h
      exact Nat.pos_of_mul_pos_left h
    · intro h
      exact Nat.mul_pos hlisted h
  unfold checkContentHealth Recoverable
  dsimp only
  rw [decide_eq_true_eq, hcount]

-- ============= turns

/-- The content has a manifest, and the check asks for a repair that is not
under way. -/
structure Due (st : RepairNode) (content : ContentId)
    (manifest : ContentManifest) : Prop where
  known : st.node.manifests.get content = some manifest
  idle : st.repairs.isBeingRepaired content = false
  unhealthy : ¬ Healthy st.node manifest
  recoverable : Recoverable st.node manifest

/-- What a repair leaves in the repair state. -/
def recorded (repairs : RepairState) (content : ContentId)
    (out : Except RepairError Nat) : RepairState :=
  match out with
  | .ok _ => repairs.completeRepair content
  | .error _ => repairs.failRepair content

/-- The repair of a turn. -/
def turnRepair (P : Prims) (rr : ErasureRepair) (env : TickEnv)
    (content : ContentId) (manifest : ContentManifest) :
    Task (Except RepairError Nat) :=
  repairContentOnce P rr (env.repair content) manifest

/-- The plan of a repair. -/
def planOf (n : NodeState) (content : ContentId)
    (manifest : ContentManifest) : RepairPlan where
  contentId := content
  chunksToReconstruct := getChunksNeedingRepair
    (checkContentHealth content manifest (copyCountsOf manifest n))
  chunksToRedistribute := manifest.chunkIds
  targetCopies := MIN_CHUNK_COPIES

/-- A due repair is started and recorded. -/
theorem repairOwned_due (h : Due st content manifest) :
    repairOwned P rr env content st
      = (⟨(turnRepair P rr env content manifest).post st.node,
          recorded
            (st.repairs.startRepair (planOf st.node content manifest))
            content ((turnRepair P rr env content manifest).out st.node)⟩,
        true) := by
  have hsick : (checkContentHealth content manifest
      (copyCountsOf manifest st.node)).isHealthy = false :=
    Bool.eq_false_iff.2 fun hh => h.unhealthy (isHealthy_iff.1 hh)
  have hrec : (checkContentHealth content manifest
      (copyCountsOf manifest st.node)).isRecoverable = true :=
    isRecoverable_iff.2 h.recoverable
  have hplan : createRepairPlan (checkContentHealth content manifest
      (copyCountsOf manifest st.node)) manifest
        = some (planOf st.node content manifest) := by
    unfold createRepairPlan
    rw [hsick, hrec]
    rfl
  unfold repairOwned
  rw [h.known]
  dsimp only
  rw [h.idle, hsick, hrec, hplan]
  unfold turnRepair recorded
  cases (repairContentOnce P rr (env.repair content) manifest).out
      st.node <;> rfl

/-- Otherwise the turn passes. -/
theorem repairOwned_pass (h : ∀ manifest, ¬ Due st content manifest) :
    repairOwned P rr env content st = (st, false) := by
  unfold repairOwned
  cases hm : st.node.manifests.get content with
  | none => rfl
  | some manifest =>
      dsimp only
      cases hb : st.repairs.isBeingRepaired content with
      | true => rfl
      | false =>
          cases hh : (checkContentHealth content manifest
              (copyCountsOf manifest st.node)).isHealthy with
          | true => rfl
          | false =>
              cases hr : (checkContentHealth content manifest
                  (copyCountsOf manifest st.node)).isRecoverable with
              | false => rfl
              | true =>
                  refine absurd ⟨hm, hb, ?_, isRecoverable_iff.1 hr⟩
                    (h manifest)
                  intro hhealthy
                  rw [isHealthy_iff.2 hhealthy] at hh
                  cases hh

/-- A turn starts a repair exactly when one is due. -/
theorem repairOwned_started :
    (repairOwned P rr env content st).2 = true
      ↔ ∃ manifest, Due st content manifest := by
  by_cases h : ∃ manifest, Due st content manifest
  · obtain ⟨manifest, hdue⟩ := h
    rw [repairOwned_due hdue]
    exact iff_of_true rfl ⟨manifest, hdue⟩
  · rw [repairOwned_pass fun manifest hdue => h ⟨manifest, hdue⟩]
    exact iff_of_false Bool.false_ne_true h

-- ============= ticks

/-- The contents that get a turn in a tick. -/
def turns (env : TickEnv) (st : RepairNode) : List ContentId :=
  (env.order.iter st.node.transport.leaseManager.contentChunks.keys).take
    MAX_REPAIRS_PER_TICK

/-- No retrieval is in flight. -/
def RetrieverIdle (st : RepairNode) : Prop :=
  st.node.contentRetriever.pending.len = 0

/-- A tick during a retrieval does nothing. -/
theorem tick_busy (h : ¬ RetrieverIdle st) :
    runRepairTick P rr env st = (st, []) := if_pos h

/-- An idle tick is one turn, or none without owned contents. -/
theorem tick_idle (P : Prims) (rr : ErasureRepair) (env : TickEnv)
    (h : RetrieverIdle st) :
    (turns env st = [] ∧ runRepairTick P rr env st = (st, []))
      ∨ ∃ first, turns env st = [first]
        ∧ runRepairTick P rr env st
          = ((repairOwned P rr env first st).1,
            if (repairOwned P rr env first st).2 then [first] else []) := by
  have htick : runRepairTick P rr env st
      = repairEach P rr env (turns env st) st := if_neg (not_not.2 h)
  rw [htick]
  unfold turns MAX_REPAIRS_PER_TICK
  cases env.order.iter
      st.node.transport.leaseManager.contentChunks.keys with
  | nil => exact .inl ⟨rfl, rfl⟩
  | cons first rest =>
      refine .inr ⟨first, rfl, ?_⟩
      show ((repairOwned P rr env first st).1, _ ++ []) = _
      rw [List.append_nil]

/-- A tick starts the repairs that are due of the contents that get a
turn. -/
theorem tick_started :
    content ∈ (runRepairTick P rr env st).2
      ↔ RetrieverIdle st ∧ content ∈ turns env st
        ∧ ∃ manifest, Due st content manifest := by
  by_cases hidle : RetrieverIdle st
  · rcases tick_idle P rr env hidle with
      ⟨hturns, htick⟩ | ⟨first, hturns, htick⟩
    · rw [hturns, htick]
      simp
    · rw [hturns, htick, List.mem_singleton]
      dsimp only
      by_cases hstarted : (repairOwned P rr env first st).2 = true
      · rw [if_pos hstarted, List.mem_singleton]
        constructor
        · rintro rfl
          exact ⟨hidle, rfl, repairOwned_started.1 hstarted⟩
        · exact fun h => h.2.1
      · rw [if_neg hstarted]
        refine iff_of_false (List.not_mem_nil) ?_
        rintro ⟨-, rfl, hdue⟩
        exact hstarted (repairOwned_started.2 hdue)
  · rw [tick_busy hidle]
    exact iff_of_false List.not_mem_nil fun h => hidle h.1

-- ======== starvation

/-- An owned content that could be repaired and has lost a chunk. -/
def Needy (st : RepairNode) (content : ContentId) : Prop :=
  content ∈ st.node.transport.leaseManager.contentChunks.keys
    ∧ ∃ manifest, st.node.manifests.get content = some manifest
      ∧ st.repairs.isBeingRepaired content = false
      ∧ Recoverable st.node manifest
      ∧ ∃ c ∈ manifest.chunkIds,
        st.node.transport.chunkHolder.hasChunk c = false

/-- The check finds the content short of copies. -/
def FoundUnhealthy (st : RepairNode) (content : ContentId) : Prop :=
  ∃ manifest, st.node.manifests.get content = some manifest
    ∧ ¬ Healthy st.node manifest

/-- An idle tick starts the repair of a content that needs it, if any
does. -/
def ServesNeedy (P : Prims) (rr : ErasureRepair) (env : TickEnv)
    (st : RepairNode) : Prop :=
  RetrieverIdle st → (∃ content, Needy st content) →
    ∃ content ∈ (runRepairTick P rr env st).2, Needy st content

theorem due_of_needy (h : Needy st content)
    (hunhealthy : FoundUnhealthy st content) :
    ∃ manifest, Due st content manifest := by
  obtain ⟨-, manifest, hknown, hidle, hrec, -⟩ := h
  obtain ⟨manifest', hknown', hsick⟩ := hunhealthy
  rw [hknown] at hknown'
  obtain rfl := Option.some.inj hknown'
  exact ⟨manifest, hknown, hidle, hsick, hrec⟩

/-- A tick serves a content that needs it exactly when one of those that
get a turn needs it and is found unhealthy. -/
theorem repair_served_iff (P : Prims) (rr : ErasureRepair) (env : TickEnv)
    (st : RepairNode) :
    ServesNeedy P rr env st
      ↔ (RetrieverIdle st → (∃ content, Needy st content) →
        ∃ content ∈ turns env st, Needy st content
          ∧ FoundUnhealthy st content) := by
  unfold ServesNeedy
  apply imp_congr_right
  intro hidle
  apply imp_congr_right
  intro _
  constructor
  · rintro ⟨content, hstarted, hneedy⟩
    obtain ⟨-, hturn, manifest, hdue⟩ := tick_started.1 hstarted
    exact ⟨content, hturn, hneedy, manifest, hdue.known, hdue.unhealthy⟩
  · rintro ⟨content, hturn, hneedy, hunhealthy⟩
    exact ⟨content,
      tick_started.2 ⟨hidle, hturn, due_of_needy hneedy hunhealthy⟩, hneedy⟩

-- ========== settling

/-- What a repaired node goes through: ticks, and anything else that
happens to it between them. -/
inductive TickEvent
  | tick (env : TickEnv)
  | other (f : NodeState → NodeState)

namespace TickEvent

def step (P : Prims) (rr : ErasureRepair) (st : RepairNode) :
    TickEvent → RepairNode
  | .tick env => (runRepairTick P rr env st).1
  | .other f => { st with node := f st.node }

/-- The contents whose repair an event starts. -/
def started (P : Prims) (rr : ErasureRepair) (st : RepairNode) :
    TickEvent → List ContentId
  | .tick env => (runRepairTick P rr env st).2
  | .other _ => []

end TickEvent

open TickEvent

/-- An owned content of which every chunk is held. -/
structure Whole (content : ContentId) (manifest : ContentManifest)
    (st : RepairNode) : Prop where
  owned : content ∈ st.node.transport.leaseManager.contentChunks.keys
  known : st.node.manifests.get content = some manifest
  held : ∀ c ∈ manifest.chunkIds,
    st.node.transport.chunkHolder.hasChunk c = true

/-- No later tick starts another repair of the content, and it is not
recorded as repaired again. -/
def RepairsEnd (P : Prims) (rr : ErasureRepair) (content : ContentId)
    (st : RepairNode) (events : List TickEvent) : Prop :=
  Along (step P rr) (fun st e => content ∉ started P rr st e) st events
    ∧ (events.foldl (step P rr) st).repairs.completedRepairs.count content
      = st.repairs.completedRepairs.count content

/-- A tick passes the content by: it is busy, the content has no turn or is
under repair, all of its chunks have three copies, or it lists fewer chunks
than it has data shards. -/
def PassedBy (content : ContentId) (manifest : ContentManifest)
    (st : RepairNode) : TickEvent → Prop
  | .tick env => ¬ RetrieverIdle st ∨ content ∉ turns env st
      ∨ st.repairs.isBeingRepaired content = true
      ∨ Healthy st.node manifest
      ∨ manifest.chunkIds.length < manifest.dataShards
  | .other _ => True

/-- A whole content is recoverable by its number of chunks. -/
theorem Whole.recoverable_iff (h : Whole content manifest st) :
    Recoverable st.node manifest
      ↔ manifest.dataShards ≤ manifest.chunkIds.length := by
  have hall : manifest.chunkIds.countP
      (fun c => 0 < registries st.node c) = manifest.chunkIds.length := by
    rw [List.countP_eq_length]
    intro c hc
    unfold registries
    rw [h.held c hc]
    simp only [Bool.toNat_true, decide_eq_true_eq]
    omega
  unfold Recoverable
  rw [hall]

theorem Whole.due_iff (h : Whole content manifest st) :
    (∃ m, Due st content m)
      ↔ st.repairs.isBeingRepaired content = false
        ∧ ¬ Healthy st.node manifest
        ∧ manifest.dataShards ≤ manifest.chunkIds.length := by
  rw [← h.recoverable_iff]
  constructor
  · rintro ⟨m, hdue⟩
    have hm := hdue.known
    rw [h.known] at hm
    obtain rfl := Option.some.inj hm
    exact ⟨hdue.idle, hdue.unhealthy, hdue.recoverable⟩
  · rintro ⟨hidle, hsick, hrec⟩
    exact ⟨manifest, h.known, hidle, hsick, hrec⟩

/-- An event starts no repair of a whole content exactly when it passes it
by. -/
theorem Whole.passedBy_iff (h : Whole content manifest st) (e : TickEvent) :
    content ∉ started P rr st e ↔ PassedBy content manifest st e := by
  cases e with
  | other f => exact iff_of_true List.not_mem_nil trivial
  | tick env =>
      show ¬ content ∈ (runRepairTick P rr env st).2 ↔ _
      rw [tick_started, h.due_iff]
      unfold PassedBy
      simp only [not_and_or, not_not, Nat.not_le, Bool.not_eq_false]

/-- A turn that does not start a repair of the content does not record
one. -/
theorem repairOwned_count {first : ContentId}
    (h : (repairOwned P rr env first st).2 = true → first ≠ content) :
    (repairOwned P rr env first st).1.repairs.completedRepairs.count content
      = st.repairs.completedRepairs.count content := by
  by_cases hdue : ∃ manifest, Due st first manifest
  · obtain ⟨manifest, hdue⟩ := hdue
    have hne := h (repairOwned_started.2 ⟨manifest, hdue⟩)
    rw [repairOwned_due hdue]
    dsimp only
    cases (turnRepair P rr env first manifest).out st.node with
    | error e => rfl
    | ok stored =>
        show (st.repairs.completedRepairs ++ [first]).count content = _
        rw [List.count_append, List.count_singleton]
        simp [hne]
  · rw [repairOwned_pass fun manifest hd => hdue ⟨manifest, hd⟩]

theorem step_count {e : TickEvent} (h : content ∉ started P rr st e) :
    (step P rr st e).repairs.completedRepairs.count content
      = st.repairs.completedRepairs.count content := by
  cases e with
  | other f => rfl
  | tick env =>
      change content ∉ (runRepairTick P rr env st).2 at h
      show (runRepairTick P rr env st).1.repairs.completedRepairs.count
        content = _
      by_cases hidle : RetrieverIdle st
      · rcases tick_idle P rr env hidle with ⟨-, htick⟩ | ⟨first, -, htick⟩
        · rw [htick]
        · rw [htick] at h ⊢
          refine repairOwned_count ?_
          rintro hstarted rfl
          rw [if_pos hstarted] at h
          exact h (List.mem_singleton_self _)
      · rw [tick_busy hidle]

/-- Without new repairs none is recorded. -/
theorem run_count {events : List TickEvent}
    (h : Along (step P rr) (fun st e => content ∉ started P rr st e) st
      events) :
    (events.foldl (step P rr) st).repairs.completedRepairs.count content
      = st.repairs.completedRepairs.count content := by
  induction events generalizing st with
  | nil => rfl
  | cons e events ih =>
      rw [List.foldl_cons, ih h.2, step_count h.1]

/-- As long as a content stays whole, no further repair of it is started
exactly when every tick passes it by. -/
theorem repair_settles_iff (P : Prims) (rr : ErasureRepair)
    (content : ContentId) (manifest : ContentManifest) (st : RepairNode)
    (events : List TickEvent)
    (hwhole : Always (step P rr) (Whole content manifest) st events) :
    RepairsEnd P rr content st events
      ↔ Along (step P rr) (PassedBy content manifest) st events := by
  have hiff : Along (step P rr)
        (fun st e => content ∉ started P rr st e) st events
      ↔ Along (step P rr) (PassedBy content manifest) st events :=
    along_congr (fun st e h => h.passedBy_iff e) hwhole
  constructor
  · intro h
    exact hiff.1 h.1
  · intro h
    exact ⟨hiff.2 h, run_count (hiff.2 h)⟩

-- ==== repairs without effect

theorem reseed_held (now : Nat) (content : ContentId)
    (h : ∀ c ∈ ids, n.held c ≠ none) :
    (reseed now content ids).out n = 0
      ∧ (reseed now content ids).post n = n := by
  induction ids with
  | nil => exact ⟨rfl, rfl⟩
  | cons c ids ih =>
      have hskip := reseed_skip now content ids (.inl (h c List.mem_cons_self))
      obtain ⟨ihout, ihpost⟩ :=
        ih fun d hd => h d (List.mem_cons_of_mem _ hd)
      exact ⟨hskip.1.trans ihout, hskip.2.trans ihpost⟩

theorem storeReconstructed_held (now : Nat) (content : ContentId)
    {pairs : List (ChunkId × EncryptedChunk)}
    (h : ∀ e ∈ pairs, n.held e.1 ≠ none) :
    (storeReconstructed now content pairs).out n = 0
      ∧ (storeReconstructed now content pairs).post n = n := by
  induction pairs with
  | nil => exact ⟨rfl, rfl⟩
  | cons e pairs ih =>
      obtain ⟨c, chunk⟩ := e
      have hskip : (storeReconstructed now content
            ((c, chunk) :: pairs)).out n
          = (storeReconstructed now content pairs).out n ∧ _ :=
        storeReconstructed_skip (h (c, chunk) List.mem_cons_self)
      obtain ⟨ihout, ihpost⟩ :=
        ih fun d hd => h d (List.mem_cons_of_mem _ hd)
      exact ⟨hskip.1.trans ihout, hskip.2.trans ihpost⟩

/-- The repair of a whole content stores nothing and changes nothing. -/
theorem repair_whole (env : RepairEnv) {chunks : List EncryptedChunk}
    (hheld : ∀ c ∈ manifest.chunkIds, n.held c ≠ none)
    (hk : manifest.dataShards
      ≤ known (heldShardsOf n manifest.chunkIds))
    (hdec : erasureDecode P rr (heldShardsOf n manifest.chunkIds)
      manifest.dataShards manifest.parityShards = .ok chunks) :
    (repairContentOnce P rr env manifest).out n = .ok 0
      ∧ (repairContentOnce P rr env manifest).post n = n := by
  obtain ⟨hout, hpost⟩ :=
    reseed_held env.now manifest.contentId hheld
  have hsame : afterReseed env manifest n = n := hpost
  have hreseeded : reseededShards env manifest n
      = heldShardsOf n manifest.chunkIds := by
    unfold reseededShards
    rw [hsame]
  have hpairs : ∀ e ∈ manifest.chunkIds.zip chunks, n.held e.1 ≠ none :=
    fun e he => hheld e.1 (List.of_mem_zip he).1
  obtain ⟨hstored, hafter⟩ :=
    storeReconstructed_held env.now manifest.contentId hpairs
  obtain ⟨hok, hend⟩ := repair_succeeds (hreseeded ▸ hk)
    (hreseeded ▸ hdec)
  rw [hout, hsame, hstored] at hok
  rw [hsame, hafter] at hend
  exact ⟨hok, hend⟩

-- ===== a node's turn

/-- An order that puts one key first. -/
def firstly (k : ContentId) : IterOrder ContentId where
  iter s := if k ∈ s then k :: IterOrder.bytewise.iter (s.erase k)
    else IterOrder.bytewise.iter s
  nodup s := by
    by_cases h : k ∈ s
    · rw [if_pos h, List.nodup_cons, IterOrder.mem_iter]
      exact ⟨Finset.notMem_erase k s, IterOrder.nodup _ _⟩
    · rw [if_neg h]
      exact IterOrder.nodup _ _
  mem_iter s c := by
    by_cases h : k ∈ s
    · rw [if_pos h, List.mem_cons, IterOrder.mem_iter, Finset.mem_erase]
      by_cases hc : c = k
      · rw [hc]
        exact iff_of_true (.inl rfl) h
      · simp [hc]
    · rw [if_neg h]
      exact IterOrder.mem_iter _ _ _

theorem firstly_iter {k : ContentId} {s : Finset ContentId} (h : k ∈ s) :
    (firstly k).iter s = k :: IterOrder.bytewise.iter (s.erase k) :=
  if_pos h

/-- The node of a runner that has just started. -/
def nodeOf (s : RunnerState) (buffer : HostBuffer) : NodeState where
  toRunnerState := s
  rotationState := RotationState.new
  hostBuffer := buffer
  connections := ∅

/-- A content of one data and one parity shard, both `c`. -/
def mirrored (content : ContentId) (c : ChunkId) : ContentManifest where
  contentId := content
  encryptedMasterKey := []
  chunkIds := [c, c]
  originalSize := 1
  dataShards := 1
  parityShards := 1
  nonce := Bytes.zero 12
  segmentHashes := []

/-- A runner that owns two contents and has neither's chunks. -/
def owner : RunnerState :=
  { blankRunner with
    manifests := (FMap.insert ∅ (Bytes.fill 32 1)
      (mirrored (Bytes.fill 32 1) (Bytes.fill 32 8))).insert
        (Bytes.fill 32 2) (mirrored (Bytes.fill 32 2) (Bytes.fill 32 7))
    transport := { blankRunner.transport with
      leaseManager := (LeaseManager.new.registerOwnedContent
        (Bytes.fill 32 1) (Bytes.zero 32) [Bytes.fill 32 8]
        ).registerOwnedContent
          (Bytes.fill 32 2) (Bytes.zero 32) [Bytes.fill 32 7] } }

/-- The chunk of the second content is in the host buffer, that of the
first is nowhere. -/
def ownerNode : RepairNode :=
  ⟨nodeOf owner ((HostBuffer.new 1).insert (Bytes.fill 32 7) [1] 0),
    RepairState.new⟩

theorem ownerNode_needy : Needy ownerNode (Bytes.fill 32 2) := by
  refine ⟨by decide, mirrored (Bytes.fill 32 2) (Bytes.fill 32 7), rfl,
    rfl, ?_, Bytes.fill 32 7, by decide, rfl⟩
  show 1 ≤ [Bytes.fill 32 7, Bytes.fill 32 7].countP _
  decide

/-- No peer answers. -/
def alone : RepairEnv := ⟨[], false, 0, IterOrder.bytewise, 0⟩

/-- The turn goes to a content beyond repair, and the one that could be
repaired has none. -/
theorem turn_wasted :
    ¬ ServesNeedy Prims.plain mirrorRepair
      ⟨firstly (Bytes.fill 32 1), fun _ => alone⟩ ownerNode := by
  intro h
  obtain ⟨content, hstarted, -⟩ := h rfl ⟨_, ownerNode_needy⟩
  obtain ⟨-, hturn, manifest, hdue⟩ := tick_started.1 hstarted
  have howned : Bytes.fill 32 1
      ∈ ownerNode.node.transport.leaseManager.contentChunks.keys := by decide
  unfold turns at hturn
  rw [firstly_iter howned] at hturn
  obtain rfl : content = Bytes.fill 32 1 := List.mem_singleton.1 hturn
  -- its chunk is known nowhere
  have hknown := hdue.known
  obtain rfl : mirrored (Bytes.fill 32 1) (Bytes.fill 32 8) = manifest :=
    Option.some.inj hknown
  have hrec : 1 ≤ [Bytes.fill 32 8, Bytes.fill 32 8].countP fun c =>
      0 < registries ownerNode.node c := hdue.recoverable
  revert hrec
  decide

-- ==== without an end

variable {json : Json} {d : PublishDraws} {s : RunnerState}
  {k : EncryptedChunk}

theorem hasChunk_addChunk {h : ChunkHolder} {c e : ChunkId}
    {data : List UInt8} (hc : e = c ∨ h.hasChunk c = true) :
    (h.addChunk e data content).hasChunk c = true := by
  show ((h.chunks.insert e data).get c).isSome = true
  by_cases he : c = e
  · rw [he, FMap.get_insert_self]
    rfl
  · rw [FMap.get_insert_ne _ _ he]
    exact hc.resolve_left (Ne.symm he)

/-- Publishing a mirrored chunk stores it. -/
theorem storeContent_holds (P : Prims) (json : Json) (d : PublishDraws)
    (k : EncryptedChunk) (manifest : ContentManifest) (s : RunnerState) :
    (storeContent P json d [k, k] manifest s).transport.chunkHolder.hasChunk
      k.id = true := by
  unfold storeContent
  dsimp only
  by_cases hid : (encryptManifest P json manifest (P.edPublic d.contentSk)
      d.manifestNonce).2 ≠ contentIdFromPublic P (P.edPublic d.contentSk)
  · rw [if_pos hid]
    exact hasChunk_addChunk
      (.inr (hasChunk_addChunk (.inr (hasChunk_addChunk (.inl rfl)))))
  · rw [if_neg hid]
    exact hasChunk_addChunk (.inr (hasChunk_addChunk (.inl rfl)))

theorem storeContent_known (P : Prims) (json : Json) (d : PublishDraws)
    (chunks : List EncryptedChunk) (manifest : ContentManifest)
    (h : s.manifests = ∅) :
    (storeContent P json d chunks manifest s).manifests.get
        (contentIdFromPublic P (P.edPublic d.contentSk))
      = some manifest := by
  have hlen : ((∅ : FMap ContentId ContentManifest).insert
      (contentIdFromPublic P (P.edPublic d.contentSk)) manifest).len
        ≤ 2048 := by
    show (Insert.insert _ (∅ : Finset ContentId)).card ≤ 2048
    rw [insert_empty_eq, Finset.card_singleton]
    decide
  unfold storeContent
  dsimp only
  rw [h, evictTo_within hlen, FMap.get_insert_self]

/-- The node of a publisher whose one content is a mirrored chunk. -/
def mirrorNode (buffer : HostBuffer) (k : EncryptedChunk)
    (manifest : ContentManifest) : NodeState :=
  nodeOf (storeContent Prims.plain unaryJson smallDraws [k, k] manifest
    (keepKeypair Prims.plain smallDraws blankRunner)) buffer

/-- The id of that content. -/
def smallId : ContentId :=
  contentIdFromPublic Prims.plain (Prims.plain.edPublic smallDraws.contentSk)

/-- The manifest lists the chunk as its data and as its parity. -/
structure Mirrors (manifest : ContentManifest) (k : EncryptedChunk) :
    Prop where
  ids : manifest.chunkIds = [k.id, k.id]
  data : manifest.dataShards = 1
  parity : manifest.parityShards = 1

variable {repairs : RepairState} {buffer : HostBuffer}

theorem mirrorNode_keys (k : EncryptedChunk) (manifest : ContentManifest) :
    (mirrorNode buffer k manifest).transport.leaseManager.contentChunks.keys
      = {smallId} := rfl

theorem mirrorNode_holds (buffer : HostBuffer) (k : EncryptedChunk)
    (manifest : ContentManifest) :
    (mirrorNode buffer k manifest).transport.chunkHolder.hasChunk k.id
      = true :=
  storeContent_holds Prims.plain unaryJson smallDraws k manifest _

theorem mirrorNode_whole (h : Mirrors manifest k) :
    Whole smallId manifest ⟨mirrorNode buffer k manifest, repairs⟩ where
  owned := by
    show smallId ∈ (mirrorNode buffer k
      manifest).transport.leaseManager.contentChunks.keys
    rw [mirrorNode_keys]
    exact Finset.mem_singleton_self _
  known := storeContent_known Prims.plain unaryJson smallDraws [k, k]
    manifest rfl
  held := by
    intro c hc
    rw [h.ids] at hc
    obtain rfl : c = k.id := by simpa using hc
    exact mirrorNode_holds _ k manifest

/-- It is held, and neither swapped nor buffered. -/
theorem mirrorNode_unhealthy (h : Mirrors manifest k) :
    ¬ Healthy (mirrorNode (HostBuffer.new 0) k manifest) manifest := by
  intro hhealthy
  have hcopies := hhealthy k.id (by rw [h.ids]; exact List.mem_cons_self)
  have hregistries : registries (mirrorNode (HostBuffer.new 0) k manifest) k.id = 1 := by
    unfold registries
    rw [mirrorNode_holds _ k manifest]
    rfl
  rw [h.ids, hregistries] at hcopies
  simp [MIN_CHUNK_COPIES] at hcopies

theorem mirrorNode_due (h : Mirrors manifest k)
    (hidle : repairs.isBeingRepaired smallId = false) :
    Due ⟨mirrorNode (HostBuffer.new 0) k manifest, repairs⟩ smallId manifest where
  known := (mirrorNode_whole h).known
  idle := hidle
  unhealthy := mirrorNode_unhealthy h
  recoverable := by
    have hwhole : Whole smallId manifest ⟨mirrorNode (HostBuffer.new 0) k manifest, repairs⟩ :=
      mirrorNode_whole h
    rw [hwhole.recoverable_iff, h.ids, h.data]
    exact Nat.le_add_left 1 1

/-- The repair of such a content succeeds and stores nothing. -/
theorem mirrorNode_repair (h : Mirrors manifest k) (env : RepairEnv) :
    (repairContentOnce Prims.plain mirrorRepair env manifest).out
        (mirrorNode (HostBuffer.new 0) k manifest) = .ok 0
      ∧ (repairContentOnce Prims.plain mirrorRepair env manifest).post
        (mirrorNode (HostBuffer.new 0) k manifest) = mirrorNode (HostBuffer.new 0) k manifest := by
  have hholds := mirrorNode_holds (HostBuffer.new 0) k manifest
  rw [hasChunk_eq] at hholds
  obtain ⟨x, hx⟩ := Option.isSome_iff_exists.1 hholds
  have hshards : heldShardsOf (mirrorNode (HostBuffer.new 0) k manifest) manifest.chunkIds
      = [some ⟨k.id, x⟩, some ⟨k.id, x⟩] := by
    unfold heldShardsOf
    rw [h.ids, List.map_cons, List.map_cons, hx]
    rfl
  have htwo : 1 ≤ known [some (⟨k.id, x⟩ : EncryptedChunk),
      some ⟨k.id, x⟩] := Nat.le_add_left 1 1
  have hdec : erasureDecode Prims.plain mirrorRepair
      (heldShardsOf (mirrorNode (HostBuffer.new 0) k manifest) manifest.chunkIds)
        manifest.dataShards manifest.parityShards
      = .ok [⟨Prims.plain.blake3 x, x⟩] := by
    rw [hshards, h.data, h.parity]
    have hfilled : mirrorRepair.reconstruct 1 1
        ([some ⟨k.id, x⟩, some ⟨k.id, x⟩].map
          (Option.map EncryptedChunk.data)) = .ok [x, x] := rfl
    rw [erasureDecode_filled rfl htwo hfilled]
    rfl
  refine repair_whole env ?_ ?_ hdec
  · intro c hc
    rw [h.ids] at hc
    obtain rfl : c = k.id := by simpa using hc
    rw [hx]
    exact Option.some_ne_none x
  · rw [hshards, h.data]
    exact htwo

theorem mirrorNode_turns (env : TickEnv) (k : EncryptedChunk)
    (manifest : ContentManifest) :
    turns env ⟨mirrorNode buffer k manifest, repairs⟩ = [smallId] := by
  unfold turns
  rw [mirrorNode_keys, IterOrder.iter_singleton]
  rfl

/-- A tick repairs it, and leaves the node as it was. -/
theorem mirrorNode_tick (h : Mirrors manifest k) (env : TickEnv)
    (repairs : RepairState)
    (hidle : repairs.isBeingRepaired smallId = false) :
    smallId ∈ (runRepairTick Prims.plain mirrorRepair env
        ⟨mirrorNode (HostBuffer.new 0) k manifest, repairs⟩).2
      ∧ ∃ later : RepairState, later.isBeingRepaired smallId = false
        ∧ later.completedRepairs = repairs.completedRepairs ++ [smallId]
        ∧ (runRepairTick Prims.plain mirrorRepair env
          ⟨mirrorNode (HostBuffer.new 0) k manifest, repairs⟩).1
            = ⟨mirrorNode (HostBuffer.new 0) k manifest, later⟩ := by
  have hdue := mirrorNode_due h hidle
  have hretriever : RetrieverIdle ⟨mirrorNode (HostBuffer.new 0) k manifest, repairs⟩ := rfl
  have hturns : turns env ⟨mirrorNode (HostBuffer.new 0) k manifest, repairs⟩ = [smallId] :=
    mirrorNode_turns env k manifest
  rcases tick_idle Prims.plain mirrorRepair env hretriever with
    ⟨hnone, -⟩ | ⟨first, hfirst, htick⟩
  · rw [hturns] at hnone
    cases hnone
  · rw [hturns] at hfirst
    obtain rfl : smallId = first := List.singleton_injective hfirst
    obtain ⟨hout, hpost⟩ := mirrorNode_repair h (env.repair smallId)
    rw [htick, repairOwned_due hdue]
    unfold turnRepair
    rw [hout, hpost]
    refine ⟨List.mem_singleton_self _, _, ?_, rfl, rfl⟩
    show ((FMap.insert _ _ _).erase smallId).contains smallId = false
    unfold FMap.contains
    rw [FMap.get_erase_self]
    rfl

/-- A file is published and repaired once, at the first tick: all of its
chunks are held, and the next tick repairs it again. -/
theorem repaired_again :
    ∃ manifest, (publishContent Prims.plain mirrorCode unaryJson smallDraws
        smallFile blankRunner).1
          = .ok (smallId, manifest,
            Prims.plain.edPublic smallDraws.contentSk)
      ∧ ∀ env, ∃ st,
        step Prims.plain mirrorRepair
            ⟨nodeOf (publishContent Prims.plain mirrorCode unaryJson
              smallDraws smallFile blankRunner).2 (HostBuffer.new 0),
              RepairState.new⟩
            (.tick env) = st
          ∧ st.repairs.completedRepairs = [smallId]
          ∧ Always (step Prims.plain mirrorRepair) (Whole smallId manifest)
            st [.tick env]
          ∧ ¬ RepairsEnd Prims.plain mirrorRepair smallId st [.tick env] := by
  have hprep := prepareContent_single Prims.plain_seal smallDraws
    smallFile_numChunks
  have hmirrors : Mirrors (onlyManifest Prims.plain smallDraws smallFile)
      (onlyChunk Prims.plain smallDraws smallFile) := ⟨rfl, rfl, rfl⟩
  rw [publishContent_of unaryJson blankRunner hprep]
  refine ⟨onlyManifest Prims.plain smallDraws smallFile, rfl, ?_⟩
  intro env
  obtain ⟨-, later, hidle, hcompleted, hpost⟩ :=
    mirrorNode_tick hmirrors env RepairState.new rfl
  refine ⟨_, hpost, hcompleted, ?_, ?_⟩
  · obtain ⟨-, last, -, -, hlast⟩ := mirrorNode_tick hmirrors env later hidle
    refine ⟨mirrorNode_whole hmirrors, ?_⟩
    show Whole _ _ (runRepairTick _ _ env _).1
    rw [hlast]
    exact mirrorNode_whole hmirrors
  · intro hend
    exact hend.1.1 (mirrorNode_tick hmirrors env later hidle).1

/-- A mirrored chunk that is held and buffered counts four times. -/
theorem mirrorNode_healthy (h : Mirrors manifest k)
    (hbuffered : (buffer.buffer.get k.id).isSome = true) :
    Healthy (mirrorNode buffer k manifest) manifest := by
  intro c hc
  rw [h.ids] at hc ⊢
  obtain rfl : c = k.id := by simpa using hc
  have hregistries : registries (mirrorNode buffer k manifest) k.id = 2 := by
    unfold registries
    rw [mirrorNode_holds _ k manifest]
    show 1 + 0 + (buffer.buffer.get k.id).isSome.toNat = 2
    rw [hbuffered]
    rfl
  rw [hregistries]
  simp [MIN_CHUNK_COPIES]

/-- A tick without a due repair does nothing. -/
theorem tick_pass (P : Prims) (rr : ErasureRepair)
    (h : ∀ content ∈ turns env st, ∀ manifest, ¬ Due st content manifest) :
    runRepairTick P rr env st = (st, []) := by
  by_cases hidle : RetrieverIdle st
  · rcases tick_idle P rr env hidle with
      ⟨-, htick⟩ | ⟨first, hfirst, htick⟩
    · exact htick
    · rw [hfirst] at h
      rw [htick, repairOwned_pass (h first (List.mem_singleton_self _))]
      rfl
  · exact tick_busy hidle

theorem mirrorNode_spared (h : Mirrors manifest k) (env : TickEnv)
    (hbuffered : (buffer.buffer.get k.id).isSome = true) :
    runRepairTick Prims.plain mirrorRepair env
        ⟨mirrorNode buffer k manifest, repairs⟩
      = (⟨mirrorNode buffer k manifest, repairs⟩, []) := by
  refine tick_pass Prims.plain mirrorRepair ?_
  intro content hturn m hdue
  rw [mirrorNode_turns, List.mem_singleton] at hturn
  have hwhole : Whole smallId manifest
      ⟨mirrorNode buffer k manifest, repairs⟩ := mirrorNode_whole h
  rw [hturn] at hdue
  exact (hwhole.due_iff.1 ⟨m, hdue⟩).2.1 (mirrorNode_healthy h hbuffered)

/-- A chunk of another content. -/
def otherChunk : HostBuffer.Stored := ⟨Bytes.fill 32 7, [1], 0⟩

/-- Other chunks that fit beside it push it not out. -/
theorem buffered_isSome (maxSize : Nat) (k : EncryptedChunk)
    (later : List HostBuffer.Stored)
    (hroom : k.data.length + (later.map fun e => e.data.length).sum
      ≤ maxSize) :
    ((HostBuffer.run maxSize (bufferedAs k :: later)).buffer.get k.id).isSome
      = true := by
  have hin : bufferedAs k ∈ (bufferedAs k :: later).reverse :=
    List.mem_reverse.2 List.mem_cons_self
  rw [HostBuffer.get_run_room hroom, Option.isSome_map, List.find?_isSome]
  exact ⟨_, hin, decide_eq_true rfl⟩

/-- The retrieval of another content begins. -/
def retrieving (n : NodeState) : NodeState :=
  { n with
    contentRetriever := n.contentRetriever.startRetrieval
      (mirrored (Bytes.fill 32 2) (Bytes.fill 32 7)) (Bytes.zero 32) }

/-- Two ticks, with another chunk put into the buffer between them, and a
third that finds a retrieval in flight. -/
def settledEvents (env env' env'' : TickEnv) : List TickEvent :=
  [.tick env,
    .other fun n => { n with hostBuffer := n.hostBuffer.put otherChunk },
    .tick env', .other retrieving, .tick env'']

/-- None of them does anything, as long as the chunk stays buffered. -/
theorem mirrorNode_settled (h : Mirrors manifest k) (env env' env'' : TickEnv)
    (halone : (buffer.buffer.get k.id).isSome = true)
    (hbeside : ((buffer.put otherChunk).buffer.get k.id).isSome = true) :
    Always (step Prims.plain mirrorRepair) (Whole smallId manifest)
        ⟨mirrorNode buffer k manifest, repairs⟩ (settledEvents env env' env'')
      ∧ Exact.Along (step Prims.plain mirrorRepair)
        (PassedBy smallId manifest) ⟨mirrorNode buffer k manifest, repairs⟩
        (settledEvents env env' env'') := by
  have hstart : Whole smallId manifest ⟨mirrorNode buffer k manifest, repairs⟩
    := mirrorNode_whole h
  have hnext : Whole smallId manifest
      ⟨mirrorNode (buffer.put otherChunk) k manifest, repairs⟩ :=
    mirrorNode_whole h
  have hlast : Whole smallId manifest
      ⟨retrieving (mirrorNode (buffer.put otherChunk) k manifest), repairs⟩ :=
    ⟨hnext.owned, hnext.known, hnext.held⟩
  have hbusy : ¬ RetrieverIdle ⟨retrieving
      (mirrorNode (buffer.put otherChunk) k manifest), repairs⟩ := by
    show ¬ (FMap.insert (FMap.insert ∅ _ _) _ _).len = 0
    decide
  -- no tick changes the node
  have htick : (runRepairTick Prims.plain mirrorRepair env
      ⟨mirrorNode buffer k manifest, repairs⟩).1 = _ :=
    congrArg Prod.fst (mirrorNode_spared h env halone)
  have htick' : (runRepairTick Prims.plain mirrorRepair env'
      ⟨mirrorNode (buffer.put otherChunk) k manifest, repairs⟩).1 = _ :=
    congrArg Prod.fst (mirrorNode_spared h env' hbeside)
  have htick'' : (runRepairTick Prims.plain mirrorRepair env''
      ⟨retrieving (mirrorNode (buffer.put otherChunk) k manifest),
        repairs⟩).1 = _ :=
    congrArg Prod.fst (tick_busy hbusy)
  unfold settledEvents
  constructor
  · refine ⟨hstart, ?_⟩
    show Always _ _ (runRepairTick Prims.plain mirrorRepair env _).1 _
    rw [htick]
    refine ⟨hstart, hnext, ?_⟩
    show Always _ _ (runRepairTick Prims.plain mirrorRepair env'
      ⟨mirrorNode (buffer.put otherChunk) k manifest, repairs⟩).1 _
    rw [htick']
    refine ⟨hnext, hlast, ?_⟩
    show Whole _ _ (runRepairTick Prims.plain mirrorRepair env'' ⟨retrieving
      (mirrorNode (buffer.put otherChunk) k manifest), repairs⟩).1
    rw [htick'']
    exact hlast
  · refine ⟨.inr (.inr (.inr (.inl (mirrorNode_healthy h halone)))), ?_⟩
    show Exact.Along _ _ (runRepairTick Prims.plain mirrorRepair env _).1 _
    rw [htick]
    refine ⟨trivial, .inr (.inr (.inr (.inl
      (mirrorNode_healthy h hbeside)))), ?_⟩
    show Exact.Along _ _ (runRepairTick Prims.plain mirrorRepair env'
      ⟨mirrorNode (buffer.put otherChunk) k manifest, repairs⟩).1 _
    rw [htick']
    exact ⟨trivial, .inl hbusy, trivial⟩

/-- The node of a publisher that has buffered its chunk, with room for one
byte more. -/
def bufferedNode (k : EncryptedChunk) (manifest : ContentManifest) :
    NodeState :=
  mirrorNode (HostBuffer.run (k.data.length + 1) [bufferedAs k]) k manifest

theorem bufferedNode_settled (h : Mirrors manifest k)
    (env env' env'' : TickEnv) :
    Always (step Prims.plain mirrorRepair) (Whole smallId manifest)
        ⟨bufferedNode k manifest, repairs⟩ (settledEvents env env' env'')
      ∧ Exact.Along (step Prims.plain mirrorRepair)
        (PassedBy smallId manifest) ⟨bufferedNode k manifest, repairs⟩
        (settledEvents env env' env'') := by
  have halone := buffered_isSome (k.data.length + 1) k [] (by simp)
  have hbeside := buffered_isSome (k.data.length + 1) k [otherChunk]
    (by simp [otherChunk])
  have hput := HostBuffer.run_append (k.data.length + 1) [bufferedAs k]
    otherChunk
  rw [← List.singleton_append, hput] at hbeside
  exact mirrorNode_settled h env env' env'' halone hbeside

/-- A published chunk that is held and buffered is left alone: by a tick,
by the next one after another chunk was buffered, and by a third that
finds a retrieval in flight. -/
theorem repair_settles_buffered :
    ∃ k manifest, Mirrors manifest k
      ∧ ∀ env env' env'', RepairsEnd Prims.plain mirrorRepair smallId
        ⟨bufferedNode k manifest, RepairState.new⟩
        (settledEvents env env' env'') := by
  have hmirrors : Mirrors (onlyManifest Prims.plain smallDraws smallFile)
      (onlyChunk Prims.plain smallDraws smallFile) := ⟨rfl, rfl, rfl⟩
  refine ⟨_, _, hmirrors, ?_⟩
  intro env env' env''
  obtain ⟨hwhole, hpassed⟩ := bufferedNode_settled hmirrors env env' env''
  exact (repair_settles_iff Prims.plain mirrorRepair smallId _ _ _
    hwhole).2 hpassed

end StaticNet
