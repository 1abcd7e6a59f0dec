/-
The expiration sweep among the tasks that write leases
(`static-node/src/runner.rs`), every lock-protected section one step.

# The tasks

`expire_chunks_once` lists the expired chunks under the lease lock and
goes through them afterwards: holder, leases, capacity, chunk by chunk.
`handle_heartbeat` looks what is held and then renews,
`finalize_swap_if_ready` stores and writes its lease four sections later,
and `heartbeat_tick_once` is one section. `LeaseTask` is where such a task
stands; its `program` is what is left of the handler, and
`program_step` says that `step` is that program's next section.

# Where the sweep is overtaken

Nothing looks at the lease again before the chunk goes. A lease that is
renewed after the list was taken does not save its chunk, and one that is
written by a heartbeat that had looked before outlives it. Where no
section writes to a listed chunk or to a deleted one (`Calm`), neither can
happen (`sweep_spares`).
-/
import StaticNet.Leases.Delivery
import StaticNet.Lib.Exact
import StaticNet.Swap.Run

namespace StaticNet

open Proc TransportState LeaseManager

-- ============= tasks

/-- Where a task stands: what it does next, with what it remembers. -/
inductive LeaseTask
  /-- a sweep: take the list -/
  | list (now : Nat) (order : IterOrder ChunkId)
  /-- remove a chunk from the holder -/
  | drop (now : Nat) (c : ChunkId) (rest : List ChunkId)
  /-- drop its lease; `gone` says whether the chunk was held -/
  | unlease (now : Nat) (c : ChunkId) (gone : Bool) (size : Nat)
      (rest : List ChunkId)
  /-- take its bytes off the count -/
  | uncount (now : Nat) (size : Nat) (rest : List ChunkId)
  /-- clean up the nonces -/
  | forget (now : Nat)
  /-- a heartbeat: look what is held -/
  | look (now : Nat) (hb : Heartbeat)
  | renew (now : Nat) (hb : Heartbeat) (held : ChunkId → Bool)
  /-- the refresh of the owned leases -/
  | tick (now : Nat) (order : IterOrder ContentId)
  /-- a swap: take the entry if it is ready -/
  | complete (pid : ProposalId)
  | put (swap : PendingSwap)
  | release (swap : PendingSwap) (storedNew : Bool)
  | count (swap : PendingSwap)
  | lease (swap : PendingSwap)
  | done

namespace LeaseTask

/-- The sweep after one of its chunks. -/
def goOn (now : Nat) : List ChunkId → LeaseTask
  | [] => forget now
  | c :: rest => drop now c rest

/-- One section: where the task stands after it, and the state. -/
def step (P : Prims) (s : TransportState) :
    LeaseTask → LeaseTask × TransportState
  | list now order =>
      (goOn now (s.leaseManager.getExpiredChunks order now), s)
  | drop now c rest =>
      (unlease now c (s.chunkHolder.hasChunk c)
          (((s.chunkHolder.getChunk c).map List.length).getD 0) rest,
        { s with chunkHolder := s.chunkHolder.removeChunk c })
  | unlease now c _ size rest =>
      (uncount now size rest,
        { s with leaseManager := s.leaseManager.removeLease c })
  | uncount now size rest =>
      (goOn now rest, s.updCapacity fun cap => cap.recordRemove size)
  | forget now =>
      (done, { s with leaseManager := s.leaseManager.cleanupNonces now })
  | look now hb => (renew now hb (heldAmong hb s), s)
  | renew now hb held =>
      (done,
        { s with
          leaseManager :=
            (s.leaseManager.processHeartbeatUpsert P hb now held).2 })
  | tick now order =>
      (done,
        { s with
          leaseManager :=
            (refreshAll (now + DEFAULT_LEASE_DURATION_SECS)
              (s.leaseManager.ownedChunks order) (0, s.leaseManager)).2 })
  | complete pid =>
      (((completeReady pid s).1.map put).getD done, (completeReady pid s).2)
  | put swap =>
      if s.chunkHolder.hasChunk swap.theirChunkId then
        (release swap false, s)
      else
        (release swap true,
          { s with
            chunkHolder := s.chunkHolder.addChunk swap.theirChunkId
              swap.theirChunkData (Bytes.zero 32) })
  | release swap storedNew =>
      (if storedNew then count swap else done,
        s.updCapacity fun cap =>
          cap.releaseReserved swap.reservedBytes storedNew)
  | count swap =>
      (lease swap,
        { s with
          peerChunkCounts := s.peerChunkCounts.insert swap.peer
            ((s.peerChunkCounts.get swap.peer).getD 0 + 1) })
  | lease swap =>
      (done,
        { s with
          leaseManager := s.leaseManager.addLease swap.theirChunkId
            (swapLease swap) })
  | done => (done, s)

/-- The last section of a sweep. -/
def cleanup (now : Nat) : Handler Unit :=
  write .leases fun s =>
    { s with leaseManager := s.leaseManager.cleanupNonces now }

/-- What is left of the handler. -/
def program (P : Prims) : LeaseTask → Handler Unit
  | list now order => do let _ ← expireChunksOnce now order
  | drop now c rest => do
      dropExpired (c :: rest)
      cleanup now
  | unlease now c _ size rest => do
      write .leases fun s =>
        { s with leaseManager := s.leaseManager.removeLease c }
      write .capacity (updCapacity fun cap => cap.recordRemove size)
      dropExpired rest
      cleanup now
  | uncount now size rest => do
      write .capacity (updCapacity fun cap => cap.recordRemove size)
      dropExpired rest
      cleanup now
  | forget now => cleanup now
  | look now hb => handleHeartbeat P now hb
  | renew now hb held => do
      let _ ← atom .leases fun s =>
        let r := s.leaseManager.processHeartbeatUpsert P hb now held
        (r.1, { s with leaseManager := r.2 })
  | tick now order => do let _ ← heartbeatTickOnce now order
  | complete pid => do let _ ← finalizeSwapIfReady pid
  | put swap => do
      let storedNew ← storeChunk swap
      let _ ← accountStored swap storedNew
  | release swap storedNew => do let _ ← accountStored swap storedNew
  | count swap => do
      write .counts fun s =>
        { s with
          peerChunkCounts := s.peerChunkCounts.insert swap.peer
            ((s.peerChunkCounts.get swap.peer).getD 0 + 1) }
      write .leases fun s =>
        { s with
          leaseManager := s.leaseManager.addLease swap.theirChunkId
            (swapLease swap) }
  | lease swap =>
      write .leases fun s =>
        { s with
          leaseManager := s.leaseManager.addLease swap.theirChunkId
            (swapLease swap) }
  | done => pure ()

variable {P : Prims} {s : TransportState}

/-- The sweep goes on with the next chunk, or with its last section. -/
theorem program_goOn (now : Nat) (rest : List ChunkId) :
    (goOn now rest).program P = (do
      dropExpired rest
      cleanup now) := by
  cases rest with
  | nil => rfl
  | cons c rest => rfl

/-- A task that is not done is about to execute one section of its
handler, and `step` is that section. -/
theorem program_step (P : Prims) (t : LeaseTask) (ht : t ≠ done) :
    ∃ l, t.program P = .sec l (fun s => (t.step P s).2)
      fun s => (t.step P s).1.program P := by
  cases t with
  | list now order =>
      have hrest : ∀ expired : List ChunkId,
          ((do
            dropExpired expired
            cleanup now
            pure expired.length) >>= fun _ => pure () : Handler Unit)
          = (goOn now expired).program P := by
        intro expired
        rw [program_goOn, bind_assoc]
        rfl
      exact ⟨.leases, congrArg (Proc.sec _ _) (funext fun s => hrest _)⟩
  | drop now c rest => exact ⟨.holder, rfl⟩
  | unlease now c gone size rest => exact ⟨.leases, rfl⟩
  | uncount now size rest =>
      refine ⟨.capacity, congrArg (Proc.sec _ _) (funext fun s => ?_)⟩
      exact (program_goOn now rest).symm
  | forget now => exact ⟨.leases, rfl⟩
  | look now hb => exact ⟨.holder, rfl⟩
  | renew now hb held => exact ⟨.leases, rfl⟩
  | tick now order => exact ⟨.leases, rfl⟩
  | complete pid =>
      refine ⟨.swaps, congrArg (Proc.sec _ _) (funext fun s => ?_)⟩
      show _ = (((completeReady pid s).1.map put).getD done).program P
      simp only [Proc.seq]
      generalize (completeReady pid s).1 = completed
      cases completed with
      | none => rfl
      | some swap => exact bind_assoc _ _ _
  | put swap =>
      refine ⟨.put swap, ?_⟩
      show Proc.sec _ _ _ = Proc.sec _ _ _
      congr 1
      · funext s
        simp only [step]
        split <;> rfl
      · funext s
        simp only [step, Proc.seq]
        split <;> rfl
  | release swap storedNew =>
      refine ⟨.capacity, ?_⟩
      cases storedNew <;> rfl
  | count swap => exact ⟨.counts, rfl⟩
  | lease swap => exact ⟨.leases, rfl⟩
  | done => exact absurd rfl ht

/-- Is this a sweep at this clock that still has the chunk to remove? -/
def lists (now : Nat) (c : ChunkId) : LeaseTask → Prop
  | drop t d rest => t = now ∧ (c = d ∨ c ∈ rest)
  | unlease t _ _ _ rest => t = now ∧ c ∈ rest
  | uncount t _ rest => t = now ∧ c ∈ rest
  | _ => False

/-- Does the next section write a lease for the chunk that ends then? A
heartbeat writes what it names and saw held, unless it is refused before;
the refresh writes the owned leases, and a swap its own. -/
def writesLease (P : Prims) (s : TransportState) (c : ChunkId)
    (expiresAt : Nat) : LeaseTask → Prop
  | renew now hb held => hb.verifySignature P = true
      ∧ s.leaseManager.seenNonces.get hb.nonce = none
      ∧ s.leaseManager.writes hb held c = true
      ∧ expiresAt = cappedExpiry hb now
  | tick now order => c ∈ s.leaseManager.ownedChunks order
      ∧ s.leaseManager.leases.get c ≠ none
      ∧ expiresAt = now + DEFAULT_LEASE_DURATION_SECS
  | lease swap => c = swap.theirChunkId ∧ expiresAt = swap.leaseExpiresAt
  | _ => False

end LeaseTask

-- ============= pools

/-- A call of one of the four functions. -/
inductive RaceCall
  | task (now : Nat) (e : LeaseEvent)
  | finalize (pid : ProposalId)

namespace RaceCall

/-- The handler. -/
def program (P : Prims) : RaceCall → Handler Unit
  | task now e => e.program P now
  | finalize pid => do let _ ← finalizeSwapIfReady pid

/-- Where it stands at first. -/
def start : RaceCall → LeaseTask
  | task now (.heartbeat hb) => .look now hb
  | task now (.tick order) => .tick now order
  | task now (.sweep order) => .list now order
  | finalize pid => .complete pid

theorem program_start (P : Prims) (call : RaceCall) :
    call.start.program P = call.program P := by
  cases call with
  | finalize pid => rfl
  | task now e =>
      cases e with
      | heartbeat hb => rfl
      | tick order => rfl
      | sweep order => rfl

end RaceCall

/-- One state and the tasks over it. `deleted` are the chunks that some
sweep found held and is through with: removed, and their lease dropped. -/
structure LeaseRace where
  state : TransportState
  tasks : List LeaseTask
  deleted : List ChunkId

/-- A function is called, or a task executes its next section. -/
inductive RaceMove
  | call (call : RaceCall)
  | run (k : Nat)

namespace LeaseRace

/-- The chunk a task is through with after its next section. -/
def finishes : LeaseTask → Option ChunkId
  | .unlease _ c true _ _ => some c
  | _ => none

def exec (P : Prims) (r : LeaseRace) (k : Nat) (t : LeaseTask) :
    LeaseRace where
  state := (t.step P r.state).2
  tasks := r.tasks.set k (t.step P r.state).1
  deleted := (finishes t).toList ++ r.deleted

def step (P : Prims) (r : LeaseRace) : RaceMove → LeaseRace
  | .call call => { r with tasks := call.start :: r.tasks }
  | .run k => r.tasks[k]?.elim r (r.exec P k)

/-- No task yet. -/
def start (s : TransportState) : LeaseRace := ⟨s, [], []⟩

variable {P : Prims} {r : LeaseRace}

theorem step_run {k : Nat} {t : LeaseTask} (h : r.tasks[k]? = some t) :
    r.step P (.run k) = r.exec P k t := by
  show r.tasks[k]?.elim r (r.exec P k) = _
  rw [h]
  rfl

theorem step_run_none {k : Nat} (h : r.tasks[k]? = none) :
    r.step P (.run k) = r := by
  show r.tasks[k]?.elim r (r.exec P k) = r
  rw [h]
  rfl

/-- Every interleaving of the handlers' sections is a run of such
moves. -/
theorem moves_of_reach (P : Prims) {s₀ s : TransportState}
    {ps : List (Handler Unit)} {tr : List (Step Act TransportState)}
    (h : Reach (fun p => ∃ call : RaceCall, p = call.program P)
      (fun _ _ => True) s₀ s ps tr) :
    ∃ moves : List RaceMove,
      (moves.foldl (step P) (start s₀)).state = s
        ∧ (moves.foldl (step P) (start s₀)).tasks.map
          (LeaseTask.program P) = ps := by
  induction h with
  | init => exact ⟨[], rfl, rfl⟩
  | spawn p hp _ ih =>
      obtain ⟨moves, hstate, htasks⟩ := ih
      obtain ⟨call, rfl⟩ := hp
      refine ⟨moves ++ [.call call], ?_, ?_⟩
      · rw [List.foldl_append]
        exact hstate
      · rw [List.foldl_append]
        show call.start.program P :: List.map _ _ = _
        rw [htasks, call.program_start P]
  | exec ps₁ ps₂ l upd next _ _ ih =>
      obtain ⟨moves, hstate, htasks⟩ := ih
      obtain ⟨ts₁, ts', hsplit, rfl, hts'⟩ :=
        List.map_eq_append_iff.1 htasks
      obtain ⟨t, ts₂, rfl, ht, rfl⟩ := List.map_eq_cons_iff.1 hts'
      have hdone : t ≠ .done := by
        rintro rfl
        cases ht
      obtain ⟨l', hsec⟩ := t.program_step P hdone
      rw [ht] at hsec
      cases hsec
      have hat : (moves.foldl (step P) (start s₀)).tasks[ts₁.length]?
          = some t := by
        rw [hsplit, List.getElem?_append_right (Nat.le_refl _),
          Nat.sub_self]
        rfl
      refine ⟨moves ++ [.run ts₁.length], ?_, ?_⟩
      · rw [List.foldl_append, ← hstate]
        exact congrArg LeaseRace.state (step_run hat)
      · rw [List.foldl_append, ← hstate]
        refine (congrArg (fun r => r.tasks.map (LeaseTask.program P))
          (step_run hat)).trans ?_
        show ((moves.foldl (step P) (start s₀)).tasks.set ts₁.length _).map
          _ = _
        rw [hsplit, List.set_append_right _ _ (Nat.le_refl _), Nat.sub_self,
          List.set_cons_zero, List.map_append, List.map_cons]

/-- And every run of such moves is an interleaving of them. -/
theorem reach_of_moves (P : Prims) (s₀ : TransportState)
    (moves : List RaceMove) :
    ∃ tr, Reach (fun p => ∃ call : RaceCall, p = call.program P)
      (fun _ _ => True) s₀ (moves.foldl (step P) (start s₀)).state
      ((moves.foldl (step P) (start s₀)).tasks.map (LeaseTask.program P))
      tr := by
  induction moves using List.reverseRecOn with
  | nil => exact ⟨[], .init⟩
  | append_singleton moves m ih =>
      obtain ⟨tr, hreach⟩ := ih
      rw [List.foldl_append]
      generalize moves.foldl (step P) (start s₀) = r at hreach ⊢
      show ∃ tr, Reach _ _ s₀ (r.step P m).state
        ((r.step P m).tasks.map (LeaseTask.program P)) tr
      cases m with
      | call call =>
          refine ⟨tr, ?_⟩
          show Reach _ _ s₀ r.state
            (call.start.program P :: r.tasks.map _) tr
          rw [call.program_start P]
          exact .spawn _ ⟨call, rfl⟩ hreach
      | run k =>
          cases hk : r.tasks[k]? with
          | none =>
              rw [step_run_none hk]
              exact ⟨tr, hreach⟩
          | some t =>
              rw [step_run hk]
              obtain ⟨hlt, hget⟩ := List.getElem?_eq_some_iff.1 hk
              by_cases hdone : t = .done
              · refine ⟨tr, ?_⟩
                subst hdone
                show Reach _ _ s₀ r.state
                  ((r.tasks.set k .done).map _) tr
                rw [← hget, List.set_getElem_self]
                exact hreach
              · obtain ⟨l, hsec⟩ := t.program_step P hdone
                have hsplit : r.tasks.map (LeaseTask.program P)
                    = (r.tasks.take k).map (LeaseTask.program P)
                      ++ .sec l (fun s => (t.step P s).2)
                        (fun s => (t.step P s).1.program P)
                      :: (r.tasks.drop (k + 1)).map
                        (LeaseTask.program P) := by
                  rw [← hsec, ← hget, ← List.map_cons, ← List.map_append,
                    ← List.drop_eq_getElem_cons hlt, List.take_append_drop]
                rw [hsplit] at hreach
                have hnext := Reach.exec _ _ l _ _ hreach trivial
                refine ⟨tr ++ [(l, r.state)], ?_⟩
                show Reach _ _ s₀ (t.step P r.state).2
                  ((r.tasks.set k (t.step P r.state).1).map _) _
                rw [List.set_eq_take_append_cons_drop, if_pos hlt,
                  List.map_append, List.map_cons]
                exact hnext

-- ==== what sweeps spare

/-- A sweep removes no chunk whose lease, with the grace, reaches its
clock. -/
def KeepsRenewed (P : Prims) (r : LeaseRace) : RaceMove → Prop
  | .call _ => True
  | .run k => ∀ now c rest, r.tasks[k]? = some (.drop now c rest) →
      ∀ lease, r.state.leaseManager.leases.get c = some lease →
        now ≤ lease.expiresAt + GRACE_PERIOD_SECS →
          (r.step P (.run k)).state.chunkHolder.getChunk c
            = r.state.chunkHolder.getChunk c

/-- No chunk a sweep has deleted has a lease. -/
def Unleased (r : LeaseRace) : Prop :=
  ∀ c ∈ r.deleted, r.state.leaseManager.leases.get c = none

/-- No section writes a lease for a chunk on a sweep's list, unless it
has lapsed by the sweep's clock all the same. -/
def SparesListed (P : Prims) (r : LeaseRace) : RaceMove → Prop
  | .call _ => True
  | .run k => ∀ t, r.tasks[k]? = some t → ∀ c e,
      t.writesLease P r.state c e → ∀ now, ∀ t' ∈ r.tasks,
        t'.lists now c → e + GRACE_PERIOD_SECS < now

/-- No section writes a lease for a chunk that a sweep has deleted. -/
def SparesDeleted (P : Prims) (r : LeaseRace) : RaceMove → Prop
  | .call _ => True
  | .run k => ∀ t, r.tasks[k]? = some t → ∀ c e,
      t.writesLease P r.state c e → c ∉ r.deleted

end LeaseRace

-- ==== what is written

namespace LeaseTask

variable {P : Prims} {s : TransportState} {t : LeaseTask} {c : ChunkId}

/-- A lease after a section was there before or is the one it writes. -/
theorem step_lease {lease : ChunkLease}
    (h : (t.step P s).2.leaseManager.leases.get c = some lease) :
    s.leaseManager.leases.get c = some lease
      ∨ t.writesLease P s c lease.expiresAt := by
  cases t with
  | list now order => exact Or.inl h
  | drop now d rest => exact Or.inl h
  | unlease now d gone size rest =>
      left
      have h : (s.leaseManager.leases.erase d).get c = some lease := h
      rw [FMap.get_erase] at h
      by_cases hc : c = d
      · rw [if_pos hc] at h
        cases h
      · rwa [if_neg hc] at h
  | uncount now size rest => exact Or.inl h
  | forget now => exact Or.inl h
  | look now hb => exact Or.inl h
  | renew now hb held =>
      have h : (s.leaseManager.processHeartbeatUpsert P hb now
        held).2.leases.get c = some lease := h
      rw [processHeartbeatUpsert_get] at h
      by_cases hw : hb.verifySignature P = true
          ∧ s.leaseManager.seenNonces.get hb.nonce = none
          ∧ s.leaseManager.writes hb held c = true
      · rw [if_pos hw] at h
        cases h
        exact Or.inr ⟨hw.1, hw.2.1, hw.2.2, rfl⟩
      · rw [if_neg hw] at h
        exact Or.inl h
  | tick now order =>
      have h : (refreshAll (now + DEFAULT_LEASE_DURATION_SECS)
        (s.leaseManager.ownedChunks order)
        (0, s.leaseManager)).2.leases.get c = some lease := h
      rw [refreshAll_get] at h
      by_cases hmem : c ∈ s.leaseManager.ownedChunks order
      · rw [if_pos hmem] at h
        obtain ⟨old, hold, rfl⟩ := Option.map_eq_some_iff.1 h
        refine Or.inr ⟨hmem, ?_, rfl⟩
        exact fun hnone => Option.some_ne_none _ (hold.symm.trans hnone)
      · rw [if_neg hmem] at h
        exact Or.inl h
  | complete pid =>
      left
      rcases completeReady_cases pid s with hc | ⟨swap, -, -, hc⟩
      · have h : (completeReady pid s).2.leaseManager.leases.get c
          = some lease := h
        rwa [hc] at h
      · have h : (completeReady pid s).2.leaseManager.leases.get c
          = some lease := h
        rwa [hc] at h
  | put swap =>
      left
      simp only [step] at h
      by_cases hheld : s.chunkHolder.hasChunk swap.theirChunkId = true
      · rwa [if_pos hheld] at h
      · rwa [if_neg hheld] at h
  | release swap storedNew => exact Or.inl h
  | count swap => exact Or.inl h
  | lease swap =>
      have h : (s.leaseManager.leases.insert swap.theirChunkId
        (swapLease swap)).get c = some lease := h
      rw [FMap.get_insert] at h
      by_cases hc : c = swap.theirChunkId
      · rw [if_pos hc] at h
        cases h
        exact Or.inr ⟨hc, rfl⟩
      · rw [if_neg hc] at h
        exact Or.inl h
  | done => exact Or.inl h

/-- What a section writes is there after it. -/
theorem step_writes {e : Nat} (h : t.writesLease P s c e) :
    (t.step P s).2.leaseManager.leases.get c ≠ none := by
  cases t with
  | renew now hb held =>
      obtain ⟨hsig, hnonce, hwrites, -⟩ := h
      show (s.leaseManager.processHeartbeatUpsert P hb now
        held).2.leases.get c ≠ none
      rw [processHeartbeatUpsert_get, if_pos ⟨hsig, hnonce, hwrites⟩]
      exact Option.some_ne_none _
  | tick now order =>
      obtain ⟨hmem, hleased, -⟩ := h
      show (refreshAll (now + DEFAULT_LEASE_DURATION_SECS)
        (s.leaseManager.ownedChunks order)
        (0, s.leaseManager)).2.leases.get c ≠ none
      rw [refreshAll_get, if_pos hmem]
      exact fun hnone => hleased (Option.map_eq_none_iff.1 hnone)
  | lease swap =>
      obtain ⟨rfl, -⟩ := h
      show (s.leaseManager.leases.insert swap.theirChunkId
        (swapLease swap)).get swap.theirChunkId ≠ none
      rw [FMap.get_insert_self]
      exact Option.some_ne_none _
  | _ => exact absurd h id

/-- What a sweep has on its list it had before, or has just taken from
the expired leases. -/
theorem step_lists {now : Nat} (h : (t.step P s).1.lists now c) :
    t.lists now c
      ∨ ∃ order, t = list now order
        ∧ c ∈ s.leaseManager.getExpiredChunks order now := by
  have hgoOn : ∀ {now' : Nat} {l : List ChunkId}, (goOn now' l).lists now c →
      now' = now ∧ c ∈ l := by
    intro now' l hl
    cases l with
    | nil => exact absurd hl id
    | cons d rest =>
        obtain ⟨hnow, hc⟩ := hl
        exact ⟨hnow, List.mem_cons.2 hc⟩
  cases t with
  | list now' order =>
      obtain ⟨rfl, hc⟩ := hgoOn h
      exact Or.inr ⟨order, rfl, hc⟩
  | drop now' d rest => exact Or.inl ⟨h.1, Or.inr h.2⟩
  | unlease now' d gone size rest => exact Or.inl h
  | uncount now' size rest => exact Or.inl (hgoOn h)
  | complete pid =>
      exfalso
      revert h
      show ¬(((completeReady pid s).1.map put).getD done).lists now c
      cases (completeReady pid s).1 with
      | none => exact id
      | some swap => exact id
  | put swap =>
      exfalso
      revert h
      simp only [step]
      by_cases hheld : s.chunkHolder.hasChunk swap.theirChunkId = true
      · rw [if_pos hheld]
        exact id
      · rw [if_neg hheld]
        exact id
  | release swap storedNew =>
      exfalso
      revert h
      cases storedNew <;> exact id
  | _ => exact absurd h id

end LeaseTask

namespace LeaseRace

variable {P : Prims} {r : LeaseRace}

/-- What is on a sweep's list has lapsed by its clock. -/
def Listed (r : LeaseRace) : Prop :=
  ∀ now c, ∀ t ∈ r.tasks, t.lists now c →
    ∀ lease, r.state.leaseManager.leases.get c = some lease →
      lease.expiresAt + GRACE_PERIOD_SECS < now

/-- The list is taken of lapsed leases, and no section brings one of them
back. -/
theorem listed_step {m : RaceMove} (hr : r.Listed)
    (hspares : r.SparesListed P m) : (r.step P m).Listed := by
  cases m with
  | call call =>
      intro now c t ht hlists
      rcases List.mem_cons.1 ht with rfl | ht
      · exfalso
        revert hlists
        cases call with
        | finalize pid => exact id
        | task now' e =>
            cases e with
            | heartbeat hb => exact id
            | tick order => exact id
            | sweep order => exact id
      · exact hr now c t ht hlists
  | run k =>
      cases hk : r.tasks[k]? with
      | none =>
          rw [step_run_none hk]
          exact hr
      | some t =>
          have hspares := hspares t hk
          have hmem := List.mem_of_getElem? hk
          rw [step_run hk]
          intro now c t' ht' hlists lease hget
          -- a lease of the state before, or one the section has written
          have hold : ∀ t'' ∈ r.tasks, t''.lists now c →
              lease.expiresAt + GRACE_PERIOD_SECS < now := by
            intro t'' ht'' hlists''
            rcases LeaseTask.step_lease hget with hbefore | hwrites
            · exact hr now c t'' ht'' hlists'' lease hbefore
            · exact hspares c _ hwrites now t'' ht'' hlists''
          rcases List.mem_or_eq_of_mem_set ht' with hin | rfl
          · exact hold t' hin hlists
          · rcases LeaseTask.step_lists hlists with hlists | ⟨order, rfl, hc⟩
            · exact hold t hmem hlists
            · obtain ⟨-, hlapsed⟩ := List.mem_filter.1 hc
              have hget : r.state.leaseManager.leases.get c = some lease :=
                hget
              rw [hget, Option.any_some] at hlapsed
              unfold LeaseManager.lapsed at hlapsed
              rw [decide_eq_true_eq] at hlapsed
              omega

/-- So what a sweep removes has lapsed. -/
theorem keeps_of_listed (hr : r.Listed) (m : RaceMove) :
    r.KeepsRenewed P m := by
  cases m with
  | call call => trivial
  | run k =>
      intro now c rest hk lease hget hreaches
      have hlapsed := hr now c _ (List.mem_of_getElem? hk) ⟨rfl, Or.inl rfl⟩
        lease hget
      omega

/-- A deleted chunk stays without a lease exactly as long as no section
writes one for it. -/
theorem unleased_step (hr : r.Unleased) (m : RaceMove) :
    (r.step P m).Unleased ↔ r.SparesDeleted P m := by
  cases m with
  | call call => exact ⟨fun _ => trivial, fun _ => hr⟩
  | run k =>
      cases hk : r.tasks[k]? with
      | none =>
          rw [step_run_none hk]
          refine iff_of_true hr fun t ht => ?_
          rw [hk] at ht
          cases ht
      | some t =>
          rw [step_run hk]
          constructor
          · intro hafter t' ht' c e hwrites hdeleted
            rw [hk] at ht'
            cases ht'
            exact LeaseTask.step_writes hwrites
              (hafter c (List.mem_append_right _ hdeleted))
          · intro hspares c hdeleted
            have hspares := hspares t hk
            rcases List.mem_append.1 hdeleted with hnew | hold
            · -- the sweep is through with it
              cases t with
              | unlease now d gone size rest =>
                  cases gone with
                  | false => cases hnew
                  | true =>
                      obtain rfl := List.mem_singleton.1 hnew
                      exact FMap.get_erase_self _ _
              | _ => cases hnew
            · refine Option.eq_none_iff_forall_ne_some.2 fun lease hget => ?_
              rcases LeaseTask.step_lease hget with hbefore | hwrites
              · rw [hr c hold] at hbefore
                cases hbefore
              · exact hspares c _ hwrites hold

end LeaseRace

open LeaseRace

/-- In every interleaving of sweeps, heartbeats, refreshes and finalized
swaps: where no section writes an unlapsed lease for a chunk on a running
sweep's list, no sweep removes a chunk whose lease reaches its clock; and
the deleted chunks stay without a lease exactly when no section writes one
for them. -/
theorem sweep_spares (P : Prims) (s : TransportState)
    (moves : List RaceMove) :
    (Exact.Along (LeaseRace.step P) (SparesListed P) (start s) moves →
        Exact.Along (LeaseRace.step P) (KeepsRenewed P) (start s) moves)
      ∧ (Exact.Always (LeaseRace.step P) Unleased (start s) moves
        ↔ Exact.Along (LeaseRace.step P) (SparesDeleted P) (start s)
          moves) := by
  constructor
  · have hrun : ∀ r : LeaseRace, r.Listed →
        Exact.Along (LeaseRace.step P) (SparesListed P) r moves →
          Exact.Along (LeaseRace.step P) (KeepsRenewed P) r moves := by
      induction moves with
      | nil => exact fun _ _ _ => trivial
      | cons m moves ih =>
          intro r hr hspares
          exact ⟨keeps_of_listed hr m,
            ih _ (listed_step hr hspares.1) hspares.2⟩
    exact hrun _ fun _ _ _ ht => absurd ht List.not_mem_nil
  · exact Exact.always_iff_along (J := fun _ => True) (fun _ _ _ => trivial)
      (fun r m _ hr => unleased_step hr m) trivial
      fun _ hc => absurd hc List.not_mem_nil

-- ======== concretely

/-- A node that holds one chunk, its lease long lapsed. -/
def lapsedNode : TransportState :=
  { publisherNode with
    leaseManager := LeaseManager.new.addLease (Bytes.fill 32 7)
      { chunkId := Bytes.fill 32 7
        expiresAt := 0
        renewalToken := Bytes.fill 32 5
        contentPubKey := Bytes.fill 32 4 } }

/-- A sweep takes its list, a heartbeat renews, the sweep goes on. -/
def renewedTooLate : List RaceMove :=
  [.call (.task 10000000 (.sweep byId)), .run 0,
    .call (.task 10000000 (.heartbeat (strangerBeat 20000000))), .run 0,
    .run 0, .run 1]

/-- A heartbeat looks, a sweep deletes the chunk, the heartbeat renews. -/
def lookedTooEarly : List RaceMove :=
  [.call (.task 10000000 (.heartbeat (strangerBeat 20000000))), .run 0,
    .call (.task 10000000 (.sweep byId)), .run 0, .run 0, .run 0, .run 1]

/-- The first costs a chunk whose lease was just renewed; the second
leaves a lease on a chunk that is gone. -/
theorem sweep_overtaken :
    ¬Exact.Along (LeaseRace.step Prims.plain) (KeepsRenewed Prims.plain)
        (start lapsedNode) renewedTooLate
      ∧ ¬Exact.Always (LeaseRace.step Prims.plain) Unleased
        (start lapsedNode) lookedTooEarly := by
  constructor
  · rintro ⟨-, -, -, -, -, hdrop, -⟩
    have hkept := hdrop 10000000 (Bytes.fill 32 7) [] rfl _ rfl (by decide)
    cases hkept
  · intro h
    have hnone := h.last (Bytes.fill 32 7) (by decide)
    cases hnone

end StaticNet
