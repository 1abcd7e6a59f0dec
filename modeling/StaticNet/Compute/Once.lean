/-
How many tasks a provider runs (`static-node/src/runner.rs`,
`handle_compute_request`, `run_compute_execution` and the payment tick).

# What counts as running

A task runs from its spawn until it returns, the response it sends at the
end included. The table of active executions knows it only until the
execution is over.

# The two gaps

A request that repeats an active one is accepted without being registered,
and what is accepted is spawned. And a task that sends its response is no
longer in the table, so neither its request id nor its place is taken.

# The invariant

As long as no two tasks run for one request id, the table's keys are the
request ids of the tasks that do not send their response yet. It is kept
only together with the property, which is what `always_iff_along_while`
is for.
-/
import StaticNet.Compute.Capacity

namespace StaticNet

open Exact

namespace Provider

variable {cfg : ComputeConfig} {s s' : Provider} {e : ComputeEvent}
  {r : ComputeRequest}

-- ========= the tasks

def taskIds (runs : List RunTask) : List RequestId :=
  runs.map fun t => t.request.requestId

/-- The tasks with their execution before them. -/
def executing (runs : List RunTask) : List RunTask :=
  runs.filter fun t => t.phase ≠ .answering

/-- The tasks that send their response. -/
def sending (runs : List RunTask) : List RunTask :=
  runs.filter fun t => t.phase = .answering

/-- At most one task for a request id, and no more than the capacity. -/
structure Single (cfg : ComputeConfig) (s : Provider) : Prop where
  ids : (taskIds s.runs).Nodup
  count : s.runs.length ≤ cfg.capacity

/-- The request a step spawns a task for. -/
def spawned (cfg : ComputeConfig) (s : Provider) :
    ComputeEvent → Option ComputeRequest
  | .request r =>
      if cfg.enabled && cfg.pricing.isFree
          && (s.state.activeExecutions.contains r.requestId
            || s.state.activeExecutions.len < cfg.capacity)
      then some r else none
  | .place =>
      match s.tick with
      | .holding staged _ =>
          if s.state.activeExecutions.len < cfg.capacity
          then some staged.request else none
      | _ => none
  | _ => none

/-- A spawn is for a request that is not active, that no task answers, and
that the executions and the responses on their way leave room for. -/
def Vacant (cfg : ComputeConfig) (s : Provider) (e : ComputeEvent) : Prop :=
  ∀ r, spawned cfg s e = some r →
    s.state.activeExecutions.contains r.requestId = false
      ∧ r.requestId ∉ taskIds (sending s.runs)
      ∧ s.state.activeExecutions.len + (sending s.runs).length
          < cfg.capacity

theorem taskIds_append (l l' : List RunTask) :
    taskIds (l ++ l') = taskIds l ++ taskIds l' :=
  List.map_append

theorem taskIds_perm {l l' : List RunTask} (h : l.Perm l') :
    (taskIds l).Perm (taskIds l') :=
  h.map _

theorem executing_perm {l l' : List RunTask} (h : l.Perm l') :
    (executing l).Perm (executing l') :=
  h.filter _

theorem perm_executing_sending (l : List RunTask) :
    l.Perm (executing l ++ sending l) := by
  have h := List.filter_append_perm
    (fun t : RunTask => decide (t.phase ≠ .answering)) l
  have hs : l.filter (fun t => !decide (t.phase ≠ .answering))
      = sending l := by
    apply List.filter_congr
    intro t _
    simp
  rw [hs] at h
  exact h.symm

/-- A task goes on as another one for the same request. -/
theorem set_perm {runs : List RunTask} {i : Nat} {t : RunTask}
    (h : runs[i]? = some t) (t' : RunTask) :
    (runs.set i t').Perm (t' :: runs.eraseIdx i)
      ∧ runs.Perm (t :: runs.eraseIdx i) := by
  obtain ⟨hi, rfl⟩ := List.getElem?_eq_some_iff.1 h
  exact ⟨List.set_perm_cons_eraseIdx hi t',
    (List.getElem_cons_eraseIdx_perm hi).symm⟩

-- ===== the invariant

/-- The entries are for the requests they are filed under. -/
def Keyed (m : FMap RequestId PendingPayment) : Prop :=
  ∀ k entry, m.get k = some entry →
    entry.requestId = k ∧ entry.request.requestId = k

theorem Keyed.erase {m : FMap RequestId PendingPayment} (h : Keyed m)
    (id : RequestId) : Keyed (m.erase id) := by
  intro k entry hg
  rw [FMap.get_erase] at hg
  by_cases hk : k = id
  · rw [if_pos hk] at hg
    cases hg
  · rw [if_neg hk] at hg
    exact h k entry hg

theorem Keyed.insert {m : FMap RequestId PendingPayment} (h : Keyed m)
    {entry : PendingPayment}
    (he : entry.request.requestId = entry.requestId) :
    Keyed (m.insert entry.requestId entry) := by
  intro k entry' hg
  rw [FMap.get_insert] at hg
  by_cases hk : k = entry.requestId
  · rw [if_pos hk] at hg
    cases hg
    exact ⟨hk.symm, he.trans hk.symm⟩
  · rw [if_neg hk] at hg
    exact h k entry' hg

/-- An update in place that keeps the request keeps the filing. -/
theorem Keyed.modify {m : FMap RequestId PendingPayment} (h : Keyed m)
    (id : RequestId) {f : PendingPayment → PendingPayment}
    (hf : ∀ entry, (f entry).requestId = entry.requestId
      ∧ (f entry).request = entry.request) :
    Keyed (m.modify id f) := by
  intro k entry hg
  rw [FMap.get_modify] at hg
  by_cases hk : k = id
  · rw [if_pos hk] at hg
    obtain ⟨old, hold, rfl⟩ := Option.map_eq_some_iff.1 hg
    rw [(hf old).1, (hf old).2]
    exact h k old hold
  · rw [if_neg hk] at hg
    exact h k entry hg

/-- The table and the tasks agree, and what is staged is filed under its
own request. -/
structure Registered (s : Provider) : Prop where
  keys : s.state.activeExecutions.keys
    = (taskIds (executing s.runs)).toFinset
  staged : Keyed s.state.paymentPending
  hand : ∀ entry rest, s.tick = .holding entry rest →
    entry.request.requestId = entry.requestId

theorem registered_start : start.Registered := by
  refine ⟨rfl, ?_, ?_⟩
  · intro k entry h
    cases h
  · intro entry rest h
    cases h

theorem Registered.contains_iff (hs : s.Registered) (id : RequestId) :
    s.state.activeExecutions.contains id = false
      ↔ id ∉ taskIds (executing s.runs) := by
  rw [FMap.contains_eq_false, hs.keys, List.mem_toFinset]

theorem Registered.len_eq (hs : s.Registered)
    (hd : (taskIds s.runs).Nodup) :
    s.state.activeExecutions.len = (executing s.runs).length := by
  have hsub : (taskIds (executing s.runs)).Sublist (taskIds s.runs) :=
    List.filter_sublist.map _
  rw [FMap.len, hs.keys, List.toFinset_card_of_nodup (hd.sublist hsub)]
  exact List.length_map _

/-- One more task keeps the bounds exactly when its place is vacant. -/
theorem single_spawn_iff (hs : s.Registered) (hI : Single cfg s)
    (hruns : s'.runs = s.runs ++ [⟨r, .obtaining⟩]) :
    Single cfg s' ↔
      s.state.activeExecutions.contains r.requestId = false
        ∧ r.requestId ∉ taskIds (sending s.runs)
        ∧ s.state.activeExecutions.len + (sending s.runs).length
            < cfg.capacity := by
  have hmem : r.requestId ∈ taskIds s.runs
      ↔ r.requestId ∈ taskIds (executing s.runs)
        ∨ r.requestId ∈ taskIds (sending s.runs) := by
    rw [(taskIds_perm (perm_executing_sending s.runs)).mem_iff,
      taskIds_append, List.mem_append]
  have hlen : s.runs.length
      = s.state.activeExecutions.len + (sending s.runs).length := by
    rw [hs.len_eq hI.ids, ← List.length_append]
    exact (perm_executing_sending s.runs).length_eq
  have hnodup : (taskIds s'.runs).Nodup
      ↔ r.requestId ∉ taskIds s.runs := by
    rw [hruns, taskIds_append, List.nodup_append]
    constructor
    · intro h hin
      exact h.2.2 _ hin _ List.mem_cons_self rfl
    · intro h
      refine ⟨hI.ids, List.nodup_singleton _, ?_⟩
      intro a ha b hb
      rw [taskIds, List.map_singleton, List.mem_singleton] at hb
      subst hb
      exact fun hab => h (hab ▸ ha)
  have hcount : s'.runs.length ≤ cfg.capacity
      ↔ s.runs.length < cfg.capacity := by
    rw [hruns, List.length_append]
    exact Iff.rfl
  have hsingle : Single cfg s' ↔ (taskIds s'.runs).Nodup
      ∧ s'.runs.length ≤ cfg.capacity :=
    ⟨fun h => ⟨h.ids, h.count⟩, fun h => ⟨h.1, h.2⟩⟩
  rw [hsingle, hnodup, hcount, hmem, not_or, hlen, hs.contains_iff,
    and_assoc]

-- ========= the steps

theorem executing_cons {t : RunTask} (ht : t.phase ≠ .answering)
    (l : List RunTask) : executing (t :: l) = t :: executing l :=
  List.filter_cons_of_pos (decide_eq_true ht)

theorem executing_cons_answering {t : RunTask} (ht : t.phase = .answering)
    (l : List RunTask) : executing (t :: l) = executing l :=
  List.filter_cons_of_neg (by simp [ht])

theorem executing_append (l l' : List RunTask) :
    executing (l ++ l') = executing l ++ executing l' :=
  List.filter_append l l'

theorem toFinset_perm {l l' : List RunTask} (h : l.Perm l') :
    (taskIds (executing l)).toFinset = (taskIds (executing l')).toFinset :=
  List.toFinset_eq_of_perm _ _ (taskIds_perm (executing_perm h))

/-- A task that goes on for the same request changes no count. -/
theorem Single.set {i : Nat} {t : RunTask} (hi : s.runs[i]? = some t)
    (hI : Single cfg s) (phase : RunPhase)
    (hruns : s'.runs = s.runs.set i { t with phase := phase }) :
    Single cfg s' := by
  obtain ⟨hset, hold⟩ := set_perm hi { t with phase := phase }
  have hperm : (taskIds s'.runs).Perm (taskIds s.runs) := by
    rw [hruns]
    exact (taskIds_perm hset).trans (taskIds_perm hold).symm
  constructor
  · exact hperm.nodup_iff.2 hI.ids
  · rw [hruns, List.length_set]
    exact hI.count

theorem Runs.single {i : Nat} {t : RunTask} (h : Runs s i t s')
    (hi : s.runs[i]? = some t) (hI : Single cfg s) : Single cfg s' := by
  cases h with
  | waits _ => exact hI
  | finds bytes _ _ => exact hI.set hi (.cached bytes) rfl
  | misses _ => exact hI.set hi .fetching rfl
  | unobtained _ => exact hI.set hi .answering rfl
  | empty _ _ => exact hI.set hi .answering rfl
  | fetches bytes _ => exact hI.set hi (.fetched bytes) rfl
  | caches bytes _ => exact hI.set hi (.trimming bytes) rfl
  | trims _ bytes _ => exact hI.set hi (.executing bytes) rfl
  | finishes _ _ => exact hI.set hi .answering rfl
  | returns _ =>
      have hsub : (s.runs.eraseIdx i).Sublist s.runs :=
        List.eraseIdx_sublist s.runs i
      exact ⟨hI.ids.sublist (hsub.map _), hsub.length_le.trans hI.count⟩

/-- A task with its execution before it goes on with it before it. -/
theorem Registered.set {i : Nat} {t : RunTask} (hi : s.runs[i]? = some t)
    (ht : t.phase ≠ .answering) (hs : s.Registered) {phase : RunPhase}
    (hphase : phase ≠ .answering)
    (hactive : s'.state.activeExecutions = s.state.activeExecutions)
    (hpending : s'.state.paymentPending = s.state.paymentPending)
    (htick : s'.tick = s.tick)
    (hruns : s'.runs = s.runs.set i { t with phase := phase }) :
    s'.Registered := by
  obtain ⟨hset, hold⟩ := set_perm hi { t with phase := phase }
  refine ⟨?_, by rw [hpending]; exact hs.staged,
    by rw [htick]; exact hs.hand⟩
  rw [hactive, hs.keys, hruns, toFinset_perm hset, toFinset_perm hold,
    executing_cons ht, executing_cons hphase]
  rfl

/-- A task whose execution is over leaves the table. -/
theorem Registered.finish {i : Nat} {t : RunTask}
    (hi : s.runs[i]? = some t) (ht : t.phase ≠ .answering)
    (hd : (taskIds s.runs).Nodup) (hs : s.Registered) :
    (s.finish i t).Registered := by
  obtain ⟨hset, hold⟩ := set_perm hi { t with phase := .answering }
  refine ⟨?_, hs.staged, hs.hand⟩
  show s.state.activeExecutions.keys.erase t.request.requestId = _
  have hfresh : t.request.requestId
      ∉ (taskIds (executing (s.runs.eraseIdx i))).toFinset := by
    rw [List.mem_toFinset]
    intro hin
    have hd := (taskIds_perm hold).nodup_iff.1 hd
    exact (List.nodup_cons.1 hd).1
      ((List.filter_sublist.map _).subset hin)
  have hcons : (taskIds (executing (t :: s.runs.eraseIdx i))).toFinset
      = Insert.insert t.request.requestId
          (taskIds (executing (s.runs.eraseIdx i))).toFinset := by
    rw [executing_cons ht]
    exact List.toFinset_cons
  rw [hs.keys, toFinset_perm hold, hcons, Finset.erase_insert hfresh]
  show _ = (taskIds (executing (s.runs.set i _))).toFinset
  rw [toFinset_perm hset, executing_cons_answering rfl]

theorem Runs.registered {i : Nat} {t : RunTask} (h : Runs s i t s')
    (hi : s.runs[i]? = some t) (hd : (taskIds s.runs).Nodup)
    (hs : s.Registered) : s'.Registered := by
  have hne : ∀ phase : RunPhase, t.phase = phase → phase ≠ .answering →
      t.phase ≠ .answering := fun phase h hp => h ▸ hp
  cases h with
  | waits _ => exact hs
  | finds bytes h _ =>
      exact hs.set hi (hne _ h (by simp)) (by simp) rfl rfl rfl
        (rfl : _ = s.runs.set i { t with phase := .cached bytes })
  | misses h =>
      exact hs.set hi (hne _ h (by simp)) (by simp) rfl rfl rfl
        (rfl : _ = s.runs.set i { t with phase := .fetching })
  | unobtained h => exact hs.finish hi (hne _ h (by simp)) hd
  | empty bytes h =>
      have hnote : (s.noteRetrieved t.request bytes).Registered :=
        ⟨hs.keys, hs.staged, hs.hand⟩
      exact hnote.finish hi (hne _ h (by simp)) hd
  | fetches bytes h =>
      exact hs.set hi (hne _ h (by simp)) (by simp) rfl rfl rfl
        (rfl : _ = s.runs.set i { t with phase := .fetched bytes })
  | caches bytes h =>
      have ht : t.phase ≠ .answering := by
        rcases h with h | h
        · exact hne _ h (by simp)
        · exact hne _ h (by simp)
      exact hs.set hi ht (by simp) rfl rfl rfl
        (rfl : _ = s.runs.set i { t with phase := .trimming bytes })
  | trims order bytes h =>
      exact hs.set hi (hne _ h (by simp)) (by simp) rfl rfl rfl
        (rfl : _ = s.runs.set i { t with phase := .executing bytes })
  | finishes bytes h => exact hs.finish hi (hne _ h (by simp)) hd
  | returns h =>
      obtain ⟨_, hold⟩ := set_perm hi t
      refine ⟨?_, hs.staged, hs.hand⟩
      show s.state.activeExecutions.keys
        = (taskIds (executing (s.runs.eraseIdx i))).toFinset
      rw [hs.keys, toFinset_perm hold, executing_cons_answering h]

-- ======== the spawns

/-- The tasks a step spawns. -/
def newTasks (r : Option ComputeRequest) : List RunTask :=
  r.toList.map fun r => ⟨r, .obtaining⟩

theorem Admits.runs (h : Admits cfg s r s') :
    s'.runs = s.runs ++ newTasks (spawned cfg s (.request r)) := by
  cases h with
  | refused hfull =>
      have hnone : spawned cfg s (.request r) = none := by
        cases henabled : cfg.enabled with
        | false => simp [spawned, henabled]
        | true =>
            cases hfree : cfg.pricing.isFree with
            | false => simp [spawned, hfree]
            | true =>
                obtain ⟨hfresh, hcap⟩ := hfull henabled hfree
                simp [spawned, hfresh, hcap]
      rw [hnone]
      exact (List.append_nil _).symm
  | repeated henabled hfree hknown =>
      have hsome : spawned cfg s (.request r) = some r := by
        simp [spawned, henabled, hfree, hknown]
      rw [hsome]
      rfl
  | activated henabled hfree hfresh hroom =>
      have hsome : spawned cfg s (.request r) = some r := by
        simp [spawned, henabled, hfree, hroom]
      rw [hsome]
      rfl
  | reserves hpaid _ _ _ =>
      have hnone : spawned cfg s (.request r) = none := by
        simp [spawned, hpaid]
      rw [hnone]
      exact (List.append_nil _).symm

theorem Addresses.runs {i : Nat} {address : Option String}
    (h : Addresses cfg s i address s') : s'.runs = s.runs := by
  cases h <;> rfl

theorem Ticks.runs (h : Ticks cfg s e s') (hr : ∀ r, e ≠ .request r) :
    s'.runs = s.runs ++ newTasks (spawned cfg s e) := by
  have hquiet : ∀ e', spawned cfg s e' = none →
      s.runs = s.runs ++ newTasks (spawned cfg s e') := by
    intro e' hnone
    rw [hnone]
    exact (List.append_nil _).symm
  cases h with
  | idle e hand =>
      apply hquiet
      cases e with
      | request r => exact absurd rfl (hr r)
      | place =>
          cases ht : s.tick with
          | holding staged rest => exact absurd ht (hand rfl staged rest)
          | _ => simp [spawned, ht]
      | _ => rfl
  | starts _ _ => exact hquiet _ rfl
  | expires _ _ _ _ => exact hquiet _ rfl
  | copies _ _ => exact hquiet _ rfl
  | ends _ _ => exact hquiet _ rfl
  | passes _ _ _ _ => exact hquiet _ rfl
  | waits _ _ _ _ _ _ => exact hquiet _ rfl
  | confirms _ _ _ _ _ _ => exact hquiet _ rfl
  | gone _ _ _ _ => exact hquiet _ rfl
  | takes _ _ _ _ _ => exact hquiet _ rfl
  | putsBack staged rest ht hfull =>
      apply hquiet
      simp [spawned, ht, hfull]
  | places staged rest ht hroom =>
      have hsome : spawned cfg s .place = some staged.request := by
        simp [spawned, ht, hroom]
      rw [hsome]
      rfl

theorem single_iff_vacant (hs : s.Registered) (hI : Single cfg s)
    (hruns : s'.runs = s.runs ++ newTasks (spawned cfg s e)) :
    Single cfg s' ↔ Vacant cfg s e := by
  cases hsp : spawned cfg s e with
  | none =>
      rw [hsp] at hruns
      have hsame : s'.runs = s.runs := by
        rw [hruns]
        exact List.append_nil _
      constructor
      · intro _ r hr
        rw [hsp] at hr
        cases hr
      · intro _
        exact ⟨hsame ▸ hI.ids, hsame ▸ hI.count⟩
  | some r =>
      rw [hsp] at hruns
      rw [single_spawn_iff hs hI hruns]
      constructor
      · intro h r' hr'
        rw [hsp] at hr'
        cases hr'
        exact h
      · intro h
        exact h r hsp

theorem vacant_of_none (h : spawned cfg s e = none) : Vacant cfg s e := by
  intro r hr
  rw [h] at hr
  cases hr

theorem step_single (s : Provider) (e : ComputeEvent) (hs : s.Registered)
    (hI : Single cfg s) : Single cfg (step cfg s e) ↔ Vacant cfg s e := by
  cases e with
  | request r =>
      exact single_iff_vacant hs hI (handleComputeRequest_admits cfg s r).runs
  | address i address =>
      have hruns := (addressed_addresses cfg s i address).runs
      refine ⟨fun _ => vacant_of_none rfl, fun _ => ?_⟩
      exact ⟨hruns ▸ hI.ids, hruns ▸ hI.count⟩
  | confirmation c =>
      exact ⟨fun _ => vacant_of_none rfl, fun _ => ⟨hI.ids, hI.count⟩⟩
  | tick order =>
      exact single_iff_vacant hs hI ((startTick_ticks cfg s order).runs
        fun r h => by cases h)
  | expire order =>
      exact single_iff_vacant hs hI ((expire_ticks cfg s order).runs
        fun r h => by cases h)
  | check answer =>
      exact single_iff_vacant hs hI ((check_ticks cfg s answer).runs
        fun r h => by cases h)
  | take =>
      exact single_iff_vacant hs hI ((take_ticks cfg s).runs
        fun r h => by cases h)
  | place =>
      exact single_iff_vacant hs hI ((place_ticks cfg s).runs
        fun r h => by cases h)
  | run i input order =>
      refine ⟨fun _ => vacant_of_none rfl, fun _ => ?_⟩
      cases h : s.runs[i]? with
      | none =>
          show Single cfg (s.runStep i input order)
          rw [runStep_none h]
          exact hI
      | some t => exact (runStep_runs h input order).single h hI
  | wait secs =>
      exact ⟨fun _ => vacant_of_none rfl, fun _ => ⟨hI.ids, hI.count⟩⟩

-- ==== the invariant, step by step

theorem toFinset_spawn (l : List RunTask) (r : ComputeRequest) :
    (taskIds (executing (l ++ [⟨r, .obtaining⟩]))).toFinset
      = Insert.insert r.requestId (taskIds (executing l)).toFinset := by
  rw [executing_append, taskIds_append, List.toFinset_append,
    Finset.union_comm]
  rfl

theorem Admits.registered (h : Admits cfg s r s') (hs : s.Registered) :
    s'.Registered := by
  cases h with
  | refused _ => exact hs
  | repeated _ _ hknown =>
      refine ⟨?_, hs.staged, hs.hand⟩
      show s.state.activeExecutions.keys
        = (taskIds (executing (s.runs ++ [⟨r, .obtaining⟩]))).toFinset
      rw [toFinset_spawn, ← hs.keys]
      exact (Finset.insert_eq_of_mem
        ((s.state.activeExecutions.mem_keys _).2 hknown)).symm
  | activated _ _ _ _ =>
      refine ⟨?_, hs.staged, hs.hand⟩
      show Insert.insert r.requestId s.state.activeExecutions.keys
        = (taskIds (executing (s.runs ++ [⟨r, .obtaining⟩]))).toFinset
      rw [toFinset_spawn, hs.keys]
  | reserves _ _ _ _ =>
      have hstaged : Keyed (s.state.paymentPending.insert
          (s.reserved r).requestId (s.reserved r)) :=
        hs.staged.insert rfl
      exact ⟨hs.keys, hstaged, hs.hand⟩

theorem Addresses.registered {i : Nat} {address : Option String}
    (h : Addresses cfg s i address s') (hs : s.Registered) :
    s'.Registered := by
  cases h with
  | absent _ _ => exact hs
  | unwatched _ _ _ => exact ⟨hs.keys, hs.staged, hs.hand⟩
  | failed r _ => exact ⟨hs.keys, hs.staged.erase r.requestId, hs.hand⟩
  | quotes r currency address _ _ =>
      have hstaged : Keyed (s.state.paymentPending.modify r.requestId
          (quoted cfg s r currency address)) :=
        hs.staged.modify r.requestId fun entry => ⟨rfl, rfl⟩
      exact ⟨hs.keys, hstaged, hs.hand⟩

theorem Ticks.registered (h : Ticks cfg s e s') (hs : s.Registered) :
    s'.Registered := by
  cases h with
  | idle _ _ => exact hs
  | starts _ _ => exact ⟨hs.keys, hs.staged, fun _ _ h => by cases h⟩
  | expires _ id ids _ =>
      exact ⟨hs.keys, hs.staged.erase id, fun _ _ h => by cases h⟩
  | copies _ _ => exact ⟨hs.keys, hs.staged, fun _ _ h => by cases h⟩
  | ends _ _ => exact ⟨hs.keys, hs.staged, fun _ _ h => by cases h⟩
  | passes _ _ _ _ => exact ⟨hs.keys, hs.staged, fun _ _ h => by cases h⟩
  | waits _ _ _ _ _ _ => exact ⟨hs.keys, hs.staged, fun _ _ h => by cases h⟩
  | confirms _ _ _ _ _ _ =>
      exact ⟨hs.keys, hs.staged, fun _ _ h => by cases h⟩
  | gone _ _ _ _ => exact ⟨hs.keys, hs.staged, fun _ _ h => by cases h⟩
  | takes entry staged rest _ hg =>
      refine ⟨hs.keys, hs.staged.erase entry.requestId, ?_⟩
      intro entry' rest' ht
      cases ht
      have hkeyed := hs.staged _ _ hg
      exact hkeyed.2.trans hkeyed.1.symm
  | putsBack staged rest ht _ =>
      exact ⟨hs.keys, hs.staged.insert (hs.hand staged rest ht),
        fun _ _ h => by cases h⟩
  | places staged rest ht _ =>
      refine ⟨?_, hs.staged, fun _ _ h => by cases h⟩
      show Insert.insert staged.requestId s.state.activeExecutions.keys
        = (taskIds (executing
            (s.runs ++ [⟨staged.request, .obtaining⟩]))).toFinset
      rw [toFinset_spawn, hs.keys, hs.hand staged rest ht]

theorem step_registered (s : Provider) (e : ComputeEvent)
    (hs : s.Registered) (hI : Single cfg s) :
    (step cfg s e).Registered := by
  cases e with
  | request r => exact (handleComputeRequest_admits cfg s r).registered hs
  | address i address =>
      exact (addressed_addresses cfg s i address).registered hs
  | confirmation c =>
      have hstaged : Keyed (s.state.paymentPending.modify c.requestId
          (claimed c)) := by
        refine hs.staged.modify c.requestId fun entry => ?_
        obtain ⟨hash, hclaimed⟩ := claimed_eq c entry
        rw [hclaimed]
        exact ⟨rfl, rfl⟩
      exact ⟨hs.keys, hstaged, hs.hand⟩
  | tick order => exact (startTick_ticks cfg s order).registered hs
  | expire order => exact (expire_ticks cfg s order).registered hs
  | check answer => exact (check_ticks cfg s answer).registered hs
  | take => exact (take_ticks cfg s).registered hs
  | place => exact (place_ticks cfg s).registered hs
  | run i input order =>
      cases h : s.runs[i]? with
      | none =>
          show (s.runStep i input order).Registered
          rw [runStep_none h]
          exact hs
      | some t => exact (runStep_runs h input order).registered h hI.ids hs
  | wait secs => exact ⟨hs.keys, hs.staged, hs.hand⟩

/-- At most one task runs for a request id, and no more than the capacity,
exactly in the runs in which every spawn is vacant. -/
theorem single_runs_iff (cfg : ComputeConfig) (es : List ComputeEvent) :
    Always (step cfg) (Single cfg) start es
      ↔ Along (step cfg) (Vacant cfg) start es :=
  always_iff_along_while (fun s e hs hI _ => step_registered s e hs hI)
    step_single registered_start ⟨List.nodup_nil, Nat.zero_le _⟩

/-- A request comes twice, and two tasks run for it. -/
theorem repeated_spawned_twice : ¬ ∀ (cfg : ComputeConfig)
    (es : List ComputeEvent), Always (step cfg) (Single cfg) start es := by
  intro h
  have hsingle := (h { freeSlot with capacity := 2 }
    [.request (numbered 1), .request (numbered 1)]).last
  exact absurd hsingle.ids (by decide +kernel)

end Provider

end StaticNet
