/-
What a provider owes to a request (`static-node/src/runner.rs`).

Every request the provider holds came in as one, whatever table or task it
is in by now (`Holds`). From the moment it is handled until it is answered
it is in one of them (`Works`): a section that lets go of it answers it
(`step_works`).
-/
import StaticNet.Compute.Once
import StaticNet.Compute.Payment
import StaticNet.Compute.Requester

namespace StaticNet

namespace Provider

variable {cfg : ComputeConfig} {s s' : Provider} {e : ComputeEvent}
  {Q : ComputeRequest → Prop} {x : Findings} {id : RequestId}

-- ====== the requests

/-- The requests a provider has, wherever they are, have a property; what
is staged is filed under its own request, and an active execution has its
task. -/
structure Holds (Q : ComputeRequest → Prop) (s : Provider) : Prop where
  quoting : ∀ r ∈ s.quoting, Q r
  keyed : Keyed s.state.paymentPending
  staged : ∀ k, ∀ entry ∈ s.state.paymentPending.get k, Q entry.request
  inHand : ∀ entry ∈ s.tick.inHand,
    entry.request.requestId = entry.requestId ∧ Q entry.request
  runs : ∀ t ∈ s.runs, Q t.request
  active : ∀ k ∈ s.state.activeExecutions.keys,
    k ∈ taskIds (executing s.runs)

theorem holds_start : Holds Q start := by
  refine ⟨nofun, ?_, ?_, nofun, nofun, nofun⟩
  · intro k entry h
    cases h
  · intro k entry h
    cases h

theorem Holds.mono {Q' : ComputeRequest → Prop} (h : Holds Q s)
    (hQ : ∀ r, Q r → Q' r) : Holds Q' s :=
  ⟨fun r hr => hQ r (h.quoting r hr), h.keyed,
    fun k entry he => hQ _ (h.staged k entry he),
    fun entry he => ⟨(h.inHand entry he).1, hQ _ (h.inHand entry he).2⟩,
    fun t ht => hQ _ (h.runs t ht), h.active⟩

/-- A request the provider is at: it runs, its payment is awaited, or it is
in the hand of the tick. -/
def Works (s : Provider) (id : RequestId) : Prop :=
  id ∈ taskIds (executing s.runs)
    ∨ s.state.paymentPending.contains id = true
    ∨ ∃ entry ∈ s.tick.inHand, entry.requestId = id

/-- A response to a request of this id is among the replies. -/
def Responds (id : RequestId) (replies : List (ComputeRequest × ComputeMsg)) :
    Prop :=
  ∃ r resp, (r, ComputeMsg.response resp) ∈ replies ∧ r.requestId = id

-- ======== the spawns

theorem mem_executing_append {l l' : List RunTask} :
    id ∈ taskIds (executing (l ++ l'))
      ↔ id ∈ taskIds (executing l) ∨ id ∈ taskIds (executing l') := by
  rw [executing_append, taskIds_append, List.mem_append]

theorem mem_executing_new {r : ComputeRequest} :
    id ∈ taskIds (executing [⟨r, .obtaining⟩]) ↔ r.requestId = id := by
  constructor
  · intro h
    obtain ⟨t, ht, rfl⟩ := List.mem_map.1 h
    rw [List.mem_singleton.1 (List.mem_filter.1 ht).1]
  · rintro rfl
    exact List.mem_map.2 ⟨⟨r, .obtaining⟩, List.mem_filter.2
      ⟨List.mem_singleton_self _, rfl⟩, rfl⟩

/-- One more task. -/
theorem Holds.spawn (h : Holds Q s) {r : ComputeRequest} (hr : Q r)
    (hruns : s'.runs = s.runs ++ [⟨r, .obtaining⟩])
    (hquoting : s'.quoting = s.quoting)
    (hpending : s'.state.paymentPending = s.state.paymentPending)
    (hhand : ∀ entry ∈ s'.tick.inHand, entry ∈ s.tick.inHand)
    (hactive : ∀ k ∈ s'.state.activeExecutions.keys,
      k = r.requestId ∨ k ∈ s.state.activeExecutions.keys) :
    Holds Q s' := by
  refine ⟨hquoting ▸ h.quoting, hpending ▸ h.keyed, hpending ▸ h.staged,
    fun entry he => h.inHand entry (hhand entry he), ?_, ?_⟩
  · intro t ht
    rw [hruns, List.mem_append, List.mem_singleton] at ht
    rcases ht with ht | rfl
    · exact h.runs t ht
    · exact hr
  · intro k hk
    rw [hruns, mem_executing_append, mem_executing_new]
    rcases hactive k hk with rfl | hk
    · exact .inr rfl
    · exact .inl (h.active k hk)

/-- The tables and tasks as they were, but for the staged entries and the
tick. -/
theorem Holds.staging (h : Holds Q s)
    (hruns : s'.runs = s.runs)
    (hactive : s'.state.activeExecutions = s.state.activeExecutions)
    (hquoting : ∀ r ∈ s'.quoting, Q r)
    (hkeyed : Keyed s'.state.paymentPending)
    (hstaged : ∀ k, ∀ entry ∈ s'.state.paymentPending.get k,
      Q entry.request)
    (hhand : ∀ entry ∈ s'.tick.inHand,
      entry.request.requestId = entry.requestId ∧ Q entry.request) :
    Holds Q s' :=
  ⟨hquoting, hkeyed, hstaged, hhand, hruns ▸ h.runs,
    hruns ▸ hactive ▸ h.active⟩

theorem Admits.holds {r : ComputeRequest} (h : Admits cfg s r s')
    (hs : Holds Q s) (hr : Q r) : Holds Q s' := by
  cases h with
  | refused _ => exact hs
  | repeated _ _ _ =>
      exact hs.spawn hr rfl rfl rfl (fun _ h => h) fun _ h => .inr h
  | activated _ _ _ _ =>
      refine hs.spawn hr rfl rfl rfl (fun _ h => h) fun k hk => ?_
      exact Finset.mem_insert.1 hk
  | reserves _ _ _ _ =>
      refine hs.staging rfl rfl ?_ (hs.keyed.insert rfl) ?_ hs.inHand
      · intro r' hr'
        rcases List.mem_append.1 hr' with hr' | hr'
        · exact hs.quoting r' hr'
        · rw [List.mem_singleton.1 hr']
          exact hr
      · intro k entry he
        rcases mem_get_insert he with rfl | he
        · exact hr
        · exact hs.staged k entry he

theorem Addresses.holds {i : Nat} {address : Option String}
    (h : Addresses cfg s i address s') (hs : Holds Q s) : Holds Q s' := by
  have hquoting : ∀ r ∈ s.quoting.eraseIdx i, Q r := fun r hr =>
    hs.quoting r (List.mem_of_mem_eraseIdx hr)
  cases h with
  | absent _ _ => exact hs
  | unwatched _ _ _ =>
      exact hs.staging rfl rfl hquoting hs.keyed hs.staged hs.inHand
  | failed r _ =>
      exact hs.staging rfl rfl hquoting (hs.keyed.erase _)
        (fun k entry he => hs.staged k entry (mem_get_erase he)) hs.inHand
  | quotes r currency address _ _ =>
      refine hs.staging rfl rfl hquoting
        (hs.keyed.modify _ fun _ => ⟨rfl, rfl⟩) ?_ hs.inHand
      intro k entry he
      rcases mem_get_modify he with he | ⟨rfl, old, hold, rfl⟩
      · exact hs.staged k entry he
      · exact hs.staged _ old hold

theorem Ticks.holds (h : Ticks cfg s e s') (hs : Holds Q s) :
    Holds Q s' := by
  have hnone : ∀ s' : Provider, s'.runs = s.runs →
      s'.quoting = s.quoting →
      s'.state.activeExecutions = s.state.activeExecutions →
      (∀ k, ∀ entry ∈ s'.state.paymentPending.get k,
        entry ∈ s.state.paymentPending.get k) →
      s'.tick.inHand = none → Holds Q s' := by
    intro s' hruns hquoting hactive hpending hhand
    refine hs.staging hruns hactive (hquoting ▸ hs.quoting)
      (fun k entry he => hs.keyed k entry (hpending k entry he))
      (fun k entry he => hs.staged k entry (hpending k entry he)) ?_
    rw [hhand]
    exact nofun
  cases h with
  | idle _ _ => exact hs
  | expires _ id ids _ =>
      exact hnone _ rfl rfl rfl (fun _ _ => mem_get_erase) rfl
  | takes entry staged rest _ hg =>
      refine hs.staging rfl rfl hs.quoting (hs.keyed.erase _)
        (fun k entry he => hs.staged k entry (mem_get_erase he)) ?_
      rintro _ ⟨⟩
      obtain ⟨hid, hreq⟩ := hs.keyed _ _ hg
      exact ⟨hreq.trans hid.symm, hs.staged _ _ hg⟩
  | putsBack staged rest htick _ =>
      obtain ⟨hid, hQ⟩ := hs.inHand staged (by rw [htick]; rfl)
      refine hs.staging rfl rfl hs.quoting (hs.keyed.insert hid) ?_ nofun
      intro k entry he
      rcases mem_get_insert he with rfl | he
      · exact hQ
      · exact hs.staged k entry he
  | places staged rest htick _ =>
      obtain ⟨hid, hQ⟩ := hs.inHand staged (by rw [htick]; rfl)
      refine hs.spawn hQ rfl rfl rfl nofun fun k hk => ?_
      rw [hid]
      exact Finset.mem_insert.1 hk
  | _ => exact hnone _ rfl rfl rfl (fun _ _ he => he) rfl

-- ========== the runs

section Tasks

variable {runs : List RunTask} {i : Nat} {t : RunTask}

theorem mem_executing_cons {l : List RunTask} (ht : t.phase ≠ .answering) :
    id ∈ taskIds (executing (t :: l))
      ↔ id = t.request.requestId ∨ id ∈ taskIds (executing l) := by
  rw [executing_cons ht]
  exact List.mem_cons

theorem mem_executing_perm {l l' : List RunTask} (h : l.Perm l') :
    id ∈ taskIds (executing l) ↔ id ∈ taskIds (executing l') :=
  (taskIds_perm (executing_perm h)).mem_iff

/-- A task that goes on is at the same request. -/
theorem mem_executing_set (hi : runs[i]? = some t)
    (ht : t.phase ≠ .answering) {phase : RunPhase}
    (hphase : phase ≠ .answering) :
    id ∈ taskIds (executing (runs.set i { t with phase := phase }))
      ↔ id ∈ taskIds (executing runs) := by
  obtain ⟨hset, hold⟩ := set_perm hi { t with phase := phase }
  rw [mem_executing_perm hset, mem_executing_perm hold,
    mem_executing_cons ht, mem_executing_cons hphase]

/-- A task that ends leaves the other requests. -/
theorem mem_executing_end (hi : runs[i]? = some t)
    (ht : t.phase ≠ .answering) (h : id ∈ taskIds (executing runs)) :
    id = t.request.requestId
      ∨ id ∈ taskIds (executing
          (runs.set i { t with phase := .answering })) := by
  obtain ⟨hset, hold⟩ := set_perm hi { t with phase := .answering }
  rw [mem_executing_perm hold, mem_executing_cons ht] at h
  rw [mem_executing_perm hset, executing_cons_answering rfl]
  exact h

/-- A task that has answered can return. -/
theorem mem_executing_return (hi : runs[i]? = some t)
    (ht : t.phase = .answering) :
    id ∈ taskIds (executing (runs.eraseIdx i))
      ↔ id ∈ taskIds (executing runs) := by
  rw [mem_executing_perm (set_perm hi t).2, executing_cons_answering ht]

theorem requests_set (h : ∀ t ∈ runs, Q t.request) (hi : runs[i]? = some t)
    (phase : RunPhase) :
    ∀ t' ∈ runs.set i { t with phase := phase }, Q t'.request := by
  intro t' ht'
  rcases List.mem_or_eq_of_mem_set ht' with ht' | rfl
  · exact h t' ht'
  · exact h t (List.mem_of_getElem? hi)

end Tasks

theorem Holds.goes {i : Nat} {t : RunTask} (h : Holds Q s)
    (hi : s.runs[i]? = some t) (ht : t.phase ≠ .answering)
    {phase : RunPhase} (hphase : phase ≠ .answering)
    (hruns : s'.runs = s.runs.set i { t with phase := phase })
    (hquoting : s'.quoting = s.quoting)
    (hpending : s'.state.paymentPending = s.state.paymentPending)
    (htick : s'.tick = s.tick)
    (hactive : s'.state.activeExecutions = s.state.activeExecutions) :
    Holds Q s' := by
  refine ⟨hquoting ▸ h.quoting, hpending ▸ h.keyed, hpending ▸ h.staged,
    htick ▸ h.inHand, ?_, ?_⟩
  · rw [hruns]
    exact requests_set h.runs hi phase
  · intro k hk
    rw [hruns, mem_executing_set hi ht hphase]
    exact h.active k (hactive ▸ hk)

theorem Holds.finish {i : Nat} {t : RunTask} (h : Holds Q s)
    (hi : s.runs[i]? = some t) (ht : t.phase ≠ .answering) :
    Holds Q (s.finish i t) := by
  refine ⟨h.quoting, h.keyed, h.staged, h.inHand, ?_, ?_⟩
  · exact requests_set h.runs hi .answering
  · intro k hk
    obtain ⟨hne, hk⟩ := Finset.mem_erase.1 hk
    exact (mem_executing_end hi ht (h.active k hk)).resolve_left hne

theorem Runs.holds {i : Nat} {t : RunTask} (h : Runs s i t s')
    (hi : s.runs[i]? = some t) (hs : Holds Q s) : Holds Q s' := by
  have hne : ∀ phase : RunPhase, t.phase = phase → phase ≠ .answering →
      t.phase ≠ .answering := fun phase h hp => h ▸ hp
  cases h with
  | waits _ => exact hs
  | finds bytes h _ =>
      exact hs.goes hi (hne _ h nofun)
        (nofun : RunPhase.cached bytes ≠ .answering) rfl rfl rfl rfl rfl
  | misses h =>
      exact hs.goes hi (hne _ h nofun)
        (nofun : RunPhase.fetching ≠ .answering) rfl rfl rfl rfl rfl
  | unobtained h => exact hs.finish hi (hne _ h nofun)
  | empty bytes h =>
      have hnote : Holds Q (s.noteRetrieved t.request bytes) :=
        ⟨hs.quoting, hs.keyed, hs.staged, hs.inHand, hs.runs, hs.active⟩
      exact hnote.finish hi (hne _ h nofun)
  | fetches bytes h =>
      exact hs.goes hi (hne _ h nofun)
        (nofun : RunPhase.fetched bytes ≠ .answering) rfl rfl rfl rfl rfl
  | caches bytes h =>
      refine hs.goes hi ?_ (nofun : RunPhase.trimming bytes ≠ .answering)
        rfl rfl rfl rfl rfl
      rcases h with h | h
      · exact hne _ h nofun
      · exact hne _ h nofun
  | trims order bytes h =>
      exact hs.goes hi (hne _ h nofun)
        (nofun : RunPhase.executing bytes ≠ .answering) rfl rfl rfl rfl rfl
  | finishes bytes h => exact hs.finish hi (hne _ h nofun)
  | returns h =>
      refine ⟨hs.quoting, hs.keyed, hs.staged, hs.inHand, ?_, ?_⟩
      · exact fun t' ht' => hs.runs t' (List.mem_of_mem_eraseIdx ht')
      · exact fun k hk => (mem_executing_return hi h).2 (hs.active k hk)

/-- What a provider has came in. -/
theorem step_holds (hs : Holds Q s)
    (hr : ∀ r, e = .request r → Q r) : Holds Q (step cfg s e) := by
  cases e with
  | request r =>
      exact (handleComputeRequest_admits cfg s r).holds hs (hr r rfl)
  | address i address => exact (addressed_addresses cfg s i address).holds hs
  | confirmation c =>
      refine hs.staging rfl rfl hs.quoting ?_ ?_ hs.inHand
      · refine hs.keyed.modify _ fun entry => ?_
        obtain ⟨hash, hclaimed⟩ := claimed_eq c entry
        show (claimed c entry).requestId = _ ∧ (claimed c entry).request = _
        rw [hclaimed]
        exact ⟨rfl, rfl⟩
      · intro k entry he
        rcases mem_get_modify he with he | ⟨rfl, old, hold, rfl⟩
        · exact hs.staged k entry he
        · obtain ⟨hash, hclaimed⟩ := claimed_eq c old
          show Q (claimed c old).request
          rw [hclaimed]
          exact hs.staged _ old hold
  | tick order => exact (startTick_ticks cfg s order).holds hs
  | expire order => exact (expire_ticks cfg s order).holds hs
  | check answer => exact (check_ticks cfg s answer).holds hs
  | take => exact (take_ticks cfg s).holds hs
  | place => exact (place_ticks cfg s).holds hs
  | run i input order =>
      cases h : s.runs[i]? with
      | none =>
          show Holds Q (s.runStep i input order)
          rw [runStep_none h]
          exact hs
      | some t => exact (runStep_runs h input order).holds h hs
  | wait secs =>
      exact ⟨hs.quoting, hs.keyed, hs.staged, hs.inHand, hs.runs, hs.active⟩

-- ======= the replies

/-- Why a request is refused, or comes to nothing before its execution. -/
inductive Refusal : ComputeError → Prop
  | capacityExceeded : Refusal .capacityExceeded
  | moduleNotFound : Refusal .moduleNotFound
  | payment (reason : String) : Refusal (.payment reason)

/-- What a section replies, and to which request. -/
inductive Replies (cfg : ComputeConfig) (s : Provider) (x : Findings)
    (e : ComputeEvent) (r : ComputeRequest) : ComputeMsg → Prop
  | refuses {error : ComputeError} (h : Refusal error) :
      Replies cfg s x e r (.response (failed r.requestId error false none))
  | expires (payment : PaymentRequest) :
      Replies cfg s x e r (.response (failed r.requestId
        (.payment "payment timeout") true (some payment)))
  | ends {i : Nat} {order : IterOrder ContentId} {bytes : List UInt8}
      (he : e = .run i .executed order)
      (hi : s.runs[i]? = some ⟨r, .executing bytes⟩) :
      Replies cfg s x e r (.response (outcomeResponse r.requestId x.outcome))
  | quotes {currency : Currency} {address : String}
      (h : (r, currency, address) ∈ (step cfg s e).log.generated) :
      Replies cfg s x e r (.quote (quote cfg r currency address))

theorem replies_refusal {r r' : ComputeRequest} {error : ComputeError}
    {msg : ComputeMsg} (hr : Q r) (herror : Refusal error)
    (h : (r', msg) ∈ refusal r error) :
    Q r' ∧ Replies cfg s x e r' msg := by
  obtain ⟨rfl, rfl⟩ := Prod.mk.inj (List.mem_singleton.1 h)
  exact ⟨hr, .refuses herror⟩

theorem requestReplies_spec {r r' : ComputeRequest} {msg : ComputeMsg}
    (hr : Q r) (h : (r', msg) ∈ requestReplies cfg s r) :
    Q r' ∧ Replies cfg s x e r' msg := by
  unfold requestReplies at h
  split at h
  · cases h
  split at h
  · split at h
    · cases h
    split at h
    · exact replies_refusal hr .capacityExceeded h
    · cases h
  split at h
  · exact replies_refusal hr (.payment _) h
  split at h
  · cases h
  split at h
  · exact replies_refusal hr .capacityExceeded h
  · cases h

theorem addressReplies_spec (hs : Holds Q s) {i : Nat}
    {address : Option String} {r : ComputeRequest} {msg : ComputeMsg}
    (h : (r, msg) ∈ addressReplies cfg s i address x) :
    Q r ∧ Replies cfg s x (.address i address) r msg := by
  unfold addressReplies at h
  cases hq : s.quoting[i]? with
  | none =>
      rw [hq] at h
      cases h
  | some r' =>
      have hr' := hs.quoting r' (List.mem_of_getElem? hq)
      rw [hq] at h
      dsimp only at h
      cases hw : watched cfg r' with
      | none =>
          rw [hw] at h
          cases h
      | some currency =>
          rw [hw] at h
          cases address with
          | none => exact replies_refusal hr' (.payment _) h
          | some address =>
              dsimp only at h
              split at h
              · obtain ⟨rfl, rfl⟩ := Prod.mk.inj (List.mem_singleton.1 h)
                refine ⟨hr', .quotes ?_⟩
                show _ ∈ (addressed cfg s i (some address)).log.generated
                unfold addressed
                rw [hq]
                simp only [hw]
                exact List.mem_append_right _ (List.mem_singleton_self _)
              · cases h

theorem expireReplies_spec (hs : Holds Q s) {r : ComputeRequest}
    {msg : ComputeMsg} (h : (r, msg) ∈ s.expireReplies) :
    Q r ∧ Replies cfg s x e r msg := by
  unfold expireReplies at h
  split at h
  next id ids _ =>
    cases hg : s.state.paymentPending.get id with
    | none =>
        rw [hg] at h
        cases h
    | some entry =>
        rw [hg] at h
        obtain ⟨rfl, rfl⟩ := Prod.mk.inj (List.mem_singleton.1 h)
        exact ⟨hs.staged _ _ hg, .expires entry.payment⟩
  next => cases h

theorem runReplies_spec (hs : Holds Q s) {i : Nat} {input : RunInput}
    {order : IterOrder ContentId} {r : ComputeRequest} {msg : ComputeMsg}
    (h : (r, msg) ∈ s.runReplies i input x) :
    Q r ∧ Replies cfg s x (.run i input order) r msg := by
  unfold runReplies at h
  cases hi : s.runs[i]? with
  | none =>
      rw [hi] at h
      cases h
  | some t =>
      obtain ⟨r', phase⟩ := t
      have hr' := hs.runs _ (List.mem_of_getElem? hi)
      rw [hi] at h
      dsimp only at h
      split at h
      · exact replies_refusal hr' .moduleNotFound h
      · split at h
        · exact replies_refusal hr' .moduleNotFound h
        · cases h
      · obtain ⟨rfl, rfl⟩ := Prod.mk.inj (List.mem_singleton.1 h)
        exact ⟨hr', .ends rfl hi⟩
      · cases h

/-- Whatever a provider replies is to a request it has, and one of these. -/
theorem replies_spec (hs : Holds Q s) (hr : ∀ r, e = .request r → Q r)
    {r : ComputeRequest} {msg : ComputeMsg}
    (h : (r, msg) ∈ replies cfg s x e) :
    Q r ∧ Replies cfg s x e r msg := by
  cases e with
  | request r' => exact requestReplies_spec (hr r' rfl) h
  | address i address => exact addressReplies_spec hs h
  | expire order => exact expireReplies_spec hs h
  | run i input order => exact runReplies_spec hs h
  | confirmation _ => cases h
  | tick _ => cases h
  | check _ => cases h
  | take => cases h
  | place => cases h
  | wait _ => cases h

theorem outcomeResponse_requestId (id : RequestId)
    (outcome : Except ComputeError (List UInt8 × UInt64 × UInt64)) :
    (outcomeResponse id outcome).requestId = id := by
  cases outcome with
  | error e => rfl
  | ok out => rfl

/-- A reply is about the request it goes to. -/
theorem Replies.about {r : ComputeRequest} {msg : ComputeMsg}
    (h : Replies cfg s x e r msg) : msg.about = r.requestId := by
  cases h with
  | refuses _ => rfl
  | expires _ => rfl
  | ends _ _ => exact outcomeResponse_requestId _ _
  | quotes _ => rfl

-- ========== the duty

/-- A request that is handled is worked on, or answered at once. -/
theorem request_works (henabled : cfg.enabled = true) (hs : Holds Q s)
    (r : ComputeRequest) :
    Works (step cfg s (.request r)) r.requestId
      ∨ Responds r.requestId (replies cfg s x (.request r)) := by
  have hrefused : ∀ error, Responds r.requestId (refusal r error) :=
    fun error => ⟨r, _, List.mem_singleton_self _, rfl⟩
  have hactive : s.state.activeExecutions.contains r.requestId = true →
      r.requestId ∈ taskIds (executing s.runs) := by
    intro h
    obtain ⟨entry, hget⟩ := (FMap.contains_eq_true _ _).1 h
    exact hs.active _ (FMap.mem_keys_of_get hget)
  have hspawned : ∀ s' : Provider, s'.runs = s.runs ++ [⟨r, .obtaining⟩] →
      Works s' r.requestId := by
    intro s' hruns
    refine .inl ?_
    rw [hruns, mem_executing_append, mem_executing_new]
    exact .inr rfl
  show Works (handleComputeRequest cfg s r) r.requestId
    ∨ Responds r.requestId (requestReplies cfg s r)
  unfold handleComputeRequest requestReplies
  rw [henabled]
  simp only [Bool.not_true, Bool.false_eq_true, if_false]
  by_cases hfree : cfg.pricing.isFree = true
  · rw [if_pos hfree, if_pos hfree]
    unfold acceptComputeRequest
    by_cases hk : s.state.activeExecutions.contains r.requestId = true
    · rw [if_pos hk, if_pos hk]
      exact .inl (hspawned _ rfl)
    · by_cases hfull : cfg.capacity ≤ s.state.activeExecutions.len
      · simp only [if_neg hk, if_pos hfull]
        exact .inr (hrefused _)
      · simp only [if_neg hk, if_neg hfull]
        exact .inl (hspawned _ rfl)
  · rw [if_neg hfree, if_neg hfree]
    cases hw : watched cfg r with
    | none => exact .inr (hrefused _)
    | some currency =>
        dsimp only
        unfold reservePaymentSlot
        by_cases hk : (s.state.activeExecutions.contains r.requestId
            || s.state.paymentPending.contains r.requestId) = true
        · rw [if_pos hk, if_pos hk]
          rw [Bool.or_eq_true] at hk
          rcases hk with hk | hk
          · exact .inl (.inl (hactive hk))
          · exact .inl (.inr (.inl hk))
        · by_cases hfull : cfg.capacity ≤ s.state.activeExecutions.len
              + s.state.paymentPending.len
          · rw [if_neg hk, if_neg hk, if_pos hfull, if_pos hfull]
            exact .inr (hrefused _)
          · rw [if_neg hk, if_neg hk, if_neg hfull, if_neg hfull]
            refine .inl (.inr (.inl ?_))
            exact (FMap.contains_eq_true _ _).2
              ⟨_, FMap.get_insert_self _ _ _⟩

/-- What still runs, is staged or in hand is worked on. -/
theorem Works.keep (h : Works s id)
    (hruns : id ∈ taskIds (executing s.runs) →
      Works s' id)
    (hpending : s.state.paymentPending.contains id = true → Works s' id)
    (hhand : ∀ entry ∈ s.tick.inHand, entry.requestId = id → Works s' id) :
    Works s' id := by
  rcases h with h | h | ⟨entry, he, hid⟩
  · exact hruns h
  · exact hpending h
  · exact hhand entry he hid

theorem contains_insert {m : FMap RequestId PendingPayment} {k : RequestId}
    {entry : PendingPayment} (h : k = id ∨ m.contains id = true) :
    (m.insert k entry).contains id = true := by
  unfold FMap.contains
  rw [FMap.get_insert]
  by_cases hk : id = k
  · rw [if_pos hk]
    rfl
  · rw [if_neg hk]
    exact h.resolve_left fun h => hk h.symm

theorem contains_erase {m : FMap RequestId PendingPayment} {k : RequestId}
    (hk : id ≠ k) (h : m.contains id = true) :
    (m.erase k).contains id = true := by
  unfold FMap.contains
  rw [FMap.get_erase_ne _ hk]
  exact h

theorem contains_modify {m : FMap RequestId PendingPayment} (k : RequestId)
    (f : PendingPayment → PendingPayment) (h : m.contains id = true) :
    (m.modify k f).contains id = true := by
  unfold FMap.contains
  rw [FMap.get_modify]
  by_cases hk : id = k
  · rw [if_pos hk, Option.isSome_map]
    exact h
  · rw [if_neg hk]
    exact h

theorem Admits.works {r : ComputeRequest} (h : Admits cfg s r s')
    (hw : Works s id) : Works s' id := by
  have hspawned : ∀ s' : Provider, s'.runs = s.runs ++ [⟨r, .obtaining⟩] →
      s'.state.paymentPending = s.state.paymentPending →
      s'.tick = s.tick → Works s' id := by
    intro s' hruns hpending htick
    refine hw.keep (fun h => .inl ?_) (fun h => .inr (.inl ?_))
      fun entry he hid => .inr (.inr ⟨entry, htick ▸ he, hid⟩)
    · rw [hruns, mem_executing_append]
      exact .inl h
    · rw [hpending]
      exact h
  cases h with
  | refused _ => exact hw
  | repeated _ _ _ => exact hspawned _ rfl rfl rfl
  | activated _ _ _ _ => exact hspawned _ rfl rfl rfl
  | reserves _ _ _ _ =>
      exact hw.keep .inl (fun h => .inr (.inl (contains_insert (.inr h))))
        fun entry he hid => .inr (.inr ⟨entry, he, hid⟩)

/-- A slot that goes with its quote is answered for. -/
theorem address_works {i : Nat} {address : Option String}
    (hw : Works s id) :
    Works (addressed cfg s i address) id
      ∨ Responds id (addressReplies cfg s i address x) := by
  unfold addressed addressReplies
  cases hq : s.quoting[i]? with
  | none => exact .inl hw
  | some r =>
      dsimp only
      cases hwatch : watched cfg r with
      | none => exact .inl hw
      | some currency =>
          cases address with
          | none =>
              by_cases hid : id = r.requestId
              · exact .inr ⟨r, _, List.mem_singleton_self _, hid.symm⟩
              · exact .inl (hw.keep .inl
                  (fun h => .inr (.inl (contains_erase hid h)))
                  fun entry he hid => .inr (.inr ⟨entry, he, hid⟩))
          | some address =>
              exact .inl (hw.keep .inl
                (fun h => .inr (.inl (contains_modify _ _ h)))
                fun entry he hid => .inr (.inr ⟨entry, he, hid⟩))

/-- A request that times out is answered. -/
theorem expire_works (hs : Holds Q s) {order : IterOrder RequestId}
    (hw : Works s id) :
    Works (s.expire order) id ∨ Responds id s.expireReplies := by
  unfold expire expireReplies
  cases ht : s.tick with
  | expiring ids =>
      have hhand : ∀ entry ∈ s.tick.inHand, entry.requestId = id → False := by
        rw [ht]
        exact nofun
      cases ids with
      | nil =>
          exact .inl (hw.keep .inl (fun h => .inr (.inl h))
            fun entry he hid => (hhand entry he hid).elim)
      | cons id' ids =>
          dsimp only
          by_cases hid : id = id'
          · subst hid
            rcases hw with h | h | ⟨entry, he, hid⟩
            · exact .inl (.inl h)
            · obtain ⟨entry, hget⟩ := (FMap.contains_eq_true _ _).1 h
              rw [hget]
              exact .inr ⟨entry.request, _, List.mem_singleton_self _,
                (hs.keyed _ _ hget).2⟩
            · exact (hhand entry he hid).elim
          · exact .inl (hw.keep .inl
              (fun h => .inr (.inl (contains_erase hid h)))
              fun entry he hid => (hhand entry he hid).elim)
  | idle => exact .inl hw
  | checking _ => exact .inl hw
  | paid _ _ => exact .inl hw
  | holding _ _ => exact .inl hw

/-- The rest of the tick passes a request on from hand to hand. -/
theorem Ticks.works (h : Ticks cfg s e s') (hs : Holds Q s)
    (he : ∀ order, e ≠ .expire order) (hw : Works s id) : Works s' id := by
  have hnone : ∀ s' : Provider, s'.runs = s.runs →
      s'.state.paymentPending = s.state.paymentPending →
      s.tick.inHand = none → Works s' id := by
    intro s' hruns hpending hhand
    refine hw.keep (fun h => .inl (hruns ▸ h))
      (fun h => .inr (.inl (hpending ▸ h))) fun entry he => ?_
    rw [hhand] at he
    cases he
  cases h with
  | idle _ _ => exact hw
  | starts _ ht => exact hnone _ rfl rfl (by rw [ht]; rfl)
  | expires order _ _ _ => exact absurd rfl (he order)
  | copies order _ => exact absurd rfl (he order)
  | ends _ ht => exact hnone _ rfl rfl (by rw [ht]; rfl)
  | passes _ _ _ ht => exact hnone _ rfl rfl (by rw [ht]; rfl)
  | waits _ _ _ ht _ _ => exact hnone _ rfl rfl (by rw [ht]; rfl)
  | confirms _ _ _ ht _ _ => exact hnone _ rfl rfl (by rw [ht]; rfl)
  | gone _ _ ht _ => exact hnone _ rfl rfl (by rw [ht]; rfl)
  | takes entry staged rest ht hg =>
      refine hw.keep .inl (fun h => ?_) fun entry he => ?_
      · by_cases hid : id = entry.requestId
        · exact .inr (.inr ⟨staged, rfl, (hs.keyed _ _ hg).1.trans hid.symm⟩)
        · exact .inr (.inl (contains_erase hid h))
      · rw [ht] at he
        cases he
  | putsBack staged rest ht _ =>
      refine hw.keep .inl
        (fun h => .inr (.inl (contains_insert (.inr h))))
        fun entry he hid => .inr (.inl (contains_insert (.inl ?_)))
      rw [ht] at he
      cases he
      exact hid
  | places staged rest ht _ =>
      have hmem : id ∈ taskIds (executing s.runs)
          ∨ staged.request.requestId = id →
          Works { s.startStaged staged with tick := .checking rest } id := by
        intro h
        refine .inl ?_
        show id ∈ taskIds (executing (s.runs ++ [⟨staged.request, .obtaining⟩]))
        rw [mem_executing_append, mem_executing_new]
        exact h
      refine hw.keep (fun h => hmem (.inl h)) (fun h => .inr (.inl h))
        fun entry he hid => hmem (.inr ?_)
      have hkept := (hs.inHand entry he).1
      rw [ht] at he
      cases he
      exact hkept.trans hid

/-- A run goes on, or answers. -/
theorem run_works {i : Nat} {input : RunInput} {order : IterOrder ContentId}
    (hw : Works s id) :
    Works (s.runStep i input order) id
      ∨ Responds id (s.runReplies i input x) := by
  have hother : ∀ s' : Provider,
      s'.state.paymentPending = s.state.paymentPending →
      s'.tick = s.tick →
      (id ∈ taskIds (executing s.runs) →
        id ∈ taskIds (executing s'.runs)) → Works s' id := by
    intro s' hpending htick hruns
    exact hw.keep (fun h => .inl (hruns h))
      (fun h => .inr (.inl (hpending ▸ h)))
      fun entry he hid => .inr (.inr ⟨entry, htick ▸ he, hid⟩)
  cases hi : s.runs[i]? with
  | none =>
      rw [runStep_none hi]
      exact .inl hw
  | some t =>
      -- a task that ends answers its request
      have hends : ∀ (replies : List (ComputeRequest × ComputeMsg))
          (s' : Provider), t.phase ≠ .answering →
          s'.state.paymentPending = s.state.paymentPending →
          s'.tick = s.tick →
          s'.runs = s.runs.set i { t with phase := .answering } →
          (∃ resp, (t.request, .response resp) ∈ replies) →
          Works s' id ∨ Responds id replies := by
        rintro replies s' ht hpending htick hruns ⟨resp, hresp⟩
        by_cases hid : id = t.request.requestId
        · exact .inr ⟨t.request, resp, hresp, hid.symm⟩
        · refine .inl (hother s' hpending htick fun h => ?_)
          rw [hruns]
          exact (mem_executing_end hi ht h).resolve_left hid
      have hgoes : ∀ (s' : Provider) (phase : RunPhase),
          t.phase ≠ .answering → phase ≠ .answering →
          s'.state.paymentPending = s.state.paymentPending →
          s'.tick = s.tick →
          s'.runs = s.runs.set i { t with phase := phase } →
          Works s' id := by
        intro s' phase ht hphase hpending htick hruns
        refine hother s' hpending htick fun h => ?_
        rw [hruns, mem_executing_set hi ht hphase]
        exact h
      obtain ⟨r, phase⟩ := t
      unfold runStep runReplies
      rw [hi]
      cases phase with
      | obtaining =>
          refine .inl ?_
          dsimp only
          split
          next bytes _ =>
            exact hgoes _ (.cached bytes) nofun nofun rfl rfl rfl
          next => exact hgoes _ .fetching nofun nofun rfl rfl rfl
      | fetching =>
          cases input with
          | next => exact .inl hw
          | executed => exact .inl hw
          | retrieved bytes =>
              cases bytes with
              | none =>
                  exact hends _ _ nofun rfl rfl rfl
                    ⟨_, List.mem_singleton_self _⟩
              | some bytes =>
                  dsimp only
                  by_cases hb : bytes.isEmpty = true
                  · rw [if_pos hb, if_pos hb]
                    exact hends _ _ nofun rfl rfl rfl
                      ⟨_, List.mem_singleton_self _⟩
                  · rw [if_neg hb]
                    exact .inl
                      (hgoes _ (.fetched bytes) nofun nofun rfl rfl rfl)
      | cached bytes =>
          exact .inl (hgoes _ (.trimming bytes) nofun nofun rfl rfl rfl)
      | fetched bytes =>
          exact .inl (hgoes _ (.trimming bytes) nofun nofun rfl rfl rfl)
      | trimming bytes =>
          exact .inl (hgoes _ (.executing bytes) nofun nofun rfl rfl rfl)
      | executing bytes =>
          cases input with
          | next => exact .inl hw
          | executed =>
              exact hends _ _ nofun rfl rfl rfl ⟨_, List.mem_singleton_self _⟩
          | retrieved _ => exact .inl hw
      | answering =>
          refine .inl (hother _ rfl rfl fun h => ?_)
          exact (mem_executing_return hi rfl).2 h

/-- A section that lets go of a request answers it. -/
theorem step_works (hs : Holds Q s) (hw : Works s id) :
    Works (step cfg s e) id ∨ Responds id (replies cfg s x e) := by
  cases e with
  | request r => exact .inl ((handleComputeRequest_admits cfg s r).works hw)
  | address i address => exact address_works hw
  | confirmation c =>
      exact .inl (hw.keep .inl
        (fun h => .inr (.inl (contains_modify _ _ h)))
        fun entry he hid => .inr (.inr ⟨entry, he, hid⟩))
  | tick order =>
      exact .inl ((startTick_ticks cfg s order).works hs nofun hw)
  | expire order => exact expire_works hs hw
  | check answer => exact .inl ((check_ticks cfg s answer).works hs nofun hw)
  | take => exact .inl ((take_ticks cfg s).works hs nofun hw)
  | place => exact .inl ((place_ticks cfg s).works hs nofun hw)
  | run i input order => exact run_works hw
  | wait secs => exact .inl hw

end Provider

end StaticNet
