/-
When a backup takes over, and what undoes it.

# What a tick does

`visit_silent`: an entry turns active only when its primary is known and
nothing was heard of it within the timeout. An active entry stays active,
and `extendLeases` lowers no lease. Neither depends on what came before.

# Where it breaks

`register_backup_content` inserts a fresh entry over whatever is there. An
active entry becomes dormant that way, while the flag stays raised: the
node goes on serving for an entry that is not active. `failover_iff` says
that this is the only way, in any run from the dormant node.
-/
import StaticNet.Lib.Exact
import StaticNet.Node.Backup

namespace StaticNet

open Exact BackupNode

variable {cfg : BackupConfig} {env : SweepEnv} {c : ContentId}
  {entry : BackupContentState} {m : FMap ContentId BackupContentState}
  {s : BackupNode}

-- ============ a turn

theorem visit_active (h : entry.isActive = true) :
    (visit cfg env entry).entry.isActive = true := by
  have hkeep : (entry.refresh (resolvePrimary cfg env)
      env.activity).isActive = true := h
  unfold visit visitRefreshed
  rw [if_pos hkeep]
  exact hkeep

/-- A turn activates an entry exactly when it finds it dormant and leaves
it active. -/
theorem visit_activated_iff :
    (visit cfg env entry).activated = true
      ↔ entry.isActive = false
        ∧ (visit cfg env entry).entry.isActive = true := by
  unfold visit visitRefreshed
  have hkeep : (entry.refresh (resolvePrimary cfg env) env.activity).isActive
      = entry.isActive := rfl
  cases ha : entry.isActive with
  | true => simp [hkeep, ha]
  | false =>
      rw [if_neg (by simp [hkeep, ha])]
      split
      · simp [hkeep, ha]
      · split <;> simp [hkeep, ha]

/-- No activity of the primary is later than the refreshed heartbeat. -/
theorem le_heartbeatOf {activity : FMap NodeId Nat} {primary : NodeId}
    {t last : Nat} (h : activity.get primary = some t) :
    t ≤ heartbeatOf activity primary last := by
  unfold heartbeatOf
  simp only [h]
  split <;> omega

/-- What turns active has a known primary that was silent too long. -/
theorem visit_silent (hdormant : entry.isActive = false)
    (hactive : (visit cfg env entry).entry.isActive = true) :
    ∃ primary, (visit cfg env entry).entry.primaryNodeId = some primary
      ∧ ∀ t, env.activity.get primary = some t →
          cfg.heartbeatTimeoutSecs < env.now - t := by
  unfold visit visitRefreshed at hactive ⊢
  generalize hr : entry.refresh (resolvePrimary cfg env) env.activity = r
    at hactive ⊢
  have hoff : ¬ r.isActive = true := by
    rw [← hr]
    simp [BackupContentState.refresh, hdormant]
  rw [if_neg hoff] at hactive ⊢
  by_cases hnone : r.primaryNodeId.isNone = true
  · rw [if_pos hnone] at hactive
    exact absurd hactive hoff
  · rw [if_neg hnone] at hactive ⊢
    by_cases hh : env.now - r.lastHeartbeat ≤ cfg.heartbeatTimeoutSecs
    · rw [if_pos hh] at hactive
      exact absurd hactive hoff
    · rw [if_neg hh]
      obtain ⟨primary, hp⟩ : ∃ primary, r.primaryNodeId = some primary := by
        cases hp : r.primaryNodeId with
        | none => simp [hp] at hnone
        | some primary => exact ⟨primary, rfl⟩
      refine ⟨primary, hp, fun t ht => ?_⟩
      have hlast : r.lastHeartbeat
          = heartbeatOf env.activity primary entry.lastHeartbeat := by
        rw [← hr] at hp ⊢
        unfold BackupContentState.refresh at hp ⊢
        simp only at hp ⊢
        rw [hp]
      have hle : t ≤ r.lastHeartbeat := by
        rw [hlast]
        exact le_heartbeatOf ht
      omega

-- =========== a sweep

/-- The registration of held chunks leaves the entries that were there and
adds dormant ones. -/
theorem get_autoRegister (now : Nat) (held : List ChunkId) :
    (∀ e, m.get c = some e →
        (held.foldl (autoRegister now) m).get c = some e)
      ∧ ∀ e, (held.foldl (autoRegister now) m).get c = some e →
          m.get c = some e ∨ m.get c = none ∧ e.isActive = false := by
  induction held generalizing m with
  | nil => exact ⟨fun e h => h, fun e h => .inl h⟩
  | cons k held ih =>
      have hone : (∀ e, m.get c = some e →
          (autoRegister now m k).get c = some e)
          ∧ ∀ e, (autoRegister now m k).get c = some e →
            m.get c = some e ∨ m.get c = none ∧ e.isActive = false := by
        unfold autoRegister
        by_cases hk : m.contains k = true
        · rw [if_pos hk]
          exact ⟨fun e h => h, fun e h => .inl h⟩
        · rw [if_neg hk]
          by_cases hc : c = k
          · subst hc
            have hnone : m.get c = none := by
              simpa [FMap.contains] using hk
            constructor
            · intro e h
              rw [hnone] at h
              cases h
            · intro e h
              rw [FMap.get_insert_self] at h
              cases h
              exact .inr ⟨hnone, rfl⟩
          · rw [FMap.get_insert_ne _ _ hc]
            exact ⟨fun e h => h, fun e h => .inl h⟩
      have hrest := @ih (autoRegister now m k)
      refine ⟨fun e h => hrest.1 e (hone.1 e h), fun e h => ?_⟩
      rcases hrest.2 e h with hmid | ⟨hmid, hoff⟩
      · exact hone.2 e hmid
      · refine .inr ⟨?_, hoff⟩
        cases hg : m.get c with
        | none => rfl
        | some e' =>
            rw [hone.1 e' hg] at hmid
            cases hmid

theorem visitEach_absent {l : List ContentId} (h : m.get c = none) :
    visitEach cfg env (c :: l) m = visitEach cfg env l m := by
  simp only [visitEach, h]

theorem visitEach_present {l : List ContentId} (h : m.get c = some entry) :
    (visitEach cfg env (c :: l) m).content
      = (visitEach cfg env l
          (m.insert c (visit cfg env entry).entry)).content := by
  simp only [visitEach, h]

/-- Every entry on the list is visited once, the others are left. -/
theorem get_visitEach {l : List ContentId} (hl : l.Nodup) :
    (visitEach cfg env l m).content.get c
      = if c ∈ l then (m.get c).map fun e => (visit cfg env e).entry
        else m.get c := by
  induction l generalizing m with
  | nil => rfl
  | cons k l ih =>
      obtain ⟨hk, hl'⟩ := List.nodup_cons.1 hl
      cases hm : m.get k with
      | none =>
          rw [visitEach_absent hm, ih hl']
          by_cases hc : c = k
          · subst hc
            simp [hk, hm]
          · simp [hc]
      | some e =>
          rw [visitEach_present hm, ih hl']
          by_cases hc : c = k
          · subst hc
            simp [hk, hm]
          · simp [hc, FMap.get_insert_ne]

/-- The sweep reports an activation exactly when a turn made one. -/
theorem newlyActivated_iff {l : List ContentId} (hl : l.Nodup) :
    (visitEach cfg env l m).newlyActivated ≠ []
      ↔ ∃ k ∈ l, ∃ e, m.get k = some e
          ∧ (visit cfg env e).activated = true := by
  induction l generalizing m with
  | nil => simp [visitEach]
  | cons k l ih =>
      obtain ⟨hk, hl'⟩ := List.nodup_cons.1 hl
      have hlater : ∀ e, (∃ k' ∈ l, ∃ e', (m.insert k e).get k' = some e'
            ∧ (visit cfg env e').activated = true)
          ↔ ∃ k' ∈ l, ∃ e', m.get k' = some e'
            ∧ (visit cfg env e').activated = true := by
        intro e
        refine exists_congr fun k' => and_congr_right fun hk' => ?_
        have hne : k' ≠ k := fun h => hk (h ▸ hk')
        rw [FMap.get_insert_ne _ _ hne]
      unfold visitEach
      cases hm : m.get k with
      | none => simp [ih hl', hm]
      | some e =>
          cases hv : (visit cfg env e).activated with
          | true => simp [hm, hv]
          | false =>
              have hskip := (ih hl').trans (hlater (visit cfg env e).entry)
              simpa [hm, hv] using hskip

/-- What a sweep makes of one content: an entry that was there has its
turn, and one that was not starts dormant before its own. -/
theorem get_sweepContent {e' : BackupContentState}
    (h : (sweepContent cfg env m).content.get c = some e') :
    ∃ e, e' = (visit cfg env e).entry
      ∧ (m.get c = some e ∨ m.get c = none ∧ e.isActive = false) := by
  unfold sweepContent at h
  rw [get_visitEach (env.order.nodup _)] at h
  set reg := (env.order.iter env.holder.chunks.keys).foldl
    (autoRegister env.now) m
  have hsome : ∃ e, reg.get c = some e ∧ e' = (visit cfg env e).entry := by
    by_cases hc : c ∈ env.order.iter reg.keys
    · rw [if_pos hc] at h
      obtain ⟨e, he, hv⟩ := Option.map_eq_some_iff.1 h
      exact ⟨e, he, hv.symm⟩
    · rw [if_neg hc] at h
      exact absurd ((env.order.mem_iter _ _).2 (FMap.mem_keys_of_get h)) hc
  obtain ⟨e, he, hv⟩ := hsome
  exact ⟨e, hv, (get_autoRegister _ _).2 e he⟩

/-- An entry that was there is visited. -/
theorem get_sweepContent_of {e : BackupContentState}
    (h : m.get c = some e) :
    (sweepContent cfg env m).content.get c
      = some (visit cfg env e).entry := by
  have hreg := (get_autoRegister env.now
    (env.order.iter env.holder.chunks.keys)).1 e h
  unfold sweepContent
  rw [get_visitEach (env.order.nodup _), if_pos, hreg, Option.map_some]
  exact (env.order.mem_iter _ _).2 (FMap.mem_keys_of_get hreg)

/-- A content that a sweep turns active is reported, and one it reports is
active afterwards. -/
theorem sweep_reports_iff :
    (sweepContent cfg env m).newlyActivated ≠ []
      ↔ ∃ k e, (sweepContent cfg env m).content.get k = some e
          ∧ e.isActive = true
          ∧ ∀ e₀, m.get k = some e₀ → e₀.isActive = false := by
  have hnodup := env.order.nodup
  constructor
  · intro h
    unfold sweepContent at h ⊢
    obtain ⟨k, hk, e, he, hv⟩ := (newlyActivated_iff (hnodup _)).1 h
    obtain ⟨hoff, hon⟩ := visit_activated_iff.1 hv
    refine ⟨k, (visit cfg env e).entry, ?_, hon, fun e₀ h₀ => ?_⟩
    · rw [get_visitEach (hnodup _), if_pos hk, he, Option.map_some]
    · have heq := (get_autoRegister env.now
        (env.order.iter env.holder.chunks.keys)).1 e₀ h₀
      rw [he] at heq
      cases heq
      exact hoff
  · rintro ⟨k, e, hk, hon, hwas⟩
    unfold sweepContent at hk ⊢
    refine (newlyActivated_iff (hnodup _)).2 ?_
    set reg := (env.order.iter env.holder.chunks.keys).foldl
      (autoRegister env.now) m with hreg
    rw [get_visitEach (hnodup _)] at hk
    by_cases hmem : k ∈ env.order.iter reg.keys
    · rw [if_pos hmem] at hk
      obtain ⟨e₁, he₁, hv⟩ := Option.map_eq_some_iff.1 hk
      have hoff : e₁.isActive = false := by
        rcases (get_autoRegister _ _).2 e₁ he₁ with hold | ⟨_, hoff⟩
        · exact hwas e₁ hold
        · exact hoff
      refine ⟨k, hmem, e₁, he₁, visit_activated_iff.2 ⟨hoff, ?_⟩⟩
      rw [hv]
      exact hon
    · rw [if_neg hmem] at hk
      exact absurd ((env.order.mem_iter _ _).2 (FMap.mem_keys_of_get hk))
        hmem

-- ======== the leases

/-- An extension takes no time from a lease. -/
theorem get_extendLeases {newExpiry : Nat} {ids : List ChunkId}
    {mgr : LeaseManager} {chunkId : ChunkId} {lease : ChunkLease}
    (h : mgr.leases.get chunkId = some lease) :
    ∃ lease', (extendLeases newExpiry ids mgr).leases.get chunkId
        = some lease'
      ∧ lease.expiresAt ≤ lease'.expiresAt := by
  unfold extendLeases
  show ∃ lease', (ids.foldl _ mgr.leases).get chunkId = some lease' ∧ _
  generalize mgr.leases = leases at h
  induction ids generalizing leases lease with
  | nil => exact ⟨lease, h, le_rfl⟩
  | cons id ids ih =>
      by_cases hid : chunkId = id
      · subst hid
        have hone : (leases.modify chunkId
            (ChunkLease.extendTo newExpiry)).get chunkId
              = some (lease.extendTo newExpiry) := by
          rw [FMap.get_modify_self, h, Option.map_some]
        have hle : lease.expiresAt
            ≤ (lease.extendTo newExpiry).expiresAt := by
          unfold ChunkLease.extendTo
          split
          · exact Nat.le_of_lt ‹_›
          · exact le_rfl
        obtain ⟨lease', hget, hle'⟩ := ih _ hone
        exact ⟨lease', hget, hle.trans hle'⟩
      · refine ih _ ?_
        rw [FMap.get_modify_ne _ _ hid]
        exact h

-- ===== what is meant

namespace BackupNode

/-- What a failover promises of each step: activation on silence of a known
primary only, none undone, and no lease shortened by a tick. -/
structure StepOk (cfg : BackupConfig) (s : BackupNode) (e : BackupEvent) :
    Prop where
  activates : ∀ c entry,
    (step cfg s e).backup.backedUpContent.get c = some entry →
      entry.isActive = true → ¬ s.Active c →
      ∃ env, e = .sweep env
        ∧ ∃ primary, entry.primaryNodeId = some primary
          ∧ ∀ t, env.activity.get primary = some t →
              cfg.heartbeatTimeoutSecs < env.now - t
  stays : ∀ c, s.Active c → (step cfg s e).Active c
  leases : (∀ mgr, e ≠ .leases mgr) → ∀ chunkId lease,
    s.leases.leases.get chunkId = some lease →
      ∃ lease', (step cfg s e).leases.leases.get chunkId = some lease'
        ∧ lease.expiresAt ≤ lease'.expiresAt

/-- The node serves exactly when an entry is active, but between a sweep
that activated one and the flag it is about to raise. -/
def ServeExact (s : BackupNode) : Prop :=
  ¬ s.Raising → (s.serveEnabled = true ↔ ∃ c, s.Active c)

/-- The registration is not of a content whose entry is active. -/
def LeavesActive (s : BackupNode) : BackupEvent → Prop
  | .register contentId _ _ _ => ¬ s.Active contentId
  | _ => True

/-- What the flag knows, a raising one included. -/
def ServeInv (s : BackupNode) : Prop :=
  (∃ c, s.Active c) ↔ s.serveEnabled = true ∨ s.Raising

end BackupNode

-- ========== one step

theorem backup_serve : (step cfg s .serve).backup = s.backup := by
  unfold step
  cases s.tick <;> rfl

theorem backup_extend : (step cfg s .extend).backup = s.backup := by
  unfold step
  cases s.tick with
  | none => rfl
  | some t => cases h : t.activatedAny <;> simp [h]

theorem active_congr {s' : BackupNode} (h : s'.backup = s.backup) :
    s'.Active c ↔ s.Active c := by
  unfold Active
  rw [h]

theorem sweep_idle (env : SweepEnv) (h : s.tick = none) :
    (step cfg s (.sweep env)).backup.backedUpContent
        = (sweepContent cfg env s.backup.backedUpContent).content
      ∧ (step cfg s (.sweep env)).serveEnabled = s.serveEnabled
      ∧ ((step cfg s (.sweep env)).Raising
          ↔ (sweepContent cfg env
              s.backup.backedUpContent).newlyActivated ≠ []) := by
  unfold Raising
  simp [step, h]

theorem sweep_busy {t : BackupTick} (h : s.tick = some t) :
    step cfg s (.sweep env) = s := by
  simp only [step, h]

theorem active_sweep (h : s.Active c) :
    (step cfg s (.sweep env)).Active c := by
  cases ht : s.tick with
  | some t =>
      rw [sweep_busy ht]
      exact h
  | none =>
      obtain ⟨entry, hget, hon⟩ := h
      refine ⟨(visit cfg env entry).entry, ?_, visit_active hon⟩
      rw [(sweep_idle _ ht).1]
      exact get_sweepContent_of hget

/-- What a sweep activates had a silent primary. -/
theorem sweep_activates
    (h : (step cfg s (.sweep env)).backup.backedUpContent.get c
      = some entry) (hon : entry.isActive = true) (hwas : ¬ s.Active c) :
    ∃ primary, entry.primaryNodeId = some primary
      ∧ ∀ t, env.activity.get primary = some t →
          cfg.heartbeatTimeoutSecs < env.now - t := by
  cases ht : s.tick with
  | some t =>
      rw [sweep_busy ht] at h
      exact absurd ⟨entry, h, hon⟩ hwas
  | none =>
      rw [(sweep_idle _ ht).1] at h
      obtain ⟨e, rfl, hbefore⟩ := get_sweepContent h
      have hoff : e.isActive = false := by
        rcases hbefore with hget | ⟨_, hoff⟩
        · cases he : e.isActive with
          | false => rfl
          | true => exact absurd ⟨e, hget, he⟩ hwas
        · exact hoff
      exact visit_silent hoff hon

theorem active_register {p : NodeId} {ids : List ChunkId} {now : Nat}
    {k : ContentId} :
    (step cfg s (.register k p ids now)).Active c
      ↔ c ≠ k ∧ s.Active c := by
  show (∃ entry, (s.backup.backedUpContent.insert k _).get c = some entry
    ∧ entry.isActive = true) ↔ _
  by_cases hc : c = k
  · subst hc
    simp [FMap.get_insert_self]
  · simp only [FMap.get_insert_ne _ _ hc]
    exact ⟨fun h => ⟨hc, h⟩, fun h => h.2⟩

/-- No section of a tick shortens a lease, and no registration does. -/
theorem leases_step {e : BackupEvent} {chunkId : ChunkId}
    {lease : ChunkLease} (he : ∀ mgr, e ≠ .leases mgr)
    (h : s.leases.leases.get chunkId = some lease) :
    ∃ lease', (step cfg s e).leases.leases.get chunkId = some lease'
      ∧ lease.expiresAt ≤ lease'.expiresAt := by
  have hsame : (step cfg s e).leases = s.leases →
      ∃ lease', (step cfg s e).leases.leases.get chunkId = some lease'
        ∧ lease.expiresAt ≤ lease'.expiresAt := by
    intro heq
    rw [heq]
    exact ⟨lease, h, le_rfl⟩
  cases e with
  | leases mgr => exact absurd rfl (he mgr)
  | register k p ids now => exact hsame rfl
  | sweep env =>
      apply hsame
      cases ht : s.tick <;> simp only [step, ht]
  | serve =>
      apply hsame
      cases ht : s.tick <;> simp only [step, ht]
  | extend =>
      cases ht : s.tick with
      | none =>
          apply hsame
          simp only [step, ht]
      | some t =>
          cases hon : t.activatedAny with
          | true =>
              apply hsame
              simp only [step, ht, hon, if_true]
          | false =>
              simp only [step, ht, hon]
              exact get_extendLeases h

/-- A step keeps the promise exactly when it registers no content over an
active entry. -/
theorem stepOk_iff {e : BackupEvent} :
    StepOk cfg s e ↔ s.LeavesActive e := by
  constructor
  · intro h
    cases e with
    | register k p ids now =>
        intro hactive
        exact (active_register.1 (h.stays k hactive)).1 rfl
    | sweep env => trivial
    | serve => trivial
    | extend => trivial
    | leases mgr => trivial
  · intro h
    refine ⟨?_, ?_, fun he _ _ => leases_step he⟩
    · intro c entry hget hon hwas
      cases e with
      | sweep env => exact ⟨env, rfl, sweep_activates hget hon hwas⟩
      | register k p ids now =>
          exact absurd (active_register.1 ⟨entry, hget, hon⟩).2 hwas
      | serve =>
          exact absurd ((active_congr backup_serve).1 ⟨entry, hget, hon⟩)
            hwas
      | extend =>
          exact absurd ((active_congr backup_extend).1 ⟨entry, hget, hon⟩)
            hwas
      | leases mgr => exact absurd ⟨entry, hget, hon⟩ hwas
    · intro c hactive
      cases e with
      | sweep env => exact active_sweep hactive
      | register k p ids now =>
          refine active_register.2 ⟨fun hc => ?_, hactive⟩
          exact h (hc ▸ hactive)
      | serve => exact (active_congr backup_serve).2 hactive
      | extend => exact (active_congr backup_extend).2 hactive
      | leases mgr => exact hactive

-- ========== the flag

/-- A sweep raises the flag exactly when it activates. -/
theorem serveInv_sweep (h : s.ServeInv) :
    (step cfg s (.sweep env)).ServeInv := by
  cases ht : s.tick with
  | some t =>
      rw [sweep_busy ht]
      exact h
  | none =>
      obtain ⟨hcontent, hserve, hraise⟩ := sweep_idle env ht
      unfold ServeInv at h ⊢
      rw [hserve, hraise, sweep_reports_iff]
      have hno : ¬ s.Raising := by
        rintro ⟨t, ht', -⟩
        rw [ht] at ht'
        cases ht'
      constructor
      · rintro ⟨c, entry, hget, hon⟩
        by_cases hwas : ∃ k, s.Active k
        · exact .inl ((h.1 hwas).resolve_right hno)
        · right
          rw [hcontent] at hget
          refine ⟨c, entry, hget, hon, fun e₀ h₀ => ?_⟩
          cases hoff : e₀.isActive with
          | false => rfl
          | true => exact absurd ⟨c, e₀, h₀, hoff⟩ hwas
      · rintro (hon | ⟨k, entry, hget, hon, -⟩)
        · obtain ⟨c, hc⟩ := h.2 (.inl hon)
          exact ⟨c, active_sweep hc⟩
        · refine ⟨k, entry, ?_, hon⟩
          rw [hcontent]
          exact hget

theorem serveInv_serve (h : s.ServeInv) :
    (step cfg s .serve).ServeInv := by
  have hactive : (∃ c, (step cfg s .serve).Active c) ↔ ∃ c, s.Active c :=
    exists_congr fun c => active_congr backup_serve
  unfold ServeInv at h ⊢
  rw [hactive, h]
  unfold Raising
  cases ht : s.tick with
  | none => simp [step, ht]
  | some t => cases hon : t.activatedAny <;> simp [step, ht, hon]

theorem serveInv_extend (h : s.ServeInv) :
    (step cfg s .extend).ServeInv := by
  have hactive : (∃ c, (step cfg s .extend).Active c) ↔ ∃ c, s.Active c :=
    exists_congr fun c => active_congr backup_extend
  unfold ServeInv at h ⊢
  rw [hactive, h]
  unfold Raising
  cases ht : s.tick with
  | none => simp [step, ht]
  | some t => cases hon : t.activatedAny <;> simp [step, ht, hon]

theorem serveInv_register {k : ContentId} {p : NodeId} {ids : List ChunkId}
    {now : Nat} (h : s.ServeInv) (hk : ¬ s.Active k) :
    (step cfg s (.register k p ids now)).ServeInv := by
  have hactive : (∃ c, (step cfg s (.register k p ids now)).Active c)
      ↔ ∃ c, s.Active c := by
    refine exists_congr fun c => active_register.trans ⟨And.right, ?_⟩
    intro hc
    exact ⟨fun heq => hk (heq ▸ hc), hc⟩
  exact hactive.trans h

theorem serveInv_step {e : BackupEvent} (he : s.LeavesActive e)
    (h : s.ServeInv) : (step cfg s e).ServeInv := by
  cases e with
  | sweep env => exact serveInv_sweep h
  | serve => exact serveInv_serve h
  | extend => exact serveInv_extend h
  | register k p ids now => exact serveInv_register h he
  | leases mgr => exact h

theorem serveInv_exact (h : s.ServeInv) : s.ServeExact := by
  intro hno
  unfold ServeInv at h
  rw [h]
  exact ⟨.inl, fun hor => hor.resolve_right hno⟩

-- =========== the run

/-- From the dormant node on, failover keeps its promises and the node
serves exactly when an entry is active, if and only if no content is
registered over an active entry. -/
theorem failover_iff (cfg : BackupConfig) (mgr : LeaseManager)
    (es : List BackupEvent) :
    Along (step cfg) (StepOk cfg) (dormant mgr) es
        ∧ Always (step cfg) ServeExact (dormant mgr) es
      ↔ Along (step cfg) LeavesActive (dormant mgr) es := by
  have hsame : Along (step cfg) (StepOk cfg) (dormant mgr) es
      ↔ Along (step cfg) LeavesActive (dormant mgr) es :=
    along_congr (I := fun _ => True) (fun s e _ => stepOk_iff)
      (always_of_step (fun _ _ _ => trivial) trivial)
  have hstart : (dormant mgr).ServeInv := by
    simp [ServeInv, Active, Raising, dormant]
  rw [hsame]
  refine ⟨And.left, fun h => ⟨h, ?_⟩⟩
  exact (always_of_along (fun s e he hs => serveInv_step he hs) h
    hstart).mono fun s => serveInv_exact

/-- A primary, configured by its id, that is never heard of. -/
def silentPrimary : BackupConfig := ⟨none, some (Bytes.zero 16), 5400, true⟩

def silentSweep : SweepEnv :=
  { now := 86400
    nodes := RoutingTable.new (Bytes.zero 16)
    activity := ∅
    holder := ChunkHolder.new
    nodeOrder := IterOrder.bytewise
    order := IterOrder.bytewise }

/-- A content registered at the start and, after the takeover, once more. -/
def registeredAgain : List BackupEvent :=
  [.register (Bytes.zero 32) (Bytes.zero 16) [] 0, .sweep silentSweep,
    .serve, .extend, .register (Bytes.zero 32) (Bytes.zero 16) [] 86400]

/-- The second registration undoes the takeover. -/
theorem takeover_undone :
    ¬ (Along (step silentPrimary) (StepOk silentPrimary)
          (dormant LeaseManager.new) registeredAgain
        ∧ Always (step silentPrimary) ServeExact
          (dormant LeaseManager.new) registeredAgain) := by
  intro h
  obtain ⟨-, -, -, -, hlast, -⟩ := h.1
  refine (stepOk_iff.1 hlast : ¬ _) ?_
  refine (active_congr backup_extend).2 ((active_congr backup_serve).2 ?_)
  let entry : BackupContentState :=
    ⟨Bytes.zero 32, some (Bytes.zero 16), false, 0, []⟩
  refine ⟨(visit silentPrimary silentSweep entry).entry, ?_, by decide⟩
  rw [(sweep_idle _ rfl).1]
  exact get_sweepContent_of (FMap.get_insert_self _ _ entry)

end StaticNet
