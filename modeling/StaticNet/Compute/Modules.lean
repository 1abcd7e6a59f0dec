/-
The module cache of a provider (`static-node/src/runner.rs`,
`obtain_module` and `run_compute_execution`).

# Two fields of one request

A module is looked up and kept under the content id a request gives, and
retrieved with the content key it gives. Nothing checks that the id is the
key's, so a request fills the entry of any module with any content.

# The invariant

What a task found in the cache was genuine when it found it, and what it
retrieved is on the record under its own key. So the one insertion to look
at is that of retrieved bytes. The first half holds only while the cache is
genuine.
-/
import StaticNet.Compute.Steps
import StaticNet.Content.Basic
import StaticNet.Lib.Exact

namespace StaticNet

open Exact

namespace Provider

variable {P : Prims} {cfg : ComputeConfig} {s s' : Provider}
  {e : ComputeEvent}

/-- These bytes were retrieved with a key of this content id. -/
def GenuineFor (P : Prims) (s : Provider) (id : ContentId)
    (bytes : List UInt8) : Prop :=
  ∃ publicKey, contentIdFromPublic P publicKey = id
    ∧ (publicKey, bytes) ∈ s.log.retrieved

def GenuineCache (P : Prims) (s : Provider) : Prop :=
  ∀ id bytes, s.state.cachedModules.get id = some bytes →
    GenuineFor P s id bytes

/-- What is retrieved goes into the cache under the id of the key it was
retrieved with. -/
def MatchedFetch (P : Prims) (s : Provider) : ComputeEvent → Prop
  | .run i _ _ => ∀ t bytes, s.runs[i]? = some t →
      t.phase = .fetched bytes →
      contentIdFromPublic P t.request.moduleContentPubKey
        = t.request.moduleContentId
  | _ => True

/-- The same, or the bytes have been retrieved under a key of that id
before. -/
def KeyedFetch (P : Prims) (s : Provider) : ComputeEvent → Prop
  | .run i _ _ => ∀ t bytes, s.runs[i]? = some t →
      t.phase = .fetched bytes →
      contentIdFromPublic P t.request.moduleContentPubKey
          = t.request.moduleContentId
        ∨ GenuineFor P s t.request.moduleContentId bytes
  | _ => True

-- ===== the invariant

/-- What a task has in hand: found in a genuine cache, or retrieved with
the key of its request. -/
def Sourced (P : Prims) (s : Provider) (t : RunTask) : Prop :=
  (∀ bytes, t.phase = .cached bytes →
      GenuineFor P s t.request.moduleContentId bytes)
    ∧ ∀ bytes, t.phase = .fetched bytes →
      (t.request.moduleContentPubKey, bytes) ∈ s.log.retrieved

def AllSourced (P : Prims) (s : Provider) : Prop :=
  ∀ t ∈ s.runs, Sourced P s t

/-- The record only grows. -/
def Recalls (s s' : Provider) : Prop :=
  ∀ x ∈ s.log.retrieved, x ∈ s'.log.retrieved

theorem GenuineFor.mono (h : Recalls s s') {id : ContentId}
    {bytes : List UInt8} (hg : GenuineFor P s id bytes) :
    GenuineFor P s' id bytes := by
  obtain ⟨publicKey, hid, hmem⟩ := hg
  exact ⟨publicKey, hid, h _ hmem⟩

theorem GenuineCache.mono (h : Recalls s s')
    (hc : ∀ id bytes, s'.state.cachedModules.get id = some bytes →
      s.state.cachedModules.get id = some bytes)
    (hg : GenuineCache P s) : GenuineCache P s' := by
  intro id bytes hget
  exact (hg id bytes (hc id bytes hget)).mono h

theorem Sourced.mono (h : Recalls s s') {t : RunTask}
    (hs : Sourced P s t) : Sourced P s' t := by
  constructor
  · intro bytes ht
    exact (hs.1 bytes ht).mono h
  · intro bytes ht
    exact h _ (hs.2 bytes ht)

/-- A task without a module in hand has nothing to show. -/
theorem sourced_of_ne {t : RunTask} (hc : ∀ bytes, t.phase ≠ .cached bytes)
    (hf : ∀ bytes, t.phase ≠ .fetched bytes) : Sourced P s t :=
  ⟨fun bytes h => absurd h (hc bytes), fun bytes h => absurd h (hf bytes)⟩

theorem AllSourced.spawn (h : Recalls s s') (r : ComputeRequest)
    (hruns : s'.runs = s.runs ++ [⟨r, .obtaining⟩])
    (hs : AllSourced P s) : AllSourced P s' := by
  intro t ht
  rw [hruns, List.mem_append, List.mem_singleton] at ht
  rcases ht with ht | rfl
  · exact (hs t ht).mono h
  · exact sourced_of_ne (by simp) (by simp)

theorem AllSourced.set (h : Recalls s s') {i : Nat} {t : RunTask}
    (hruns : s'.runs = s.runs.set i t) (ht : Sourced P s' t)
    (hs : AllSourced P s) : AllSourced P s' := by
  intro t' ht'
  rw [hruns] at ht'
  rcases List.mem_or_eq_of_mem_set ht' with ht' | rfl
  · exact (hs t' ht').mono h
  · exact ht

theorem AllSourced.same (h : Recalls s s') (hruns : s'.runs = s.runs)
    (hs : AllSourced P s) : AllSourced P s' := by
  intro t ht
  rw [hruns] at ht
  exact (hs t ht).mono h

theorem recalls_of_eq (h : s'.log.retrieved = s.log.retrieved) :
    Recalls s s' := by
  intro x hx
  rw [h]
  exact hx

-- ========= the steps

/-- A section that leaves the cache, the record and the tasks. -/
structure Untouched (s s' : Provider) : Prop where
  cache : s'.state.cachedModules = s.state.cachedModules
  record : s'.log.retrieved = s.log.retrieved
  runs : s'.runs = s.runs ∨ ∃ r, s'.runs = s.runs ++ [⟨r, .obtaining⟩]

theorem Admits.untouched {r : ComputeRequest} (h : Admits cfg s r s') :
    Untouched s s' := by
  cases h with
  | refused _ => exact ⟨rfl, rfl, .inl rfl⟩
  | repeated _ _ _ => exact ⟨rfl, rfl, .inr ⟨r, rfl⟩⟩
  | activated _ _ _ _ => exact ⟨rfl, rfl, .inr ⟨r, rfl⟩⟩
  | reserves _ _ _ _ => exact ⟨rfl, rfl, .inl rfl⟩

theorem Addresses.untouched {i : Nat} {address : Option String}
    (h : Addresses cfg s i address s') : Untouched s s' := by
  cases h <;> exact ⟨rfl, rfl, .inl rfl⟩

theorem Ticks.untouched (h : Ticks cfg s e s') : Untouched s s' := by
  cases h with
  | places staged _ _ _ => exact ⟨rfl, rfl, .inr ⟨staged.request, rfl⟩⟩
  | _ => exact ⟨rfl, rfl, .inl rfl⟩

theorem Untouched.genuine (h : Untouched s s') (hg : GenuineCache P s) :
    GenuineCache P s' :=
  hg.mono (recalls_of_eq h.record) fun _ _ hget => h.cache ▸ hget

theorem Untouched.sourced (h : Untouched s s') (hs : AllSourced P s) :
    AllSourced P s' := by
  rcases h.runs with hruns | ⟨r, hruns⟩
  · exact hs.same (recalls_of_eq h.record) hruns
  · exact hs.spawn (recalls_of_eq h.record) r hruns

/-- What is left after an eviction was there before. -/
theorem get_trim (order : IterOrder ContentId) (fuel : Nat)
    (m : FMap ContentId (List UInt8)) {id : ContentId}
    {bytes : List UInt8}
    (h : (trim order fuel m).get id = some bytes) :
    m.get id = some bytes := by
  induction fuel generalizing m with
  | zero => exact h
  | succ fuel ih =>
      unfold trim at h
      by_cases hlen : MAX_CACHED_MODULES < m.len
      · rw [if_pos hlen] at h
        cases hhead : (order.iter m.keys).head? with
        | none =>
            rw [hhead] at h
            exact h
        | some k =>
            rw [hhead] at h
            have hget := ih _ h
            rw [FMap.get_erase] at hget
            by_cases hk : id = k
            · rw [if_pos hk] at hget
              cases hget
            · rwa [if_neg hk] at hget
      · rwa [if_neg hlen] at h

theorem recalls_noteRetrieved (s : Provider) (r : ComputeRequest)
    (bytes : List UInt8) : Recalls s (s.noteRetrieved r bytes) :=
  fun _ hx => List.mem_append_left _ hx

theorem Runs.recalls {i : Nat} {t : RunTask} (h : Runs s i t s') :
    Recalls s s' := by
  cases h with
  | empty bytes _ => exact recalls_noteRetrieved s t.request bytes
  | fetches bytes _ => exact recalls_noteRetrieved s t.request bytes
  | _ => exact recalls_of_eq rfl

theorem Runs.sourced {i : Nat} {t : RunTask} (h : Runs s i t s')
    (hg : GenuineCache P s) (hs : AllSourced P s) : AllSourced P s' := by
  have hrec := h.recalls
  have hbare : ∀ phase : RunPhase, (∀ bytes, phase ≠ .cached bytes) →
      (∀ bytes, phase ≠ .fetched bytes) →
      s'.runs = s.runs.set i { t with phase := phase } →
      AllSourced P s' := fun phase hc hf hruns =>
    hs.set hrec hruns (sourced_of_ne hc hf)
  cases h with
  | waits _ => exact hs
  | finds bytes _ hget =>
      refine hs.set hrec rfl ⟨fun bytes' hp => ?_, by simp⟩
      cases hp
      exact hg _ _ hget
  | misses _ => exact hbare .fetching (by simp) (by simp) rfl
  | unobtained _ => exact hbare .answering (by simp) (by simp) rfl
  | empty _ _ => exact hbare .answering (by simp) (by simp) rfl
  | fetches bytes _ =>
      refine hs.set hrec rfl ⟨by simp, fun bytes' hp => ?_⟩
      cases hp
      exact List.mem_append_right _ List.mem_cons_self
  | caches bytes _ => exact hbare (.trimming bytes) (by simp) (by simp) rfl
  | trims _ bytes _ => exact hbare (.executing bytes) (by simp) (by simp) rfl
  | finishes _ _ => exact hbare .answering (by simp) (by simp) rfl
  | returns _ =>
      intro t' ht'
      exact (hs t' ((List.eraseIdx_sublist s.runs i).subset ht')).mono hrec

/-- An insertion leaves the cache genuine exactly when it is genuine. -/
theorem genuine_insert_iff {id : ContentId} {bytes : List UInt8}
    (hcache : s'.state.cachedModules
      = s.state.cachedModules.insert id bytes)
    (hrec : s'.log.retrieved = s.log.retrieved) (hg : GenuineCache P s) :
    GenuineCache P s' ↔ GenuineFor P s id bytes := by
  constructor
  · intro h
    have hget : s'.state.cachedModules.get id = some bytes := by
      rw [hcache, FMap.get_insert_self]
    exact (h id bytes hget).mono (recalls_of_eq hrec.symm)
  · intro h id' bytes' hget
    rw [hcache, FMap.get_insert] at hget
    by_cases hid : id' = id
    · rw [if_pos hid] at hget
      cases hget
      exact hid ▸ h.mono (recalls_of_eq hrec)
    · rw [if_neg hid] at hget
      exact (hg id' bytes' hget).mono (recalls_of_eq hrec)

/-- A section of a run leaves the cache genuine exactly when what it puts
there, if it was retrieved, was retrieved under the right key. -/
theorem Runs.genuine {i : Nat} {t : RunTask} (h : Runs s i t s')
    (hi : s.runs[i]? = some t) (hs : AllSourced P s)
    (hg : GenuineCache P s) (input : RunInput)
    (order : IterOrder ContentId) :
    GenuineCache P s' ↔ KeyedFetch P s (.run i input order) := by
  have hquiet : (∀ bytes, t.phase ≠ .fetched bytes) →
      (∀ id bytes, s'.state.cachedModules.get id = some bytes →
        s.state.cachedModules.get id = some bytes) →
      (GenuineCache P s' ↔ KeyedFetch P s (.run i input order)) := by
    intro hne hc
    refine ⟨fun _ t' bytes hi' hp => ?_, fun _ => hg.mono h.recalls hc⟩
    rw [hi] at hi'
    cases hi'
    exact absurd hp (hne bytes)
  cases h with
  | waits hp =>
      refine hquiet ?_ fun _ _ hget => hget
      rcases hp with hp | ⟨bytes, hp⟩
      · simp [hp]
      · simp [hp]
  | finds _ hp _ => exact hquiet (by simp [hp]) fun _ _ hget => hget
  | misses hp => exact hquiet (by simp [hp]) fun _ _ hget => hget
  | unobtained hp => exact hquiet (by simp [hp]) fun _ _ hget => hget
  | empty _ hp => exact hquiet (by simp [hp]) fun _ _ hget => hget
  | fetches _ hp => exact hquiet (by simp [hp]) fun _ _ hget => hget
  | caches bytes hp =>
      have hinsert : GenuineCache P (s.cacheModule i t bytes)
          ↔ GenuineFor P s t.request.moduleContentId bytes :=
        genuine_insert_iff rfl rfl hg
      rw [hinsert]
      have hsource := hs t (List.mem_of_getElem? hi)
      rcases hp with hp | hp
      · refine ⟨fun _ t' bytes' hi' hp' => ?_, fun _ => hsource.1 bytes hp⟩
        rw [hi] at hi'
        cases hi'
        rw [hp] at hp'
        cases hp'
      · constructor
        · intro hgen t' bytes' hi' hp'
          rw [hi] at hi'
          cases hi'
          rw [hp] at hp'
          cases hp'
          exact .inr hgen
        · intro hkeyed
          rcases hkeyed t bytes hi hp with hid | hgen
          · exact ⟨_, hid, hsource.2 bytes hp⟩
          · exact hgen
  | trims order bytes hp =>
      exact hquiet (by simp [hp]) fun _ _ hget => get_trim order _ _ hget
  | finishes _ hp => exact hquiet (by simp [hp]) fun _ _ hget => hget
  | returns hp => exact hquiet (by simp [hp]) fun _ _ hget => hget

theorem allSourced_start : AllSourced P start := by
  intro t ht
  cases ht

theorem genuineCache_start : GenuineCache P start := by
  intro id bytes hget
  cases hget

/-- The sections of the other tasks leave cache and record alone. -/
theorem step_untouched (s : Provider) (e : ComputeEvent)
    (he : ∀ i input order, e ≠ .run i input order) :
    Untouched s (step cfg s e) := by
  cases e with
  | request r => exact (handleComputeRequest_admits cfg s r).untouched
  | address i address => exact (addressed_addresses cfg s i address).untouched
  | confirmation c => exact ⟨rfl, rfl, .inl rfl⟩
  | tick order => exact (startTick_ticks cfg s order).untouched
  | expire order => exact (expire_ticks cfg s order).untouched
  | check answer => exact (check_ticks cfg s answer).untouched
  | take => exact (take_ticks cfg s).untouched
  | place => exact (place_ticks cfg s).untouched
  | run i input order => exact absurd rfl (he i input order)
  | wait secs => exact ⟨rfl, rfl, .inl rfl⟩

theorem step_allSourced (s : Provider) (e : ComputeEvent)
    (hs : AllSourced P s) (hg : GenuineCache P s) :
    AllSourced P (step cfg s e) := by
  by_cases he : ∀ i input order, e ≠ .run i input order
  · exact (step_untouched s e he).sourced hs
  · simp only [not_forall, not_not] at he
    obtain ⟨i, input, order, rfl⟩ := he
    cases h : s.runs[i]? with
    | none =>
        show AllSourced P (s.runStep i input order)
        rw [runStep_none h]
        exact hs
    | some t => exact (runStep_runs h input order).sourced hg hs

theorem step_genuine (s : Provider) (e : ComputeEvent)
    (hs : AllSourced P s) (hg : GenuineCache P s) :
    GenuineCache P (step cfg s e) ↔ KeyedFetch P s e := by
  by_cases he : ∀ i input order, e ≠ .run i input order
  · refine ⟨fun _ => ?_, fun _ => (step_untouched s e he).genuine hg⟩
    cases e with
    | run i input order => exact absurd rfl (he i input order)
    | _ => trivial
  · simp only [not_forall, not_not] at he
    obtain ⟨i, input, order, rfl⟩ := he
    cases h : s.runs[i]? with
    | none =>
        show GenuineCache P (s.runStep i input order) ↔ _
        rw [runStep_none h]
        refine ⟨fun _ t bytes hi => ?_, fun _ => hg⟩
        rw [h] at hi
        cases hi
    | some t => exact (runStep_runs h input order).genuine h hs hg input order

theorem MatchedFetch.keyed (h : MatchedFetch P s e) : KeyedFetch P s e := by
  cases e with
  | run i input order => exact fun t bytes hi hp => .inl (h t bytes hi hp)
  | _ => trivial

/-- Where every module is kept under the id of its key the cache stays
genuine. -/
theorem genuine_of_matched (es : List ComputeEvent)
    (h : Along (step cfg) (MatchedFetch P) start es) :
    Always (step cfg) (GenuineCache P) start es :=
  (always_iff_along_while (fun s e hs hg _ => step_allSourced s e hs hg)
    step_genuine allSourced_start genuineCache_start).2
      (h.imp fun _ _ => MatchedFetch.keyed)

/-- The cache holds under every id what was retrieved with a key of that
id, exactly in the runs in which every module that is kept after its
retrieval is kept under the id of its key. -/
theorem cache_genuine_iff (P : Prims) (cfg : ComputeConfig)
    (es : List ComputeEvent) :
    Always (step cfg) (GenuineCache P) start es
      ↔ Along (step cfg) (KeyedFetch P) start es :=
  always_iff_along_while (fun s e hs hg _ => step_allSourced s e hs hg)
    step_genuine allSourced_start genuineCache_start

/-- A request gives the id of one module and the key of another. -/
def planted : List ComputeEvent :=
  [.request { numbered 1 with moduleContentId := Bytes.ofList 32 [7] },
    .run 0 .next .bytewise, .run 0 (.retrieved (some [9])) .bytewise,
    .run 0 .next .bytewise]

theorem planted_module : ¬ ∀ (P : Prims) (cfg : ComputeConfig)
    (es : List ComputeEvent),
    Always (step cfg) (GenuineCache P) start es := by
  intro h
  have hcache := (h .plain freeSlot planted).last
  obtain ⟨publicKey, hid, hmem⟩ := hcache (Bytes.ofList 32 [7]) [9]
    (by decide +kernel)
  have hkey : publicKey = Bytes.zero 32 := by
    have hlog : (planted.foldl (step freeSlot) start).log.retrieved
        = [(Bytes.zero 32, [9])] := by decide +kernel
    rw [hlog, List.mem_singleton] at hmem
    exact (Prod.mk.inj hmem).1
  rw [hkey] at hid
  exact absurd hid (by decide +kernel)

end Provider

end StaticNet
