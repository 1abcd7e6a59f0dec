/-
Heartbeats as the network delivers them: late, out of order, and again.

# A write, not a maximum

Both entry points assign the expiry. A heartbeat that arrives after a
later one of the same owner therefore takes time off the lease, and so
does one that arrives again once `cleanup_nonces` has dropped its nonce:
its signature still verifies, and the expiry it brings may lie in the
past by then. The upsert path caps what it writes by the holder's clock,
so a lease that the other path set further ahead is cut back.

# What a call does

`step_get` says all of it: a lease that the call renews is the one it
stamps, and every other lease is as before. So a lease always is the last
of its `history`: the terms it started with, then those that the
heartbeats processed for its chunk brought. No step shortens a lease
exactly when each history is in ascending order, and a heartbeat that
comes again does nothing exactly when what it brings is what came last.
Where the nonces of heartbeats still to come are kept, each heartbeat is
processed at most once, at its first delivery, and the final expiry is
that of the last first delivery, late ones before it or not
(`Orderly.expiryOf_run`).
-/
import Mathlib.Data.List.Chain
import StaticNet.Leases.Ownership
import StaticNet.Leases.Renewal

namespace StaticNet

-- ========== one call

namespace LeaseManager

variable {hb : Heartbeat} {held : ChunkId → Bool} {mgr : LeaseManager}

theorem processHeartbeatUpsert_get (P : Prims) (mgr : LeaseManager)
    (hb : Heartbeat) (now : Nat) (held : ChunkId → Bool) (c : ChunkId) :
    (mgr.processHeartbeatUpsert P hb now held).2.leases.get c
      = if hb.verifySignature P = true
            ∧ mgr.seenNonces.get hb.nonce = none
            ∧ mgr.writes hb held c = true then
          some (stamp hb (cappedExpiry hb now) c (mgr.leases.get c))
        else mgr.leases.get c := by
  unfold processHeartbeatUpsert
  by_cases hsig : hb.verifySignature P = true
  · cases hseen : mgr.seenNonces.get hb.nonce with
    | some t => simp [hsig]
    | none =>
        simp only [hsig, Bool.not_true, Bool.false_eq_true, if_false,
          true_and, mem_writes]
        exact upsertLoop_get hb _ hb.chunkIds _ [] c
  · simp [hsig]

/-- The plain entry point: the leased chunks, and no cap. -/
theorem processHeartbeat_get (P : Prims) (mgr : LeaseManager)
    (hb : Heartbeat) (now : Nat) (c : ChunkId) :
    (mgr.processHeartbeat P hb now).2.leases.get c
      = if hb.verifySignature P = true
            ∧ mgr.seenNonces.get hb.nonce = none
            ∧ mgr.writes hb (fun d => (mgr.leases.get d).isSome) c = true
          then some (stamp hb hb.newExpiresAt c (mgr.leases.get c))
        else mgr.leases.get c := by
  unfold processHeartbeat
  by_cases hsig : hb.verifySignature P = true
  · cases hseen : mgr.seenNonces.get hb.nonce with
    | some t => simp [hsig]
    | none =>
        simp only [hsig, Bool.not_true, Bool.false_eq_true, if_false,
          true_and, mem_writes]
        rw [renewLoop_eq hb _ _ _ fun _ => rfl]
        exact upsertLoop_get hb _ hb.chunkIds _ [] c
  · simp [hsig]

end LeaseManager

-- ============= calls

/-- A call on the lease manager: a delivered heartbeat through one of the
two entry points, or the sweep's cleanup. -/
inductive LeaseCall
  | heartbeat (hb : Heartbeat) (now : Nat)
  | upsert (hb : Heartbeat) (now : Nat) (held : ChunkId → Bool)
  | cleanup (now : Nat)

namespace LeaseCall

/-- The heartbeat a call delivers. -/
def delivers : LeaseCall → Option Heartbeat
  | heartbeat hb _ => some hb
  | upsert hb _ _ => some hb
  | cleanup _ => none

def step (P : Prims) (mgr : LeaseManager) : LeaseCall → LeaseManager
  | heartbeat hb now => (mgr.processHeartbeat P hb now).2
  | upsert hb now held => (mgr.processHeartbeatUpsert P hb now held).2
  | cleanup now => mgr.cleanupNonces now

def run (P : Prims) (mgr : LeaseManager) (calls : List LeaseCall) :
    LeaseManager :=
  calls.foldl (step P) mgr

/-- The chunks a call looks at: those with a lease, or those held. -/
def covers (mgr : LeaseManager) : LeaseCall → ChunkId → Bool
  | heartbeat _ _, c => (mgr.leases.get c).isSome
  | upsert _ _ held, c => held c
  | cleanup _, _ => false

/-- The expiry a call writes. -/
def applies : LeaseCall → Nat
  | heartbeat hb _ => hb.newExpiresAt
  | upsert hb now _ => LeaseManager.cappedExpiry hb now
  | cleanup _ => 0

/-- Does the call renew this chunk's lease? Its heartbeat verifies, the
nonce is not on record, and the loop reaches the chunk. -/
def renews (P : Prims) (mgr : LeaseManager) (call : LeaseCall)
    (c : ChunkId) : Bool :=
  match call.delivers with
  | none => false
  | some hb => hb.verifySignature P && (mgr.seenNonces.get hb.nonce).isNone
      && mgr.writes hb (call.covers mgr) c

/-- What a renewed lease becomes. -/
def renewed (mgr : LeaseManager) (call : LeaseCall) (c : ChunkId) :
    Option ChunkLease :=
  call.delivers.map fun hb =>
    LeaseManager.stamp hb call.applies c (mgr.leases.get c)

end LeaseCall

open LeaseManager LeaseCall

variable {P : Prims} {mgr : LeaseManager} {call : LeaseCall}
  {calls : List LeaseCall} {c : ChunkId} {hb : Heartbeat}

/-- What a call does to the leases. -/
theorem step_get (P : Prims) (mgr : LeaseManager) (call : LeaseCall)
    (c : ChunkId) :
    (call.step P mgr).leases.get c
      = if call.renews P mgr c = true then call.renewed mgr c
        else mgr.leases.get c := by
  cases call with
  | heartbeat hb now =>
      refine (processHeartbeat_get P mgr hb now c).trans ?_
      simp only [renews, renewed, delivers, Bool.and_eq_true,
        Option.isNone_iff_eq_none, and_assoc]
      rfl
  | upsert hb now held =>
      refine (processHeartbeatUpsert_get P mgr hb now held c).trans ?_
      simp only [renews, renewed, delivers, Bool.and_eq_true,
        Option.isNone_iff_eq_none, and_assoc]
      rfl
  | cleanup now => rfl

theorem step_same (h : call.renews P mgr c = false) :
    (call.step P mgr).leases.get c = mgr.leases.get c := by
  rw [step_get, h]
  exact if_neg Bool.false_ne_true

/-- A renewed lease is the heartbeat's. -/
theorem step_renewed (h : call.renews P mgr c = true) :
    ∃ hb, call.delivers = some hb ∧ (call.step P mgr).leases.get c
      = some (stamp hb call.applies c (mgr.leases.get c)) := by
  rw [step_get, if_pos h]
  unfold renews at h
  cases hbeat : call.delivers with
  | none =>
      rw [hbeat] at h
      cases h
  | some hb =>
      refine ⟨hb, rfl, ?_⟩
      unfold renewed
      rw [hbeat]
      rfl

theorem renews_delivered (h : call.delivers = some hb) :
    call.renews P mgr c = true ↔ hb.verifySignature P = true
      ∧ mgr.seenNonces.get hb.nonce = none
      ∧ mgr.writes hb (call.covers mgr) c = true := by
  unfold renews
  rw [h]
  simp only [Bool.and_eq_true, Option.isNone_iff_eq_none, and_assoc]

theorem calls_take_succ {k : Nat} (h : calls[k]? = some call) :
    run P mgr (calls.take (k + 1))
      = call.step P (run P mgr (calls.take k)) := by
  rw [List.take_add_one, h, run, List.foldl_append]
  rfl

-- ============ nonces

/-- A verified heartbeat's nonce is on record after its delivery. -/
theorem step_records (h : call.delivers = some hb)
    (hsig : hb.verifySignature P = true) :
    (call.step P mgr).seenNonces.get hb.nonce ≠ none := by
  cases call with
  | heartbeat hb' now =>
      obtain rfl := Option.some.inj h
      show (mgr.processHeartbeat P hb' now).2.seenNonces.get _ ≠ none
      unfold processHeartbeat
      cases hseen : mgr.seenNonces.get hb'.nonce with
      | some t => simp [hsig, hseen]
      | none =>
          simp only [hsig, Bool.not_true, Bool.false_eq_true, if_false]
          rw [renewLoop_eq hb' _ _ _ fun _ => rfl, upsertLoop_seenNonces]
          simp
  | upsert hb' now held =>
      obtain rfl := Option.some.inj h
      show (mgr.processHeartbeatUpsert P hb' now held).2.seenNonces.get _
        ≠ none
      unfold processHeartbeatUpsert
      cases hseen : mgr.seenNonces.get hb'.nonce with
      | some t => simp [hsig, hseen]
      | none =>
          simp only [hsig, Bool.not_true, Bool.false_eq_true, if_false]
          rw [upsertLoop_seenNonces]
          simp
  | cleanup now => cases h

/-- A nonce on record after a call was there, or it is the delivered
heartbeat's. -/
theorem step_recorded {nonce : Bytes 32}
    (h : (call.step P mgr).seenNonces.get nonce ≠ none) :
    mgr.seenNonces.get nonce ≠ none
      ∨ ∃ hb, call.delivers = some hb ∧ hb.nonce = nonce := by
  by_cases heq : ∃ hb, call.delivers = some hb ∧ hb.nonce = nonce
  · exact .inr heq
  left
  have hne : ∀ hb now, call.delivers = some hb →
      (mgr.seenNonces.insert hb.nonce now).get nonce
        = mgr.seenNonces.get nonce := by
    intro hb now hbeat
    refine FMap.get_insert_ne _ _ ?_
    intro hn
    exact heq ⟨hb, hbeat, hn.symm⟩
  cases call with
  | heartbeat hb now =>
      change (mgr.processHeartbeat P hb now).2.seenNonces.get _ ≠ none at h
      unfold processHeartbeat at h
      by_cases hsig : hb.verifySignature P = true
      · cases hseen : mgr.seenNonces.get hb.nonce with
        | some t => simpa [hsig, hseen] using h
        | none =>
            simp only [hsig, hseen, Bool.not_true, Bool.false_eq_true,
              if_false] at h
            rw [renewLoop_eq hb _ _ _ fun _ => rfl, upsertLoop_seenNonces]
              at h
            rwa [hne hb now rfl] at h
      · simpa [hsig] using h
  | upsert hb now held =>
      change (mgr.processHeartbeatUpsert P hb now held).2.seenNonces.get _
        ≠ none at h
      unfold processHeartbeatUpsert at h
      by_cases hsig : hb.verifySignature P = true
      · cases hseen : mgr.seenNonces.get hb.nonce with
        | some t => simpa [hsig, hseen] using h
        | none =>
            simp only [hsig, hseen, Bool.not_true, Bool.false_eq_true,
              if_false] at h
            rw [upsertLoop_seenNonces] at h
            rwa [hne hb now rfl] at h
      · simpa [hsig] using h
  | cleanup now =>
      change ((mgr.seenNonces.retain _).get nonce) ≠ none at h
      intro hnone
      rw [FMap.get_retain, hnone] at h
      exact h rfl

-- =========== the law

/-- No step takes time off a lease that exists. -/
def NeverShortens (P : Prims) (mgr : LeaseManager)
    (calls : List LeaseCall) : Prop :=
  ∀ k c lease lease',
    (run P mgr (calls.take k)).leases.get c = some lease →
    (run P mgr (calls.take (k + 1))).leases.get c = some lease' →
    lease.expiresAt ≤ lease'.expiresAt

/-- What a lease says apart from its chunk and token. -/
def terms (mgr : LeaseManager) (c : ChunkId) : Option (Nat × Bytes 32) :=
  (mgr.leases.get c).map fun lease =>
    (lease.expiresAt, lease.contentPubKey)

/-- The terms that a run brings a chunk, one for each call that renews
its lease: the expiry it applies, the key of its heartbeat. -/
def brought (P : Prims) (c : ChunkId) :
    LeaseManager → List LeaseCall → List (Nat × Bytes 32)
  | _, [] => []
  | mgr, call :: rest =>
      (if call.renews P mgr c = true then
          (call.delivers.map fun hb =>
            (call.applies, hb.contentPubKey)).toList
        else [])
        ++ brought P c (call.step P mgr) rest

/-- All terms of a chunk's lease: those at the start, if it is leased,
and those brought to it. -/
def history (P : Prims) (mgr : LeaseManager) (calls : List LeaseCall)
    (c : ChunkId) : List (Nat × Bytes 32) :=
  (terms mgr c).toList ++ brought P c mgr calls

/-- The heartbeats processed for a chunk come in the order of the
expiries they bring, and none is behind the lease at the start. -/
def Ascending (P : Prims) (mgr : LeaseManager) (calls : List LeaseCall) :
    Prop :=
  ∀ c, ((history P mgr calls c).map Prod.fst).Pairwise (· ≤ ·)

/-- A heartbeat delivered once more changes no lease. -/
def ReplaysSilent (P : Prims) (mgr : LeaseManager)
    (calls : List LeaseCall) : Prop :=
  ∀ j k hb call call', j < k → calls[j]? = some call →
    calls[k]? = some call' → call.delivers = some hb →
    call'.delivers = some hb → ∀ c,
      (run P mgr (calls.take (k + 1))).leases.get c
        = (run P mgr (calls.take k)).leases.get c

/-- A heartbeat delivered once more is not processed, or finds that the
last one processed for the chunk brought the same terms. -/
def ReplaysCurrent (P : Prims) (mgr : LeaseManager)
    (calls : List LeaseCall) : Prop :=
  ∀ j k hb call call', j < k → calls[j]? = some call →
    calls[k]? = some call' → call.delivers = some hb →
    call'.delivers = some hb →
    ∀ c, call'.renews P (run P mgr (calls.take k)) c = true →
      (history P mgr (calls.take k) c).getLast?
        = some (call'.applies, hb.contentPubKey)

theorem terms_same (h : call.renews P mgr c = false) :
    terms (call.step P mgr) c = terms mgr c := by
  unfold terms
  rw [step_same h]

theorem terms_renewed (h : call.renews P mgr c = true) :
    ∃ hb, call.delivers = some hb
      ∧ terms (call.step P mgr) c
        = some (call.applies, hb.contentPubKey) := by
  obtain ⟨hb, hbeat, hnew⟩ := step_renewed h
  refine ⟨hb, hbeat, ?_⟩
  unfold terms
  rw [hnew]
  rfl

/-- A renewal starts the history anew. -/
theorem brought_renewed (h : call.renews P mgr c = true) :
    brought P c mgr (call :: calls)
      = history P (call.step P mgr) calls c := by
  obtain ⟨hb, hbeat, hterms⟩ := terms_renewed h
  rw [brought, if_pos h, hbeat, history, hterms]
  rfl

theorem history_same (h : call.renews P mgr c = false) :
    history P mgr (call :: calls) c
      = history P (call.step P mgr) calls c := by
  unfold history
  rw [brought, h, if_neg Bool.false_ne_true, terms_same h]
  rfl

/-- A lease is the last of its history. -/
theorem terms_run (P : Prims) (mgr : LeaseManager)
    (calls : List LeaseCall) (c : ChunkId) :
    terms (run P mgr calls) c = (history P mgr calls c).getLast? := by
  induction calls generalizing mgr with
  | nil =>
      show terms mgr c = ((terms mgr c).toList ++ []).getLast?
      cases terms mgr c <;> rfl
  | cons call rest ih =>
      have hrun : run P mgr (call :: rest)
          = run P (call.step P mgr) rest := rfl
      rw [hrun, ih]
      cases hr : call.renews P mgr c with
      | false => rw [history_same hr]
      | true =>
          have hfull : (history P (call.step P mgr) rest c).getLast?
              ≠ none := by
            obtain ⟨hb, -, hterms⟩ := terms_renewed hr
            unfold history
            rw [hterms]
            simp
          have hhist : history P mgr (call :: rest) c
              = (terms mgr c).toList
                ++ history P (call.step P mgr) rest c := by
            rw [← brought_renewed hr]
            rfl
          rw [hhist, List.getLast?_append]
          cases hlast : (history P (call.step P mgr) rest c).getLast? with
          | none => exact absurd hlast hfull
          | some x => rfl

theorem neverShortens_cons : NeverShortens P mgr (call :: calls)
    ↔ (∀ c lease lease', mgr.leases.get c = some lease →
        (call.step P mgr).leases.get c = some lease' →
        lease.expiresAt ≤ lease'.expiresAt)
      ∧ NeverShortens P (call.step P mgr) calls := by
  constructor
  · intro h
    exact ⟨fun c => h 0 c, fun k c => h (k + 1) c⟩
  · rintro ⟨hfirst, hrest⟩ k
    cases k with
    | zero => exact hfirst
    | succ k => exact hrest k

/-- The first step shortens no lease exactly when what it brings comes
after what is there. -/
theorem step_keeps_iff : (∀ c lease lease',
      mgr.leases.get c = some lease →
      (call.step P mgr).leases.get c = some lease' →
      lease.expiresAt ≤ lease'.expiresAt)
    ↔ ∀ c, call.renews P mgr c = true →
      ∀ t ∈ terms mgr c, t.1 ≤ call.applies := by
  constructor
  · rintro h c hr t ht
    obtain ⟨lease, hget, rfl⟩ := Option.map_eq_some_iff.1 ht
    obtain ⟨hb, -, hnew⟩ := step_renewed hr
    exact h c lease _ hget hnew
  · intro h c lease lease' hget hget'
    cases hr : call.renews P mgr c with
    | false =>
        rw [step_same hr, hget] at hget'
        obtain rfl := Option.some.inj hget'
        exact Nat.le_refl _
    | true =>
        obtain ⟨hb, -, hnew⟩ := step_renewed hr
        obtain rfl := Option.some.inj (hnew.symm.trans hget')
        refine h c hr (lease.expiresAt, lease.contentPubKey) ?_
        unfold terms
        rw [hget]
        rfl

theorem history_order_cons (c : ChunkId) :
    ((history P mgr (call :: calls) c).map Prod.fst).Pairwise (· ≤ ·)
      ↔ (call.renews P mgr c = true →
          ∀ t ∈ terms mgr c, t.1 ≤ call.applies)
        ∧ ((history P (call.step P mgr) calls c).map
            Prod.fst).Pairwise (· ≤ ·) := by
  cases hr : call.renews P mgr c with
  | false =>
      rw [history_same hr]
      exact ⟨fun h => ⟨fun hno => absurd hno Bool.false_ne_true, h⟩,
        fun h => h.2⟩
  | true =>
      obtain ⟨hb, -, hterms⟩ := terms_renewed hr
      rw [history, brought_renewed hr]
      cases hold : terms mgr c with
      | none => simp
      | some t =>
          -- the old terms stand before the renewed ones, and those first
          rw [history, hterms, ← List.isChain_iff_pairwise,
            ← List.isChain_iff_pairwise]
          simp [List.isChain_cons_cons]

theorem neverShortens_iff (P : Prims) (mgr : LeaseManager)
    (calls : List LeaseCall) :
    NeverShortens P mgr calls ↔ Ascending P mgr calls := by
  induction calls generalizing mgr with
  | nil =>
      constructor
      · intro _ c
        show (((terms mgr c).toList ++ []).map Prod.fst).Pairwise _
        cases terms mgr c <;> simp
      · intro _ k c lease lease' hget hget'
        rw [List.take_nil] at hget hget'
        rw [hget] at hget'
        obtain rfl := Option.some.inj hget'
        exact Nat.le_refl _
  | cons call rest ih =>
      rw [neverShortens_cons, step_keeps_iff, ih]
      unfold Ascending
      rw [← forall_and]
      exact forall_congr' fun c => (history_order_cons c).symm

/-- A call leaves a lease as it is exactly when it does not renew it, or
the terms are there already. -/
theorem step_silent_iff (hbeat : call.delivers = some hb) :
    (call.step P mgr).leases.get c = mgr.leases.get c
      ↔ (call.renews P mgr c = true →
        terms mgr c = some (call.applies, hb.contentPubKey)) := by
  cases hr : call.renews P mgr c with
  | false =>
      exact iff_of_true (step_same hr)
        fun hno => absurd hno Bool.false_ne_true
  | true =>
      obtain ⟨hb', hbeat', hnew⟩ := step_renewed hr
      obtain rfl := Option.some.inj (hbeat.symm.trans hbeat')
      have hacc := (accepts_of_writes
        ((renews_delivered hbeat).1 hr).2.2).2
      rw [hnew]
      unfold terms
      cases hget : mgr.leases.get c with
      | none => simp
      | some lease =>
          have htoken := ((accepts_of_get hget).1 hacc).1
          obtain ⟨d, t, token, key⟩ := lease
          subst htoken
          simp [stamp, eq_comm]

theorem replaysSilent_iff (P : Prims) (mgr : LeaseManager)
    (calls : List LeaseCall) :
    ReplaysSilent P mgr calls ↔ ReplaysCurrent P mgr calls := by
  constructor
  · intro h j k hb call call' hjk hj hk hfirst hagain c hr
    have hsame := h j k hb call call' hjk hj hk hfirst hagain c
    rw [calls_take_succ hk] at hsame
    rw [← terms_run]
    exact (step_silent_iff hagain).1 hsame hr
  · intro h j k hb call call' hjk hj hk hfirst hagain c
    rw [calls_take_succ hk]
    refine (step_silent_iff hagain).2 fun hr => ?_
    rw [terms_run]
    exact h j k hb call call' hjk hj hk hfirst hagain c hr

-- ==== any order at all

/-- A heartbeat is among those delivered. -/
def BeatDelivered (calls : List LeaseCall) (hb : Heartbeat) : Prop :=
  ∃ call ∈ calls, call.delivers = some hb

/-- Deliveries, late or not, with the holdings as they are throughout. A
nonce on record stays there while its heartbeat may still come, different
heartbeats have different nonces, those that name one chunk are of one
content, and the cap does not bite. -/
structure Orderly (P : Prims) (mgr : LeaseManager)
    (held : ChunkId → Bool) (calls : List LeaseCall) : Prop where
  remembered : ∀ j k hb call, j ≤ k → calls[k]? = some call →
    call.delivers = some hb →
    (run P mgr (calls.take j)).seenNonces.get hb.nonce ≠ none →
    (run P mgr (calls.take k)).seenNonces.get hb.nonce ≠ none
  nonces : ∀ hb hb', BeatDelivered calls hb → BeatDelivered calls hb' →
    hb.nonce = hb'.nonce → hb = hb'
  content : ∀ hb hb', BeatDelivered calls hb → BeatDelivered calls hb' →
    ∀ c ∈ hb.chunkIds, c ∈ hb'.chunkIds →
      hb.renewalToken = hb'.renewalToken
        ∧ hb.contentPubKey = hb'.contentPubKey
  leased : ∀ hb now, heartbeat hb now ∈ calls → ∀ c ∈ hb.chunkIds,
    held c = (mgr.leases.get c).isSome
  uncapped : ∀ hb now held', upsert hb now held' ∈ calls →
    held' = held
      ∧ hb.newExpiresAt ≤ satAdd now DEFAULT_LEASE_DURATION_SECS

/-- The expiry of a chunk's lease, where there is one. -/
def expiryOf (mgr : LeaseManager) (c : ChunkId) : Option Nat :=
  (mgr.leases.get c).map (·.expiresAt)

/-- Does a heartbeat renew the chunk's lease, if it comes first? -/
def due (P : Prims) (mgr : LeaseManager) (held : ChunkId → Bool)
    (c : ChunkId) (hb : Heartbeat) : Bool :=
  hb.verifySignature P && (mgr.seenNonces.get hb.nonce).isNone
    && mgr.writes hb held c

/-- The heartbeats that renew the chunk's lease, in the order of their
first delivery. -/
def firstDue (P : Prims) (mgr : LeaseManager) (held : ChunkId → Bool)
    (c : ChunkId) (calls : List LeaseCall) : List Heartbeat :=
  (calls.filterMap delivers).eraseDups.filter (due P mgr held c)

/-- The expiry brought by the last of them. -/
def lastDue (P : Prims) (mgr : LeaseManager) (held : ChunkId → Bool)
    (c : ChunkId) (calls : List LeaseCall) : Option Nat :=
  (firstDue P mgr held c calls).getLast?.map (·.newExpiresAt)

theorem due_iff {held : ChunkId → Bool} : due P mgr held c hb = true
    ↔ hb.verifySignature P = true ∧ mgr.seenNonces.get hb.nonce = none
      ∧ mgr.writes hb held c = true := by
  unfold due
  rw [Bool.and_eq_true, Bool.and_eq_true, Option.isNone_iff_eq_none,
    and_assoc]

theorem beatDelivered_iff :
    BeatDelivered calls hb ↔ hb ∈ calls.filterMap delivers := by
  rw [List.mem_filterMap]
  rfl

theorem mem_firstDue {held : ChunkId → Bool} :
    hb ∈ firstDue P mgr held c calls
      ↔ BeatDelivered calls hb ∧ due P mgr held c hb = true := by
  unfold firstDue
  rw [List.mem_filter, List.mem_eraseDups, beatDelivered_iff]

theorem beatDelivered_take {k : Nat} :
    BeatDelivered (calls.take k) hb
      ↔ ∃ j call, j < k ∧ calls[j]? = some call
        ∧ call.delivers = some hb := by
  constructor
  · rintro ⟨call, hmem, hbeat⟩
    obtain ⟨j, hj, rfl⟩ := List.mem_iff_getElem.1 hmem
    rw [List.length_take] at hj
    refine ⟨j, _, by omega, ?_, hbeat⟩
    rw [List.getElem_take]
    exact List.getElem?_eq_getElem (by omega)
  · rintro ⟨j, call, hjk, hcall, hbeat⟩
    refine ⟨call, ?_, hbeat⟩
    rw [List.mem_iff_getElem?]
    exact ⟨j, by rw [List.getElem?_take_of_lt hjk, hcall]⟩

/-- A delivery counts when it is the first of a heartbeat that is due. -/
theorem firstDue_concat {held : ChunkId → Bool}
    (hbeat : call.delivers = some hb) :
    firstDue P mgr held c (calls ++ [call])
      = firstDue P mgr held c calls
        ++ if hb ∈ calls.filterMap delivers then []
          else if due P mgr held c hb = true then [hb] else [] := by
  have hone : [call].filterMap delivers = [hb] := by simp [hbeat]
  unfold firstDue
  rw [List.filterMap_append, hone, List.eraseDups_append,
    List.filter_append]
  congr 1
  by_cases hmem : hb ∈ calls.filterMap delivers
  · have hgone : [hb].removeAll (calls.filterMap delivers) = [] := by
      rw [List.removeAll, List.filter_cons_of_neg (by simpa using hmem),
        List.filter_nil]
    rw [if_pos hmem, hgone]
    rfl
  · have hleft : [hb].removeAll (calls.filterMap delivers) = [hb] := by
      rw [List.removeAll, List.filter_cons_of_pos (by simpa using hmem),
        List.filter_nil]
    rw [if_neg hmem, hleft, List.eraseDups_cons, List.filter_nil,
      List.eraseDups_nil, List.filter_singleton]
    cases due P mgr held c hb <;> rfl

theorem firstDue_other {held : ChunkId → Bool}
    (hbeat : call.delivers = none) :
    firstDue P mgr held c (calls ++ [call])
      = firstDue P mgr held c calls := by
  unfold firstDue
  rw [List.filterMap_append]
  simp [hbeat]

theorem lastDue_isSome {held : ChunkId → Bool} :
    (lastDue P mgr held c calls).isSome = true
      ↔ ∃ hb, BeatDelivered calls hb ∧ due P mgr held c hb = true := by
  unfold lastDue
  rw [Option.isSome_map, List.getLast?_isSome]
  constructor
  · intro hne
    obtain ⟨hb, hmem⟩ := List.exists_mem_of_ne_nil _ hne
    exact ⟨hb, mem_firstDue.1 hmem⟩
  · rintro ⟨hb, hmem⟩
    exact List.ne_nil_of_mem (mem_firstDue.2 hmem)

theorem delivered_of_getElem {k : Nat} (h : calls[k]? = some call)
    (hbeat : call.delivers = some hb) : BeatDelivered calls hb :=
  ⟨call, List.mem_of_getElem? h, hbeat⟩

theorem accepts_congr {hb' : Heartbeat}
    (htoken : hb.renewalToken = hb'.renewalToken)
    (hkey : hb.contentPubKey = hb'.contentPubKey) (c : ChunkId) :
    mgr.accepts hb c = mgr.accepts hb' c := by
  unfold LeaseManager.accepts matchLeaseContentKey
  simp only [htoken, hkey]

/-- A call of the same content leaves open who is accepted. -/
theorem accepts_step (h : ∀ hb', call.delivers = some hb' →
      c ∈ hb'.chunkIds → hb.renewalToken = hb'.renewalToken
        ∧ hb.contentPubKey = hb'.contentPubKey) :
    (call.step P mgr).accepts hb c = mgr.accepts hb c := by
  cases hr : call.renews P mgr c with
  | false =>
      unfold LeaseManager.accepts
      rw [step_same hr]
  | true =>
      obtain ⟨hb', hbeat, hnew⟩ := step_renewed hr
      obtain ⟨-, -, hwrites⟩ := (renews_delivered hbeat).1 hr
      obtain ⟨hmem, hacc⟩ := accepts_of_writes hwrites
      obtain ⟨htoken, hkey⟩ := h hb' hbeat hmem
      -- it was accepted, and what it wrote is accepted again
      have hold : mgr.accepts hb c = true := by
        rw [accepts_congr htoken hkey]
        exact hacc
      rw [hold]
      unfold LeaseManager.accepts
      rw [hnew]
      unfold matchLeaseContentKey stamp
      dsimp only
      rw [htoken, hkey, beq_self_eq_true, Bool.true_and]
      by_cases hzero : hb'.contentPubKey = Bytes.zero 32
      · rw [if_pos hzero]
        rfl
      · rw [if_neg hzero, if_neg (not_not.2 rfl)]
        rfl

/-- After `k` calls: who is accepted is as at the start, and every expiry
is that of the last first delivery, or else the one at the start. -/
structure Followed (P : Prims) (mgr : LeaseManager)
    (held : ChunkId → Bool) (calls : List LeaseCall) (k : Nat) : Prop where
  accepts : ∀ hb, BeatDelivered calls hb → ∀ c ∈ hb.chunkIds,
    (run P mgr (calls.take k)).accepts hb c = mgr.accepts hb c
  expiry : ∀ c, expiryOf (run P mgr (calls.take k)) c
    = (lastDue P mgr held c (calls.take k)).or (expiryOf mgr c)

section Run

variable {held : ChunkId → Bool} {k : Nat}

theorem isSome_expiryOf (mgr : LeaseManager) (c : ChunkId) :
    (expiryOf mgr c).isSome = (mgr.leases.get c).isSome :=
  Option.isSome_map

/-- A chunk that is leased was so at the start, or it is held. -/
theorem Followed.leased (h : Followed P mgr held calls k) (c : ChunkId) :
    ((run P mgr (calls.take k)).leases.get c).isSome = true
      → (mgr.leases.get c).isSome = true ∨ held c = true := by
  rw [← isSome_expiryOf, ← isSome_expiryOf, h.expiry c, Option.isSome_or,
    Bool.or_eq_true]
  rintro (hlast | hstart)
  · obtain ⟨hb, -, hdue⟩ := lastDue_isSome.1 hlast
    exact .inr (mem_writes.1 (due_iff.1 hdue).2.2).1
  · exact .inl hstart

theorem Followed.keeps (h : Followed P mgr held calls k) (c : ChunkId)
    (hsome : (mgr.leases.get c).isSome = true) :
    ((run P mgr (calls.take k)).leases.get c).isSome = true := by
  rw [← isSome_expiryOf] at hsome ⊢
  rw [h.expiry c, Option.isSome_or, hsome, Bool.or_true]

theorem Followed.init : Followed P mgr held calls 0 :=
  ⟨fun _ _ _ _ => rfl, fun _ => rfl⟩

/-- A nonce on record was so at the start, or its heartbeat came. -/
theorem seen_run (n : Bytes 32) : ∀ k,
    (run P mgr (calls.take k)).seenNonces.get n ≠ none →
      mgr.seenNonces.get n ≠ none
        ∨ ∃ hb, BeatDelivered (calls.take k) hb ∧ hb.nonce = n := by
  intro k
  induction k with
  | zero => exact fun h => .inl h
  | succ k ih =>
      cases hcall : calls[k]? with
      | none =>
          have hlen := List.getElem?_eq_none_iff.1 hcall
          rw [List.take_of_length_le hlen] at ih
          rw [List.take_of_length_le (Nat.le_succ_of_le hlen)]
          exact ih
      | some call =>
          rw [calls_take_succ hcall]
          intro h
          rcases step_recorded h with hold | ⟨hb, hbeat, hn⟩
          · rcases ih hold with hstart | ⟨hb, hmem, hn⟩
            · exact .inl hstart
            · obtain ⟨j, call', hj, hcall', hbeat⟩ :=
                beatDelivered_take.1 hmem
              exact .inr ⟨hb, beatDelivered_take.2
                ⟨j, call', Nat.lt_succ_of_lt hj, hcall', hbeat⟩, hn⟩
          · exact .inr ⟨hb, beatDelivered_take.2
              ⟨k, call, Nat.lt_succ_self k, hcall, hbeat⟩, hn⟩

/-- A delivery counts when it is the heartbeat's first. -/
theorem Orderly.renews_iff (h : Orderly P mgr held calls)
    (hj : Followed P mgr held calls k) (hcall : calls[k]? = some call)
    (hbeat : call.delivers = some hb) (c : ChunkId) :
    call.renews P (run P mgr (calls.take k)) c = true
      ↔ ¬ BeatDelivered (calls.take k) hb ∧ due P mgr held c hb = true
      := by
  have hdel := delivered_of_getElem hcall hbeat
  rw [renews_delivered hbeat, due_iff]
  have hcovers : ∀ d ∈ hb.chunkIds,
      call.covers (run P mgr (calls.take k)) d = held d := by
    intro d hd
    cases call with
    | heartbeat hb' now =>
        obtain rfl := Option.some.inj hbeat
        have hheld := h.leased hb' now (List.mem_of_getElem? hcall) d hd
        show ((run P mgr (calls.take k)).leases.get d).isSome = held d
        rw [hheld]
        by_cases hsome : (mgr.leases.get d).isSome = true
        · rw [hj.keeps d hsome, hsome]
        · rw [Bool.not_eq_true] at hsome
          rw [hsome, Bool.eq_false_iff]
          intro hnow
          rcases hj.leased d hnow with hd' | hd'
          · rw [hsome] at hd'
            cases hd'
          · rw [hheld, hsome] at hd'
            cases hd'
    | upsert hb' now held' =>
        show held' d = held d
        rw [(h.uncapped hb' now held' (List.mem_of_getElem? hcall)).1]
    | cleanup now => cases hbeat
  have hwrites : (run P mgr (calls.take k)).writes hb
      (call.covers (run P mgr (calls.take k))) c
      = mgr.writes hb held c := by
    refine writes_congr ?_ c
    intro d hd
    exact ⟨hcovers d hd, hj.accepts hb hdel d hd⟩
  rw [hwrites]
  constructor
  · rintro ⟨hsig, hseen, hw⟩
    refine ⟨?_, hsig, ?_, hw⟩
    · intro hmem
      -- it came before, so its nonce is still on record
      obtain ⟨j, call', hjk, hcall', hbeat'⟩ := beatDelivered_take.1 hmem
      have hrec : (call'.step P (run P mgr (calls.take j))).seenNonces.get
          hb.nonce ≠ none := step_records hbeat' hsig
      rw [← calls_take_succ hcall'] at hrec
      exact h.remembered (j + 1) k hb call hjk hcall hbeat hrec hseen
    · by_contra hstart
      exact h.remembered 0 k hb call (Nat.zero_le k) hcall hbeat hstart
        hseen
  · rintro ⟨hnew, hsig, hseen, hw⟩
    refine ⟨hsig, ?_, hw⟩
    by_contra hrec
    rcases seen_run hb.nonce k hrec with hstart | ⟨hb', hmem, hn⟩
    · exact hstart hseen
    · obtain ⟨j, call', -, hcall', hbeat'⟩ := beatDelivered_take.1 hmem
      have hsame := h.nonces hb' hb (delivered_of_getElem hcall' hbeat')
        hdel hn
      rw [hsame] at hmem
      exact hnew hmem

/-- Uncapped, a call writes the heartbeat's own expiry. -/
theorem Orderly.applies (h : Orderly P mgr held calls)
    (hcall : calls[k]? = some call) (hbeat : call.delivers = some hb) :
    call.applies = hb.newExpiresAt := by
  cases call with
  | heartbeat hb' now =>
      obtain rfl := Option.some.inj hbeat
      rfl
  | upsert hb' now held' =>
      obtain rfl := Option.some.inj hbeat
      exact Nat.min_eq_left
        (h.uncapped hb' now held' (List.mem_of_getElem? hcall)).2
  | cleanup now => cases hbeat

theorem Orderly.followed_step (h : Orderly P mgr held calls)
    (hj : Followed P mgr held calls k) :
    Followed P mgr held calls (k + 1) := by
  cases hcall : calls[k]? with
  | none =>
      have hlen := List.getElem?_eq_none_iff.1 hcall
      have hsame : calls.take (k + 1) = calls.take k := by
        rw [List.take_of_length_le hlen,
          List.take_of_length_le (Nat.le_succ_of_le hlen)]
      constructor
      · rw [hsame]
        exact hj.accepts
      · rw [hsame]
        exact hj.expiry
  | some call =>
      have hrun : run P mgr (calls.take (k + 1))
          = call.step P (run P mgr (calls.take k)) := calls_take_succ hcall
      have htake : calls.take (k + 1) = calls.take k ++ [call] := by
        rw [List.take_add_one, hcall]
        rfl
      constructor
      · intro hb hdel c hc
        rw [hrun, accepts_step, hj.accepts hb hdel c hc]
        intro hb' hbeat hc'
        exact h.content hb hb' hdel (delivered_of_getElem hcall hbeat) c hc
          hc'
      · intro c
        have hexp := hj.expiry c
        rw [hrun, htake]
        unfold lastDue at hexp ⊢
        cases hbeat : call.delivers with
        | none =>
            have hr : call.renews P (run P mgr (calls.take k)) c
                = false := by
              unfold renews
              rw [hbeat]
            rw [firstDue_other hbeat, ← hexp]
            unfold expiryOf
            rw [step_same hr]
        | some hb =>
            have hr := h.renews_iff hj hcall hbeat c
            rw [beatDelivered_iff] at hr
            rw [firstDue_concat hbeat]
            by_cases hren : call.renews P (run P mgr (calls.take k)) c
                = true
            · obtain ⟨hnew, hdue⟩ := hr.1 hren
              obtain ⟨_, -, hlease⟩ := step_renewed hren
              rw [if_neg hnew, if_pos hdue, List.getLast?_concat]
              unfold expiryOf
              rw [hlease]
              exact congrArg some (h.applies hcall hbeat)
            · have hsame : expiryOf (call.step P
                  (run P mgr (calls.take k))) c
                  = expiryOf (run P mgr (calls.take k)) c := by
                unfold expiryOf
                rw [step_same (Bool.not_eq_true _ ▸ hren)]
              rw [hsame, hexp]
              rw [hr, not_and] at hren
              by_cases hmem : hb ∈ (calls.take k).filterMap delivers
              · rw [if_pos hmem, List.append_nil]
              · rw [if_neg hmem, if_neg (hren hmem), List.append_nil]

theorem Orderly.followed (h : Orderly P mgr held calls) :
    ∀ k, Followed P mgr held calls k := by
  intro k
  induction k with
  | zero => exact Followed.init
  | succ k ih => exact h.followed_step ih

/-- The expiries at the end: that of the last first delivery, or else the
one at the start. -/
theorem Orderly.expiryOf_run (h : Orderly P mgr held calls) (c : ChunkId) :
    expiryOf (run P mgr calls) c
      = (lastDue P mgr held c calls).or (expiryOf mgr c) := by
  have hall := (h.followed calls.length).expiry c
  rwa [List.take_length] at hall

end Run

/-- The same deliveries leave the same expiry exactly when the last first
delivery brings the same one. -/
theorem expiryOf_run_iff {held : ChunkId → Bool}
    {calls' : List LeaseCall} (h : Orderly P mgr held calls)
    (h' : Orderly P mgr held calls')
    (hsame : ∀ hb, BeatDelivered calls hb ↔ BeatDelivered calls' hb) :
    expiryOf (run P mgr calls) c = expiryOf (run P mgr calls') c
      ↔ lastDue P mgr held c calls = lastDue P mgr held c calls' := by
  have hboth : (lastDue P mgr held c calls).isSome = true
      ↔ (lastDue P mgr held c calls').isSome = true := by
    rw [lastDue_isSome, lastDue_isSome]
    exact exists_congr fun hb => and_congr_left fun _ => hsame hb
  rw [h.expiryOf_run, h'.expiryOf_run]
  cases hl : lastDue P mgr held c calls with
  | none =>
      cases hl' : lastDue P mgr held c calls' with
      | none => simp
      | some t => simp [hl, hl'] at hboth
  | some t =>
      cases hl' : lastDue P mgr held c calls' with
      | none => simp [hl, hl'] at hboth
      | some t' => simp

/-- When renewals never shorten a lease. A run takes no time off a lease
exactly when the heartbeats processed for each chunk come in the order of
their expiries, behind the lease at the start; a heartbeat that comes
again changes nothing exactly when it is not processed, or what came last
for the chunk is the same; and two runs that deliver the same heartbeats,
each any number of times and in any order, late ones among them, leave
the same expiry exactly when the last one to come for the first time
brings the same. -/
theorem renewals_never_shorten_iff (P : Prims) (mgr : LeaseManager) :
    (∀ calls, NeverShortens P mgr calls ↔ Ascending P mgr calls)
      ∧ (∀ calls, ReplaysSilent P mgr calls
          ↔ ReplaysCurrent P mgr calls)
      ∧ ∀ held calls calls', Orderly P mgr held calls →
        Orderly P mgr held calls' →
        (∀ hb, BeatDelivered calls hb ↔ BeatDelivered calls' hb) →
        ∀ c, expiryOf (run P mgr calls) c = expiryOf (run P mgr calls') c
          ↔ lastDue P mgr held c calls = lastDue P mgr held c calls' := by
  refine ⟨neverShortens_iff P mgr, replaysSilent_iff P mgr, ?_⟩
  intro held calls calls' h h' hsame c
  exact expiryOf_run_iff h h' hsame

-- ==== one owner, concretely

/-- An owner of one content with one chunk. -/
def contentOwner : LeaseManager :=
  LeaseManager.new.registerOwnedContent (Bytes.fill 32 3) (Bytes.fill 32 5)
    [Bytes.fill 32 9]

/-- The heartbeat it creates. -/
def ownerBeat (now : Nat) (draw : UInt8) : Heartbeat :=
  (Heartbeat.new (Bytes.fill 32 5) [Bytes.fill 32 9]
    DEFAULT_LEASE_DURATION_SECS now (Bytes.fill 32 draw)).sign Prims.plain
      (Bytes.fill 32 4)

theorem ownerBeat_created (now : Nat) (draw : UInt8) :
    contentOwner.createHeartbeat Prims.plain (Bytes.fill 32 3)
        DEFAULT_LEASE_DURATION_SECS (Bytes.fill 32 4) now
        (Bytes.fill 32 draw) = .ok (ownerBeat now draw) := rfl

theorem ownerBeat_token (now : Nat) (draw : UInt8) :
    (ownerBeat now draw).renewalToken = Bytes.fill 32 5 := rfl

theorem ownerBeat_key (now : Nat) (draw : UInt8) :
    (ownerBeat now draw).contentPubKey
      = Prims.plain.edPublic (Bytes.fill 32 4) := rfl

theorem ownerBeat_expires (now : Nat) (draw : UInt8) :
    (ownerBeat now draw).newExpiresAt
      = now + DEFAULT_LEASE_DURATION_SECS := rfl

/-- Its delivery to a holder of every chunk. -/
def beatCall (sentAt : Nat) (draw : UInt8) (now : Nat) : LeaseCall :=
  .upsert (ownerBeat sentAt draw) now fun _ => true

/-- When three of its heartbeats are made, and the draw of each. -/
def sentBeats : List (Nat × UInt8) := [(1000, 7), (1500, 6), (2000, 8)]

theorem sentBeats_range : ∀ b ∈ sentBeats, 0 < b.1 ∧ b.1 ≤ 2000 := by
  decide

theorem sentBeats_nonces : ∀ b ∈ sentBeats, ∀ b' ∈ sentBeats,
    Bytes.fill 32 b.2 = Bytes.fill 32 b'.2 → b = b' := by decide

/-- A delivery of one of the three, or a cleanup within the first day. -/
def FirstDay (call : LeaseCall) : Prop :=
  (∃ now, now ≤ DEFAULT_LEASE_DURATION_SECS ∧ call = .cleanup now)
    ∨ ∃ b ∈ sentBeats, ∃ now, b.1 ≤ now ∧ call = beatCall b.1 b.2 now

/-- Every nonce on record has a time after zero. -/
def Dated (mgr : LeaseManager) : Prop :=
  ∀ n t, mgr.seenNonces.get n = some t → 0 < t

theorem upsert_seenNonces (hb : Heartbeat) (now : Nat)
    (held : ChunkId → Bool) :
    ((upsert hb now held).step P mgr).seenNonces = mgr.seenNonces
      ∨ ((upsert hb now held).step P mgr).seenNonces
        = mgr.seenNonces.insert hb.nonce now := by
  show (mgr.processHeartbeatUpsert P hb now held).2.seenNonces = _
    ∨ (mgr.processHeartbeatUpsert P hb now held).2.seenNonces = _
  unfold processHeartbeatUpsert
  by_cases hsig : hb.verifySignature P = true
  · cases hseen : mgr.seenNonces.get hb.nonce with
    | some t => simp [hsig]
    | none =>
        right
        simp only [hsig, Bool.not_true, Bool.false_eq_true, if_false]
        exact upsertLoop_seenNonces hb _ _ _ _
  · simp [hsig]

/-- Nothing is forgotten on the first day. -/
theorem FirstDay.step (h : FirstDay call) (hd : Dated mgr) :
    Dated (call.step P mgr) ∧ ∀ n, mgr.seenNonces.get n ≠ none →
      (call.step P mgr).seenNonces.get n ≠ none := by
  rcases h with ⟨now, hnow, rfl⟩ | ⟨b, hb, now, hle, rfl⟩
  · have hsame : ∀ n, ((cleanup now).step P mgr).seenNonces.get n
        = mgr.seenNonces.get n := by
      intro n
      show (mgr.seenNonces.retain _).get n = _
      rw [FMap.get_retain, Nat.sub_eq_zero_of_le hnow]
      cases hget : mgr.seenNonces.get n with
      | none => rfl
      | some t => exact Option.filter_some_pos (decide_eq_true (hd n t hget))
    exact ⟨fun n t => hsame n ▸ hd n t, fun n => hsame n ▸ id⟩
  · have hpos : 0 < now := Nat.lt_of_lt_of_le (sentBeats_range b hb).1 hle
    rcases @upsert_seenNonces P mgr (ownerBeat b.1 b.2) now fun _ => true
      with hsame | hnew
    · unfold Dated beatCall
      rw [hsame]
      exact ⟨hd, fun _ => id⟩
    · unfold Dated beatCall
      rw [hnew]
      constructor
      · intro n t hget
        rw [FMap.get_insert] at hget
        split at hget
        · obtain rfl := Option.some.inj hget
          exact hpos
        · exact hd n t hget
      · intro n hn
        rw [FMap.get_insert]
        split
        · exact Option.some_ne_none now
        · exact hn

theorem Dated.run (hcalm : ∀ call ∈ calls, FirstDay call) (hd : Dated mgr) :
    Dated (run P mgr calls) ∧ ∀ n, mgr.seenNonces.get n ≠ none →
      (run P mgr calls).seenNonces.get n ≠ none := by
  induction calls generalizing mgr with
  | nil => exact ⟨hd, fun _ => id⟩
  | cons call rest ih =>
      obtain ⟨hd', hkeep⟩ :=
        (hcalm call List.mem_cons_self).step (P := P) hd
      obtain ⟨hend, hrest⟩ :=
        ih (fun c hc => hcalm c (List.mem_cons_of_mem _ hc)) hd'
      exact ⟨hend, fun n hn => hrest n (hkeep n hn)⟩

theorem FirstDay.delivers (h : FirstDay call) (hbeat : call.delivers = some hb) :
    ∃ b ∈ sentBeats, hb = ownerBeat b.1 b.2 := by
  rcases h with ⟨now, -, rfl⟩ | ⟨b, hb, now, -, rfl⟩
  · cases hbeat
  · exact ⟨b, hb, (Option.some.inj hbeat).symm⟩

/-- The three, in any order, any number of times. -/
theorem firstDay_orderly (hcalm : ∀ call ∈ calls, FirstDay call) :
    Orderly Prims.plain LeaseManager.new (fun _ => true) calls := by
  have hsent : ∀ hb, BeatDelivered calls hb →
      ∃ b ∈ sentBeats, hb = ownerBeat b.1 b.2 := by
    rintro hb ⟨call, hmem, hbeat⟩
    exact (hcalm call hmem).delivers hbeat
  constructor
  · intro j k hb call hjk _ _ hseen
    have hsplit : calls.take k
        = calls.take j ++ (calls.drop j).take (k - j) := by
      rw [← List.take_add, Nat.add_sub_cancel' hjk]
    rw [hsplit, run, List.foldl_append]
    have hstart : Dated LeaseManager.new := nofun
    refine (Dated.run ?_ (Dated.run ?_ hstart).1).2 hb.nonce hseen
    · exact fun c hc =>
        hcalm c (List.mem_of_mem_drop (List.mem_of_mem_take hc))
    · exact fun c hc => hcalm c (List.mem_of_mem_take hc)
  · intro hb hb' hdel hdel' hn
    obtain ⟨b, hmem, rfl⟩ := hsent hb hdel
    obtain ⟨b', hmem', rfl⟩ := hsent hb' hdel'
    rw [sentBeats_nonces b hmem b' hmem' hn]
  · intro hb hb' hdel hdel' c _ _
    obtain ⟨b, -, rfl⟩ := hsent hb hdel
    obtain ⟨b', -, rfl⟩ := hsent hb' hdel'
    rw [ownerBeat_token, ownerBeat_token, ownerBeat_key, ownerBeat_key]
    exact ⟨rfl, rfl⟩
  · intro hb now hmem
    rcases hcalm _ hmem with ⟨_, _, heq⟩ | ⟨_, _, _, _, heq⟩ <;> cases heq
  · intro hb now held' hmem
    rcases hcalm _ hmem with ⟨_, _, heq⟩ | ⟨b, _, now', hle, heq⟩
    · cases heq
    · obtain ⟨rfl, rfl, rfl⟩ := LeaseCall.upsert.inj heq
      refine ⟨rfl, ?_⟩
      have hsmall := (sentBeats_range b ‹_›).2
      rw [ownerBeat_expires]
      unfold satAdd U64_MAX DEFAULT_LEASE_DURATION_SECS
      omega

/-- The heartbeats as they were sent, the first one twice. -/
def inTurn : List LeaseCall :=
  [beatCall 1000 7 1001, .cleanup 1200, beatCall 1500 6 1501,
    beatCall 2000 8 2001, beatCall 1000 7 2002]

/-- The first one behind the second, which comes once more at the end. -/
def outOfTurn : List LeaseCall :=
  [beatCall 1500 6 1501, beatCall 1000 7 1600, beatCall 2000 8 2001,
    .cleanup 3000, beatCall 1500 6 3001]

/-- Both ways the newest comes last, and the lease ends with it. -/
theorem renewals_never_shorten_late :
    expiryOf (run Prims.plain LeaseManager.new inTurn) (Bytes.fill 32 9)
      = expiryOf (run Prims.plain LeaseManager.new outOfTurn)
        (Bytes.fill 32 9) := by
  refine ((renewals_never_shorten_iff Prims.plain LeaseManager.new).2.2
    (fun _ => true) inTurn outOfTurn (firstDay_orderly ?_) (firstDay_orderly ?_) ?_
    _).2 ?_
  · intro call hcall
    simp only [inTurn, List.mem_cons, List.not_mem_nil, or_false] at hcall
    rcases hcall with rfl | rfl | rfl | rfl | rfl
    · exact .inr ⟨(1000, 7), by decide, 1001, by decide, rfl⟩
    · exact .inl ⟨1200, by decide, rfl⟩
    · exact .inr ⟨(1500, 6), by decide, 1501, by decide, rfl⟩
    · exact .inr ⟨(2000, 8), by decide, 2001, by decide, rfl⟩
    · exact .inr ⟨(1000, 7), by decide, 2002, by decide, rfl⟩
  · intro call hcall
    simp only [outOfTurn, List.mem_cons, List.not_mem_nil, or_false]
      at hcall
    rcases hcall with rfl | rfl | rfl | rfl | rfl
    · exact .inr ⟨(1500, 6), by decide, 1501, by decide, rfl⟩
    · exact .inr ⟨(1000, 7), by decide, 1600, by decide, rfl⟩
    · exact .inr ⟨(2000, 8), by decide, 2001, by decide, rfl⟩
    · exact .inl ⟨3000, by decide, rfl⟩
    · exact .inr ⟨(1500, 6), by decide, 3001, by decide, rfl⟩
  · intro hb
    rw [beatDelivered_iff, beatDelivered_iff]
    show hb ∈ [ownerBeat 1000 7, ownerBeat 1500 6, ownerBeat 2000 8,
        ownerBeat 1000 7]
      ↔ hb ∈ [ownerBeat 1500 6, ownerBeat 1000 7, ownerBeat 2000 8,
        ownerBeat 1500 6]
    simp only [List.mem_cons, List.not_mem_nil, or_false]
    tauto
  · decide +kernel

/-- Two heartbeats of one owner, the later first; and the earlier one
again once its nonce was cleaned up, when it has lapsed. -/
theorem renewals_shorten :
    (∀ now draw, contentOwner.createHeartbeat Prims.plain
        (Bytes.fill 32 3) DEFAULT_LEASE_DURATION_SECS (Bytes.fill 32 4)
        now (Bytes.fill 32 draw) = .ok (ownerBeat now draw))
      ∧ ¬ NeverShortens Prims.plain LeaseManager.new
        [beatCall 2000 8 2001, beatCall 1000 7 2002]
      ∧ ¬ NeverShortens Prims.plain LeaseManager.new
        [beatCall 1000 7 1001, beatCall 2000 8 2001, .cleanup 87401,
          beatCall 1000 7 87402]
      ∧ ¬ ReplaysSilent Prims.plain LeaseManager.new
        [beatCall 1000 7 1001, beatCall 2000 8 2001, .cleanup 87401,
          beatCall 1000 7 87402] := by
  refine ⟨ownerBeat_created, ?_, ?_, ?_⟩
  · intro h
    have hlate := h 1 (Bytes.fill 32 9) _ _ rfl rfl
    exact absurd hlate (by decide)
  · intro h
    have hagain := h 3 (Bytes.fill 32 9) _ _ rfl rfl
    exact absurd hagain (by decide)
  · intro h
    have hsame := h 0 3 _ _ _ (by decide) rfl rfl rfl rfl (Bytes.fill 32 9)
    have hexp := congrArg (Option.map (·.expiresAt)) hsame
    exact absurd hexp (by decide)
end StaticNet
