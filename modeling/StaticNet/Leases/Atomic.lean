/-
Heartbeats that are refused half way
(`static-storage/src/heartbeat.rs`).

A heartbeat consumes its nonce and then goes through its list; the token
and the owner of each lease are checked when its turn comes. So a refusal
inside the list comes after the nonce is recorded and after the chunks
before it are renewed, and the same heartbeat cannot be sent again. A list
that is gone through renews exactly what it answers
(`all_or_nothing_iff`).
-/
import StaticNet.Leases.Delivery

namespace StaticNet

open LeaseManager

-- ========== one call

namespace BeatCall

/-- The call with its answer. -/
def result (P : Prims) (mgr : LeaseManager) :
    BeatCall → Except HeartbeatError (List ChunkId) × LeaseManager
  | heartbeat hb now => mgr.processHeartbeat P hb now
  | upsert hb now held => mgr.processHeartbeatUpsert P hb now held

/-- The chunks it looks at: those with a lease, or those held. -/
def looksAt (mgr : LeaseManager) : BeatCall → ChunkId → Bool
  | heartbeat _ _, c => (mgr.leases.get c).isSome
  | upsert _ _ held, c => held c

/-- The expiry it writes; only the upsert caps it. -/
def expiry : BeatCall → Nat
  | heartbeat hb _ => hb.newExpiresAt
  | upsert hb now _ => cappedExpiry hb now

/-- The clock it reads. -/
def time : BeatCall → Nat
  | heartbeat _ now => now
  | upsert _ now _ => now

/-- The heartbeat verifies and its nonce is not on record. -/
def Admitted (P : Prims) (mgr : LeaseManager) (call : BeatCall) : Prop :=
  call.beat.verifySignature P = true
    ∧ mgr.seenNonces.get call.beat.nonce = none

end BeatCall

/-- A call that fails leaves the manager as it was; one that answers a list
has given each chunk on it a lease as the heartbeat writes it, and no other
chunk's lease has changed. -/
structure AllOrNothing (P : Prims) (mgr : LeaseManager) (call : BeatCall) :
    Prop where
  nothing : ∀ e, (call.result P mgr).1 = .error e →
    (∀ c, (call.result P mgr).2.leases.get c = mgr.leases.get c)
      ∧ ∀ n, (call.result P mgr).2.seenNonces.get n = mgr.seenNonces.get n
  all : ∀ renewed, (call.result P mgr).1 = .ok renewed →
    (∀ c ∈ renewed, ∃ lease,
      (call.result P mgr).2.leases.get c = some lease
        ∧ Stamped call.beat call.expiry lease)
      ∧ ∀ c, c ∉ renewed →
        (call.result P mgr).2.leases.get c = mgr.leases.get c

variable {P : Prims} {mgr : LeaseManager} {call : BeatCall}

/-- A heartbeat that is not admitted is refused before anything. -/
theorem result_not_admitted (h : ¬call.Admitted P mgr) :
    ∃ e, call.result P mgr = (.error e, mgr) := by
  have hrefused : ∀ hb : Heartbeat, ¬(hb.verifySignature P = true
      ∧ mgr.seenNonces.get hb.nonce = none) →
      (hb.verifySignature P = false
        ∨ hb.verifySignature P = true
          ∧ ∃ t, mgr.seenNonces.get hb.nonce = some t) := by
    intro hb hnot
    cases hsig : hb.verifySignature P with
    | false => exact Or.inl rfl
    | true =>
        rw [hsig] at hnot
        exact Or.inr ⟨rfl, Option.ne_none_iff_exists'.1
          fun hnone => hnot ⟨rfl, hnone⟩⟩
  cases call with
  | heartbeat hb now =>
      rcases hrefused hb h with hsig | ⟨hsig, t, hseen⟩
      · refine ⟨.invalidSignature, ?_⟩
        simp [BeatCall.result, processHeartbeat, hsig]
      · refine ⟨.replayDetected t, ?_⟩
        simp [BeatCall.result, processHeartbeat, hsig, hseen]
  | upsert hb now held =>
      rcases hrefused hb h with hsig | ⟨hsig, t, hseen⟩
      · refine ⟨.invalidSignature, ?_⟩
        simp [BeatCall.result, processHeartbeatUpsert, hsig]
      · refine ⟨.replayDetected t, ?_⟩
        simp [BeatCall.result, processHeartbeatUpsert, hsig, hseen]

/-- An admitted one records its nonce and goes through its list. -/
theorem result_admitted (h : call.Admitted P mgr) :
    call.result P mgr
      = upsertLoop call.beat call.expiry (call.looksAt mgr)
        call.beat.chunkIds
        { mgr with
          seenNonces := mgr.seenNonces.insert call.beat.nonce call.time }
        [] := by
  obtain ⟨hsig, hseen⟩ := h
  cases call with
  | heartbeat hb now =>
      simp only [BeatCall.beat] at hsig hseen
      simp only [BeatCall.result, processHeartbeat, hsig, Bool.not_true,
        Bool.false_eq_true, if_false, hseen]
      exact renewLoop_eq hb _ _ _ fun _ => rfl
  | upsert hb now held =>
      simp only [BeatCall.beat] at hsig hseen
      simp only [BeatCall.result, processHeartbeatUpsert, hsig,
        Bool.not_true, Bool.false_eq_true, if_false, hseen]
      rfl

/-- What an answer says is what was done. -/
theorem all_of_ok (P : Prims) (mgr : LeaseManager) (call : BeatCall)
    {renewed : List ChunkId} (hok : (call.result P mgr).1 = .ok renewed) :
    (∀ c ∈ renewed, ∃ lease,
      (call.result P mgr).2.leases.get c = some lease
        ∧ Stamped call.beat call.expiry lease)
      ∧ ∀ c, c ∉ renewed →
        (call.result P mgr).2.leases.get c = mgr.leases.get c := by
  by_cases hadmitted : call.Admitted P mgr
  swap
  · obtain ⟨e, he⟩ := result_not_admitted hadmitted
    rw [he] at hok
    cases hok
  rw [result_admitted hadmitted] at hok ⊢
  obtain ⟨hfails, hanswers⟩ := upsertLoop_result (call.looksAt mgr)
    call.beat call.expiry call.beat.chunkIds
    { mgr with
      seenNonces := mgr.seenNonces.insert call.beat.nonce call.time } []
  cases hrefuses : mgr.refuses call.beat (call.looksAt mgr)
      call.beat.chunkIds with
  | true =>
      obtain ⟨e, he⟩ := hfails hrefuses
      rw [he] at hok
      cases hok
  | false =>
      rw [hanswers hrefuses, List.nil_append] at hok
      cases hok
      have hreached := reached_of_not_refuses hrefuses
      constructor
      · intro c hc
        obtain ⟨hmem, hlooks⟩ := List.mem_filter.1 hc
        refine ⟨_, ?_, stamp_stamped call.beat call.expiry c
          (mgr.leases.get c)⟩
        rw [upsertLoop_get]
        exact if_pos ⟨hlooks, by
          exact (congrArg (fun l => c ∈ l) hreached).mpr hmem⟩
      · intro c hc
        rw [upsertLoop_get, if_neg]
        rintro ⟨hlooks, hmem⟩
        have hlisted : c ∈ call.beat.chunkIds :=
          (congrArg (fun l => c ∈ l) hreached).mp hmem
        exact hc (List.mem_filter.2 ⟨hlisted, hlooks⟩)

/-- Whatever comes of it, an admitted heartbeat has used its nonce. -/
theorem result_nonce (h : call.Admitted P mgr) :
    (call.result P mgr).2.seenNonces.get call.beat.nonce
      = some call.time := by
  rw [result_admitted h, upsertLoop_seenNonces]
  exact FMap.get_insert_self _ _ _

/-- A heartbeat is all or nothing unless it is admitted and a chunk on its
list refuses it. -/
theorem all_or_nothing_iff (P : Prims) (mgr : LeaseManager)
    (call : BeatCall) :
    AllOrNothing P mgr call
      ↔ ¬(call.Admitted P mgr
        ∧ ∃ c ∈ call.beat.chunkIds, call.looksAt mgr c = true
          ∧ mgr.accepts call.beat c = false) := by
  have hrefuses : (∃ c ∈ call.beat.chunkIds, call.looksAt mgr c = true
      ∧ mgr.accepts call.beat c = false)
      ↔ mgr.refuses call.beat (call.looksAt mgr) call.beat.chunkIds
        = true := by
    simp [refuses, List.any_eq_true]
  rw [hrefuses]
  by_cases hadmitted : call.Admitted P mgr
  swap
  · refine iff_of_true ⟨fun e _ => ?_, fun _ => all_of_ok P mgr call⟩
      fun h => hadmitted h.1
    obtain ⟨e, he⟩ := result_not_admitted hadmitted
    rw [he]
    exact ⟨fun _ => rfl, fun _ => rfl⟩
  obtain ⟨hfails, hanswers⟩ := upsertLoop_result (call.looksAt mgr)
    call.beat call.expiry call.beat.chunkIds
    { mgr with
      seenNonces := mgr.seenNonces.insert call.beat.nonce call.time } []
  rw [← result_admitted hadmitted] at hfails hanswers
  cases href : mgr.refuses call.beat (call.looksAt mgr)
      call.beat.chunkIds with
  | true =>
      refine iff_of_false (fun h => ?_) fun h => h ⟨hadmitted, rfl⟩
      obtain ⟨e, he⟩ := hfails href
      have hsame := (h.nothing e he).2 call.beat.nonce
      rw [result_nonce hadmitted, hadmitted.2] at hsame
      cases hsame
  | false =>
      refine iff_of_true ⟨fun e he => ?_, fun _ => all_of_ok P mgr call⟩
        fun h => by cases h.2
      rw [hanswers href] at he
      cases he

/-- A holder with another owner's lease on one chunk. -/
def otherLease : LeaseManager :=
  LeaseManager.new.addLease (Bytes.fill 32 7)
    { chunkId := Bytes.fill 32 7
      expiresAt := 5000
      renewalToken := Bytes.fill 32 1
      contentPubKey := Bytes.fill 32 2 }

/-- A signed heartbeat over an own chunk and that one. -/
def mixedBeat : Heartbeat :=
  (Heartbeat.new (Bytes.fill 32 5) [Bytes.fill 32 9, Bytes.fill 32 7]
    DEFAULT_LEASE_DURATION_SECS 1000 (Bytes.fill 32 6)).sign Prims.plain
      (Bytes.fill 32 4)

theorem mixedBeat_admitted :
    (BeatCall.upsert mixedBeat 1001 fun _ => true).Admitted Prims.plain
      otherLease :=
  ⟨Prims.plain_signsVerify (Bytes.fill 32 4) _, rfl⟩

/-- The first chunk has its lease when the second refuses; and the same
heartbeat is a replay from then on. -/
theorem refused_half_way :
    ∃ mgr', (BeatCall.upsert mixedBeat 1001 fun _ => true).result
        Prims.plain otherLease = (.error .invalidToken, mgr')
      ∧ otherLease.leases.get (Bytes.fill 32 9) = none
      ∧ (mgr'.leases.get (Bytes.fill 32 9)).isSome = true
      ∧ ((BeatCall.upsert mixedBeat 1002 fun _ => true).result Prims.plain
        mgr').1 = .error (.replayDetected 1001)
      ∧ ¬AllOrNothing Prims.plain otherLease
        (.upsert mixedBeat 1001 fun _ => true) := by
  have hres := result_admitted mixedBeat_admitted
  have hstop : (BeatCall.upsert mixedBeat 1001 fun _ => true).result
      Prims.plain otherLease = (.error .invalidToken, _) := hres.trans rfl
  refine ⟨_, hstop, rfl, rfl, ?_, fun h => ?_⟩
  · have hsig : mixedBeat.verifySignature Prims.plain = true :=
      mixedBeat_admitted.1
    simp only [BeatCall.result, processHeartbeatUpsert, hsig, Bool.not_true,
      Bool.false_eq_true, if_false]
    rfl
  · have hsame := (h.nothing _ (congrArg Prod.fst hstop)).2
      (Bytes.fill 32 6)
    rw [hstop] at hsame
    cases hsame

end StaticNet
