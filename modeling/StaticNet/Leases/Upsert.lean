/-
The loop of `process_heartbeat_upsert`
(`static-storage/src/heartbeat.rs`).

The loop goes down the list of a heartbeat: it passes over a chunk that
is not held, stops at a held one that refuses the heartbeat, and stamps a
held one that accepts it. Its own writes never change who accepts
(`accepts_addLease`), so the outcome is a matter of the table before it:
where it gets to (`reached`), whether it is stopped (`refuses`), and what
is written on the way (`upsertLoop_get`).
-/
import Mathlib.Data.List.TakeWhile
import StaticNet.Storage.Heartbeat

namespace StaticNet

namespace LeaseManager

variable {hb : Heartbeat} {expiresAt : Nat} {held : ChunkId → Bool}

-- ======== acceptance

/-- Would the upsert write a lease for this chunk, were it its turn? -/
def accepts (mgr : LeaseManager) (hb : Heartbeat) (c : ChunkId) : Bool :=
  match mgr.leases.get c with
  | some lease =>
      lease.renewalToken == hb.renewalToken
        && (matchLeaseContentKey lease hb).isSome
  | none => true

/-- The ids a heartbeat gets to: it stops at the first held one that it
is not accepted for. -/
def reached (mgr : LeaseManager) (hb : Heartbeat) (held : ChunkId → Bool)
    (ids : List ChunkId) : List ChunkId :=
  ids.takeWhile fun c => !held c || mgr.accepts hb c

/-- Does a heartbeat write the lease of this chunk? -/
def writes (mgr : LeaseManager) (hb : Heartbeat) (held : ChunkId → Bool)
    (c : ChunkId) : Bool :=
  held c && (mgr.reached hb held hb.chunkIds).contains c

/-- Is there a held chunk on the list that refuses the heartbeat? -/
def refuses (mgr : LeaseManager) (hb : Heartbeat) (held : ChunkId → Bool)
    (ids : List ChunkId) : Bool :=
  ids.any fun c => held c && !mgr.accepts hb c

/-- A lease as the heartbeat writes it. -/
structure Stamped (hb : Heartbeat) (expiresAt : Nat) (lease : ChunkLease) :
    Prop where
  expiry : lease.expiresAt = expiresAt
  token : lease.renewalToken = hb.renewalToken
  key : lease.contentPubKey = hb.contentPubKey

/-- The lease a heartbeat leaves on a chunk it renews. -/
def stamp (hb : Heartbeat) (expiresAt : Nat) (c : ChunkId)
    (old : Option ChunkLease) : ChunkLease where
  chunkId := (old.map (·.chunkId)).getD c
  expiresAt := expiresAt
  renewalToken := hb.renewalToken
  contentPubKey := hb.contentPubKey

theorem stamp_stamped (hb : Heartbeat) (expiresAt : Nat) (c : ChunkId)
    (old : Option ChunkLease) :
    Stamped hb expiresAt (stamp hb expiresAt c old) := ⟨rfl, rfl, rfl⟩

theorem stamp_stamp (hb : Heartbeat) (expiresAt : Nat) (c : ChunkId)
    (old : Option ChunkLease) :
    stamp hb expiresAt c (some (stamp hb expiresAt c old))
      = stamp hb expiresAt c old := rfl

theorem matchLeaseContentKey_isSome (lease : ChunkLease) :
    (matchLeaseContentKey lease hb).isSome = true
      ↔ lease.contentPubKey = Bytes.zero 32
        ∨ lease.contentPubKey = hb.contentPubKey := by
  unfold matchLeaseContentKey
  by_cases hzero : lease.contentPubKey = Bytes.zero 32
  · simp [hzero]
  · by_cases heq : lease.contentPubKey = hb.contentPubKey
    · rw [if_neg hzero, if_neg (not_not.2 heq)]
      simp [heq]
    · simp [hzero, heq]

theorem matchLeaseContentKey_eq {lease lease' : ChunkLease}
    (h : matchLeaseContentKey lease hb = some lease') :
    lease' = { lease with contentPubKey := hb.contentPubKey } := by
  unfold matchLeaseContentKey at h
  split at h
  · exact (Option.some.inj h).symm
  · split at h
    next => cases h
    next heq =>
      rw [← Option.some.inj h, ← not_not.1 heq]

/-- When an existing lease accepts a heartbeat. -/
theorem accepts_of_get {mgr : LeaseManager} {c : ChunkId}
    {lease : ChunkLease} (hget : mgr.leases.get c = some lease) :
    mgr.accepts hb c = true ↔ lease.renewalToken = hb.renewalToken
      ∧ (lease.contentPubKey = Bytes.zero 32
        ∨ lease.contentPubKey = hb.contentPubKey) := by
  unfold accepts
  rw [hget]
  dsimp only
  rw [Bool.and_eq_true, beq_iff_eq, matchLeaseContentKey_isSome]

/-- A stamped lease is accepted again, so the loop's own writes never
stop it. -/
theorem accepts_addLease {mgr : LeaseManager} {d : ChunkId}
    {lease : ChunkLease} (hd : mgr.accepts hb d = true)
    (hl : Stamped hb expiresAt lease) (c : ChunkId) :
    (mgr.addLease d lease).accepts hb c = mgr.accepts hb c := by
  by_cases heq : c = d
  · rw [heq, hd]
    exact (accepts_of_get (FMap.get_insert_self _ _ _)).2
      ⟨hl.token, .inr hl.key⟩
  · unfold accepts addLease
    rw [FMap.get_insert_ne _ _ heq]

-- ========== one turn

/-- A chunk that is not held is passed over. -/
theorem upsertLoop_skip (hb : Heartbeat) (expiresAt : Nat)
    (mgr : LeaseManager) {d : ChunkId} (rest renewed : List ChunkId)
    (hheld : held d = false) :
    upsertLoop hb expiresAt held (d :: rest) mgr renewed
      = upsertLoop hb expiresAt held rest mgr renewed := by
  rw [upsertLoop, hheld]
  rfl

/-- A held chunk that refuses stops the loop. -/
theorem upsertLoop_refused (hb : Heartbeat) (expiresAt : Nat)
    (mgr : LeaseManager) {d : ChunkId} (rest renewed : List ChunkId)
    (hheld : held d = true) (hacc : mgr.accepts hb d = false) :
    ∃ e, upsertLoop hb expiresAt held (d :: rest) mgr renewed
      = (.error e, mgr) := by
  unfold accepts at hacc
  rw [upsertLoop, hheld]
  simp only [Bool.not_true, Bool.false_eq_true, if_false]
  cases hget : mgr.leases.get d with
  | none =>
      rw [hget] at hacc
      cases hacc
  | some lease =>
      rw [hget] at hacc
      by_cases htoken : lease.renewalToken = hb.renewalToken
      · have hkey : matchLeaseContentKey lease hb = none := by
          simpa [htoken] using hacc
        simp only [htoken, ne_eq, not_true, if_false, hkey]
        exact ⟨.invalidSignature, rfl⟩
      · simp only [htoken, ne_eq, not_false_eq_true, if_true]
        exact ⟨.invalidToken, rfl⟩

/-- A held chunk that accepts is stamped. -/
theorem upsertLoop_accepted (hb : Heartbeat) (expiresAt : Nat)
    (mgr : LeaseManager) {d : ChunkId} (rest renewed : List ChunkId)
    (hheld : held d = true) (hacc : mgr.accepts hb d = true) :
    upsertLoop hb expiresAt held (d :: rest) mgr renewed
      = upsertLoop hb expiresAt held rest
          (mgr.addLease d (stamp hb expiresAt d (mgr.leases.get d)))
          (renewed ++ [d]) := by
  unfold accepts at hacc
  rw [upsertLoop, hheld]
  simp only [Bool.not_true, Bool.false_eq_true, if_false]
  cases hget : mgr.leases.get d with
  | none => rfl
  | some lease =>
      rw [hget] at hacc
      simp only [Bool.and_eq_true, beq_iff_eq,
        Option.isSome_iff_exists] at hacc
      obtain ⟨htoken, lease', hkey⟩ := hacc
      have hnew : { lease' with expiresAt := expiresAt }
          = stamp hb expiresAt d (some lease) := by
        rw [matchLeaseContentKey_eq hkey]
        simp [stamp, htoken]
      simp only [htoken, ne_eq, not_true, if_false, hkey, hnew]

section turns

variable {mgr : LeaseManager} {d : ChunkId} (rest : List ChunkId)

theorem reached_skip (hheld : held d = false) :
    mgr.reached hb held (d :: rest) = d :: mgr.reached hb held rest := by
  unfold reached
  rw [List.takeWhile_cons_of_pos (by simp [hheld])]

theorem reached_refused (hheld : held d = true)
    (hacc : mgr.accepts hb d = false) :
    mgr.reached hb held (d :: rest) = [] := by
  unfold reached
  rw [List.takeWhile_cons_of_neg (by simp [hheld, hacc])]

theorem reached_accepted (hacc : mgr.accepts hb d = true) :
    mgr.reached hb held (d :: rest) = d :: mgr.reached hb held rest := by
  unfold reached
  rw [List.takeWhile_cons_of_pos (by simp [hacc])]

/-- What is ahead of the loop is as before its own write. -/
theorem ahead_addLease {lease : ChunkLease}
    (hacc : mgr.accepts hb d = true) (hl : Stamped hb expiresAt lease) :
    (mgr.addLease d lease).reached hb held rest = mgr.reached hb held rest
      ∧ (mgr.addLease d lease).refuses hb held rest
        = mgr.refuses hb held rest := by
  unfold reached refuses
  simp only [accepts_addLease hacc hl, and_self]

end turns

-- ========== the loop

/-- The loop writes leases only. -/
theorem upsertLoop_frame (hb : Heartbeat) (expiresAt : Nat)
    (ids : List ChunkId) (mgr : LeaseManager) (renewed : List ChunkId) :
    (upsertLoop hb expiresAt held ids mgr renewed).2 = { mgr with
      leases := (upsertLoop hb expiresAt held ids mgr renewed).2.leases }
      := by
  induction ids generalizing mgr renewed with
  | nil => rfl
  | cons d rest ih =>
      cases hheld : held d with
      | false =>
          rw [upsertLoop_skip hb expiresAt mgr rest renewed hheld]
          exact ih mgr renewed
      | true =>
          cases hacc : mgr.accepts hb d with
          | false =>
              obtain ⟨e, hstop⟩ := upsertLoop_refused hb expiresAt mgr rest
                renewed hheld hacc
              rw [hstop]
          | true =>
              rw [upsertLoop_accepted hb expiresAt mgr rest renewed hheld
                hacc]
              exact ih _ _

theorem upsertLoop_seenNonces (hb : Heartbeat) (expiresAt : Nat)
    (ids : List ChunkId) (mgr : LeaseManager) (renewed : List ChunkId) :
    (upsertLoop hb expiresAt held ids mgr renewed).2.seenNonces
      = mgr.seenNonces := by
  rw [upsertLoop_frame]

theorem upsertLoop_contentChunks (ids : List ChunkId)
    (mgr : LeaseManager) (renewed : List ChunkId) :
    (upsertLoop hb expiresAt held ids mgr renewed).2.contentChunks
      = mgr.contentChunks := by
  rw [upsertLoop_frame]

/-- The loop on the whole table: what it reaches and holds is stamped,
everything else is as before. -/
theorem upsertLoop_get (hb : Heartbeat) (expiresAt : Nat)
    (ids : List ChunkId) (mgr : LeaseManager) (renewed : List ChunkId)
    (c : ChunkId) :
    (upsertLoop hb expiresAt held ids mgr renewed).2.leases.get c
      = if held c = true ∧ c ∈ mgr.reached hb held ids then
          some (stamp hb expiresAt c (mgr.leases.get c))
        else mgr.leases.get c := by
  induction ids generalizing mgr renewed with
  | nil =>
      rw [if_neg (fun h => List.not_mem_nil h.2)]
      rfl
  | cons d rest ih =>
      cases hheld : held d with
      | false =>
          have hiff : held c = true ∧ c ∈ d :: mgr.reached hb held rest
              ↔ held c = true ∧ c ∈ mgr.reached hb held rest := by
            rw [List.mem_cons]
            constructor
            · rintro ⟨hc, rfl | hmem⟩
              · rw [hheld] at hc
                cases hc
              · exact ⟨hc, hmem⟩
            · exact fun h => ⟨h.1, .inr h.2⟩
          rw [upsertLoop_skip hb expiresAt mgr rest renewed hheld, ih,
            reached_skip rest hheld]
          simp only [hiff]
      | true =>
          cases hacc : mgr.accepts hb d with
          | false =>
              obtain ⟨e, hstop⟩ := upsertLoop_refused hb expiresAt mgr rest
                renewed hheld hacc
              rw [hstop, reached_refused rest hheld hacc,
                if_neg (fun h => List.not_mem_nil h.2)]
          | true =>
              have hl := stamp_stamped hb expiresAt d (mgr.leases.get d)
              rw [upsertLoop_accepted hb expiresAt mgr rest renewed hheld
                hacc, ih, (ahead_addLease rest hacc hl).1,
                reached_accepted rest hacc]
              unfold addLease
              dsimp only
              by_cases hc : c = d
              · subst hc
                rw [FMap.get_insert_self, stamp_stamp, ite_self,
                  if_pos ⟨hheld, List.mem_cons_self⟩]
              · rw [FMap.get_insert_ne _ _ hc]
                simp only [List.mem_cons, hc, false_or]

/-- Every lease is as before, or its chunk was reached and it is
stamped. -/
theorem upsertLoop_leases (hb : Heartbeat) (ids : List ChunkId)
    (mgr : LeaseManager) (renewed : List ChunkId) (c : ChunkId) :
    let mgr' := (upsertLoop hb expiresAt held ids mgr renewed).2
    mgr'.leases.get c = mgr.leases.get c
      ∨ (held c = true ∧ c ∈ mgr.reached hb held ids
        ∧ ∃ lease, mgr'.leases.get c = some lease
          ∧ Stamped hb expiresAt lease) := by
  dsimp only
  rw [upsertLoop_get]
  by_cases h : held c = true ∧ c ∈ mgr.reached hb held ids
  · rw [if_pos h]
    exact .inr ⟨h.1, h.2, _, rfl, stamp_stamped hb expiresAt c _⟩
  · exact .inl (if_neg h)

/-- The loop fails where a chunk refuses, and else answers the held ids of
the list. -/
theorem upsertLoop_result (held : ChunkId → Bool) (hb : Heartbeat)
    (expiresAt : Nat) (ids : List ChunkId) (mgr : LeaseManager)
    (renewed : List ChunkId) :
    (mgr.refuses hb held ids = true →
      ∃ e, (upsertLoop hb expiresAt held ids mgr renewed).1 = .error e)
      ∧ (mgr.refuses hb held ids = false →
        (upsertLoop hb expiresAt held ids mgr renewed).1
          = .ok (renewed ++ ids.filter held)) := by
  induction ids generalizing mgr renewed with
  | nil =>
      refine ⟨fun h => absurd h Bool.false_ne_true, fun _ => ?_⟩
      rw [upsertLoop, List.filter_nil, List.append_nil]
  | cons d rest ih =>
      cases hheld : held d with
      | false =>
          have hsame : mgr.refuses hb held (d :: rest)
              = mgr.refuses hb held rest := by
            simp [refuses, hheld]
          rw [upsertLoop_skip hb expiresAt mgr rest renewed hheld, hsame,
            List.filter_cons_of_neg (by simp [hheld])]
          exact ih mgr renewed
      | true =>
          cases hacc : mgr.accepts hb d with
          | false =>
              have hany : mgr.refuses hb held (d :: rest) = true := by
                simp [refuses, hheld, hacc]
              obtain ⟨e, hstop⟩ := upsertLoop_refused hb expiresAt mgr rest
                renewed hheld hacc
              rw [hstop, hany]
              exact ⟨fun _ => ⟨e, rfl⟩, fun h => (by cases h)⟩
          | true =>
              have hl := stamp_stamped hb expiresAt d (mgr.leases.get d)
              have hsame : mgr.refuses hb held (d :: rest)
                  = mgr.refuses hb held rest := by
                simp [refuses, hacc]
              have happend : renewed ++ (d :: rest).filter held
                  = (renewed ++ [d]) ++ rest.filter held := by
                rw [List.filter_cons_of_pos hheld, List.append_assoc]
                rfl
              rw [upsertLoop_accepted hb expiresAt mgr rest renewed hheld
                hacc, hsame, ← (ahead_addLease rest hacc hl).2, happend]
              exact ih _ _

-- ==== what is reached and written

section outcome

variable {mgr : LeaseManager} {ids : List ChunkId} {c : ChunkId}

theorem refuses_eq_false :
    mgr.refuses hb held ids = false
      ↔ ∀ d ∈ ids, held d = true → mgr.accepts hb d = true := by
  simp [refuses]

/-- A list without a refusal is gone through to its end. -/
theorem reached_of_not_refuses (h : mgr.refuses hb held ids = false) :
    mgr.reached hb held ids = ids := by
  refine List.takeWhile_eq_self_iff.2 fun c hc => ?_
  cases hheld : held c with
  | false => rfl
  | true => exact refuses_eq_false.1 h c hc hheld

theorem upsertLoop_isOk (renewed : List ChunkId) :
    (upsertLoop hb expiresAt held ids mgr renewed).1.isOk = true
      ↔ mgr.refuses hb held ids = false := by
  obtain ⟨hfails, hanswers⟩ :=
    upsertLoop_result held hb expiresAt ids mgr renewed
  cases href : mgr.refuses hb held ids with
  | true =>
      obtain ⟨e, he⟩ := hfails href
      rw [he]
      exact iff_of_false Bool.false_ne_true (fun h => (by cases h))
  | false =>
      rw [hanswers href]
      exact iff_of_true rfl rfl

theorem of_mem_reached (h : c ∈ mgr.reached hb held ids)
    (hheld : held c = true) : c ∈ ids ∧ mgr.accepts hb c = true := by
  have hacc := List.all_eq_true.1 List.all_takeWhile c h
  rw [hheld] at hacc
  exact ⟨(List.takeWhile_prefix _).subset h, hacc⟩

theorem mem_writes :
    mgr.writes hb held c = true
      ↔ held c = true ∧ c ∈ mgr.reached hb held hb.chunkIds := by
  unfold writes
  rw [Bool.and_eq_true, List.contains_iff_mem]

/-- What a heartbeat writes it names, and is accepted for. -/
theorem accepts_of_writes (h : mgr.writes hb held c = true) :
    c ∈ hb.chunkIds ∧ mgr.accepts hb c = true := by
  obtain ⟨hheld, hmem⟩ := mem_writes.1 h
  exact of_mem_reached hmem hheld

/-- What a heartbeat writes it names, with the token on record. -/
theorem writes_spec (h : mgr.writes hb held c = true) :
    c ∈ hb.chunkIds ∧ ∀ lease, mgr.leases.get c = some lease →
      lease.renewalToken = hb.renewalToken := by
  obtain ⟨hmem, hacc⟩ := accepts_of_writes h
  exact ⟨hmem, fun lease hget => ((accepts_of_get hget).1 hacc).1⟩

/-- What a heartbeat writes was this owner's, or nobody's. -/
theorem writes_key (h : mgr.writes hb held c = true) {lease : ChunkLease}
    (hget : mgr.leases.get c = some lease) :
    lease.contentPubKey = Bytes.zero 32
      ∨ lease.contentPubKey = hb.contentPubKey :=
  ((accepts_of_get hget).1 (accepts_of_writes h).2).2

/-- What is written depends on the named chunks only. -/
theorem writes_congr {mgr' : LeaseManager} {held' : ChunkId → Bool}
    (h : ∀ d ∈ hb.chunkIds,
      held d = held' d ∧ mgr.accepts hb d = mgr'.accepts hb d)
    (c : ChunkId) : mgr.writes hb held c = mgr'.writes hb held' c := by
  have hreach : ∀ ids : List ChunkId, (∀ d ∈ ids, d ∈ hb.chunkIds) →
      mgr.reached hb held ids = mgr'.reached hb held' ids := by
    intro ids hids
    induction ids with
    | nil => rfl
    | cons d rest ih =>
        obtain ⟨hheld, hacc⟩ := h d (hids d List.mem_cons_self)
        have hrest := ih fun e he => hids e (List.mem_cons_of_mem _ he)
        unfold reached at hrest ⊢
        rw [List.takeWhile_cons, List.takeWhile_cons, hheld, hacc, hrest]
  unfold writes
  rw [hreach _ fun d hd => hd]
  cases hmem : (mgr'.reached hb held' hb.chunkIds).contains c with
  | false => simp
  | true =>
      rw [List.contains_iff_mem] at hmem
      have hc : c ∈ hb.chunkIds := (List.takeWhile_prefix _).subset hmem
      rw [(h c hc).1]

end outcome

end LeaseManager

end StaticNet
