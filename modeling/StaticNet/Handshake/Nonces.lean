/-
The two replay caches (`check_handshake_nonce` and
`check_maintenance_nonce` in `static-mesh/src/transport.rs`).

A call drops what is older than the window, turns down a nonce that is
left, and else takes it in, at the cost of an oldest entry where the
cache is full. With one-second time stamps there may be several oldest.
Whichever of them goes, every other entry is as young, so a nonce that is
forgotten inside the window has seen more than the cap come in since
(`Window.Recollects`).
-/
import StaticNet.Handshake.Stream
import StaticNet.Lib.Window

namespace StaticNet

open Proc TransportState Window

-- ======== the caches

/-- A replay cache: where it is kept, and the function that checks it. -/
structure NonceTable (σ : Type) where
  cache : σ → FMap (Bytes 32) Nat
  check : Env → Bytes 32 → σ → Bool × σ

/-- `check_handshake_nonce` on `handshake_nonces`. -/
def handshakeTable : NonceTable LinkState where
  cache s := s.handshakeNonces
  check env nonce s :=
    ((checkHandshakeNonce env nonce).out s,
      (checkHandshakeNonce env nonce).post s)

/-- `check_maintenance_nonce` on `maintenance_nonces`. -/
def maintenanceTable : NonceTable TransportState where
  cache s := s.maintenanceNonces
  check env nonce s :=
    ((checkMaintenanceNonce env nonce).out s,
      (checkMaintenanceNonce env nonce).post s)

/-- A call with what it reads from outside. -/
structure NonceCall where
  env : Env
  nonce : Bytes 32

/-- The state after some calls, and the nonces they accepted, with the
times. -/
structure NonceRun (σ : Type) where
  state : σ
  accepted : List (Bytes 32 × Nat)

namespace NonceTable

variable {σ : Type} (T : NonceTable σ)

def step (r : NonceRun σ) (c : NonceCall) : NonceRun σ :=
  let checked := T.check c.env c.nonce r.state
  { state := checked.2
    accepted :=
      if checked.1 then r.accepted ++ [(c.nonce, c.env.now)]
      else r.accepted }

def run (s : σ) (calls : List NonceCall) : NonceRun σ :=
  calls.foldl T.step ⟨s, []⟩

/-- What a cache is for, at one call after others. -/
structure Guards (r : NonceRun σ) (c : NonceCall) : Prop where
  /-- a nonce accepted inside the window is turned down, unless too many
  were accepted around it -/
  replayed : ∀ t, (c.nonce, t) ∈ r.accepted →
    c.env.now ≤ t + HANDSHAKE_NONCE_TTL_SECS →
    (since r.accepted (t - HANDSHAKE_NONCE_TTL_SECS)).card
      ≤ MAX_HANDSHAKE_NONCES →
    (T.check c.env c.nonce r.state).1 = false
  /-- a nonce not accepted inside the window is accepted -/
  fresh : (∀ t, (c.nonce, t) ∈ r.accepted →
      t + HANDSHAKE_NONCE_TTL_SECS < c.env.now) →
    (T.check c.env c.nonce r.state).1 = true
  bounded : (T.cache (T.check c.env c.nonce r.state).2).len
    ≤ MAX_HANDSHAKE_NONCES
  /-- where the cache is full an oldest entry makes room -/
  oldest : ∀ live, live = forget HANDSHAKE_NONCE_TTL_SECS c.env.now
      (T.cache r.state) →
    live.contains c.nonce = false → MAX_HANDSHAKE_NONCES ≤ live.len →
    ∃ old t, live.get old = some t
      ∧ (∀ d u, live.get d = some u → t ≤ u)
      ∧ T.cache (T.check c.env c.nonce r.state).2
        = (live.erase old).insert c.nonce c.env.now

end NonceTable

-- ========== one call

variable {env : Env} {nonce : Bytes 32} {cache : FMap (Bytes 32) Nat}

/-- A nonce that is left after forgetting is turned down. -/
theorem checkNonceCache_known
    (h : (forget HANDSHAKE_NONCE_TTL_SECS env.now cache).contains nonce
      = true) :
    checkNonceCache env nonce cache
      = (false, forget HANDSHAKE_NONCE_TTL_SECS env.now cache) :=
  if_pos h

theorem checkNonceCache_room
    (h : (forget HANDSHAKE_NONCE_TTL_SECS env.now cache).contains nonce
      = false)
    (hroom : (forget HANDSHAKE_NONCE_TTL_SECS env.now cache).len
      < MAX_HANDSHAKE_NONCES) :
    checkNonceCache env nonce cache
      = (true, (forget HANDSHAKE_NONCE_TTL_SECS env.now cache).insert nonce
          env.now) := by
  have hnot : ¬ MAX_HANDSHAKE_NONCES
      ≤ (cache.retain fun _ ts =>
        env.now - ts ≤ HANDSHAKE_NONCE_TTL_SECS).len := Nat.not_le.2 hroom
  unfold forget at h
  unfold checkNonceCache
  simp only [h, Bool.false_eq_true, if_false, hnot]
  rfl

/-- In a full cache an entry with the smallest time stamp goes. -/
theorem checkNonceCache_full
    (h : (forget HANDSHAKE_NONCE_TTL_SECS env.now cache).contains nonce
      = false)
    (hfull : MAX_HANDSHAKE_NONCES
      ≤ (forget HANDSHAKE_NONCE_TTL_SECS env.now cache).len)
    (hmax : 0 < MAX_HANDSHAKE_NONCES) :
    ∃ old t,
      (forget HANDSHAKE_NONCE_TTL_SECS env.now cache).get old = some t
      ∧ (∀ d u, (forget HANDSHAKE_NONCE_TTL_SECS env.now cache).get d
          = some u → t ≤ u)
      ∧ checkNonceCache env nonce cache
        = (true, ((forget HANDSHAKE_NONCE_TTL_SECS env.now cache).erase
            old).insert nonce env.now) := by
  unfold checkNonceCache
  unfold forget at h hfull ⊢
  generalize (cache.retain fun _ ts =>
    decide (env.now - ts ≤ HANDSHAKE_NONCE_TTL_SECS)) = live at h hfull ⊢
  have hnonempty : ∃ k, k ∈ live.keys :=
    Finset.card_pos.1 (lt_of_lt_of_le hmax hfull)
  cases hmin : (env.nonceOrder.iter live.keys).argmin
      (fun k => (live.get k).getD 0) with
  | none =>
      obtain ⟨k, hk⟩ := hnonempty
      have hempty := List.argmin_eq_none.1 hmin
      have hmem := (env.nonceOrder.mem_iter live.keys k).2 hk
      rw [hempty] at hmem
      cases hmem
  | some old =>
      have hold := (env.nonceOrder.mem_iter live.keys old).1
        (List.argmin_mem hmin)
      obtain ⟨t, ht⟩ := (live.mem_keys_iff old).1 hold
      refine ⟨old, t, ht, ?_, ?_⟩
      · intro d u hd
        have hle := List.le_of_mem_argmin
          ((env.nonceOrder.mem_iter live.keys d).2
            (FMap.mem_keys_of_get hd)) hmin
        simpa [ht, hd] using hle
      · simp only [h, Bool.false_eq_true, if_false, hfull, if_true, hmin]

/-- One call keeps the cache and the record of what it accepted
together. -/
theorem checkNonceCache_recollects (nonce : Bytes 32)
    {log : List (Bytes 32 × Nat)} {now : Nat}
    (h : Recollects HANDSHAKE_NONCE_TTL_SECS MAX_HANDSHAKE_NONCES log cache
      now) (hnow : now ≤ env.now) (hmax : 0 < MAX_HANDSHAKE_NONCES) :
    Recollects HANDSHAKE_NONCE_TTL_SECS MAX_HANDSHAKE_NONCES
      (if (checkNonceCache env nonce cache).1 then
        log ++ [(nonce, env.now)] else log)
      (checkNonceCache env nonce cache).2 env.now := by
  have hlive := h.forget hnow
  cases hknown : (forget HANDSHAKE_NONCE_TTL_SECS env.now cache).contains
      nonce with
  | true =>
      rw [checkNonceCache_known hknown]
      exact hlive
  | false =>
      by_cases hfull : MAX_HANDSHAKE_NONCES
          ≤ (forget HANDSHAKE_NONCE_TTL_SECS env.now cache).len
      · obtain ⟨old, t, hold, holdest, heq⟩ :=
          checkNonceCache_full hknown hfull hmax
        rw [heq]
        exact hlive.replace hknown hfull hold holdest
      · rw [checkNonceCache_room hknown (Nat.lt_of_not_le hfull)]
        exact hlive.add hknown (Nat.lt_of_not_le hfull)

-- =========== the run

namespace NonceTable

variable {σ : Type} {T : NonceTable σ}

/-- The table's function is the cache check on its cache. -/
def Checks (T : NonceTable σ) : Prop :=
  ∀ env nonce s,
    (T.check env nonce s).1 = (checkNonceCache env nonce (T.cache s)).1
      ∧ T.cache (T.check env nonce s).2
        = (checkNonceCache env nonce (T.cache s)).2

/-- Calls at times that never go back. -/
def Forward (calls : List NonceCall) : Prop :=
  calls.Pairwise fun a b => a.env.now ≤ b.env.now

/-- The cache and the record of what was accepted stay together over a
run. -/
theorem recollects_run (hT : T.Checks) {s : σ} (hs : T.cache s = ∅)
    (calls : List NonceCall) (hforward : Forward calls) {last : Nat}
    (hlast : ∀ c ∈ calls, c.env.now ≤ last) :
    Recollects HANDSHAKE_NONCE_TTL_SECS MAX_HANDSHAKE_NONCES
      (T.run s calls).accepted (T.cache (T.run s calls).state) last := by
  induction calls using List.reverseRecOn generalizing last with
  | nil =>
      show Recollects _ _ [] (T.cache s) last
      rw [hs]
      exact recollects_empty
  | append_singleton calls c ih =>
      obtain ⟨hbefore, -, hstep⟩ := List.pairwise_append.1 hforward
      have hbound : ∀ c' ∈ calls, c'.env.now ≤ c.env.now :=
        fun c' hc' => hstep c' hc' c List.mem_cons_self
      have hafter := checkNonceCache_recollects c.nonce
        (ih hbefore hbound) le_rfl (by decide)
      obtain ⟨hanswer, hcache⟩ := hT c.env c.nonce (T.run s calls).state
      rw [← hanswer, ← hcache] at hafter
      have hrun : T.run s (calls ++ [c]) = T.step (T.run s calls) c :=
        List.foldl_append
      rw [hrun]
      exact hafter.later
        (hlast c (List.mem_append_right _ List.mem_cons_self))

/-- What the record says at a call decides it. -/
theorem guards_of_recollects (hT : T.Checks) {r : NonceRun σ}
    {c : NonceCall}
    (h : Recollects HANDSHAKE_NONCE_TTL_SECS MAX_HANDSHAKE_NONCES
      r.accepted (T.cache r.state) c.env.now) : T.Guards r c := by
  obtain ⟨hanswer, hcache⟩ := hT c.env c.nonce r.state
  have hlive := h.forget le_rfl
  have hmax : 0 < MAX_HANDSHAKE_NONCES := by decide
  constructor
  · intro t hmem hyoung hfew
    rw [hanswer, checkNonceCache_known]
    refine hlive.contains hmem hyoung ?_
    exact (Finset.card_le_card (since_subset (List.Subset.refl _)
      (Nat.sub_le _ _))).trans hfew
  · intro hold
    have hunknown : (forget HANDSHAKE_NONCE_TTL_SECS c.env.now
        (T.cache r.state)).contains c.nonce = false := by
      by_contra hnot
      rw [Bool.not_eq_false, FMap.contains_eq_true] at hnot
      obtain ⟨t, hget⟩ := hnot
      have hlate := hold t (hlive.logged c.nonce t hget)
      have hyoung := (get_forget.1 hget).2
      omega
    rw [hanswer]
    by_cases hfull : MAX_HANDSHAKE_NONCES
        ≤ (forget HANDSHAKE_NONCE_TTL_SECS c.env.now
          (T.cache r.state)).len
    · obtain ⟨old, t, -, -, heq⟩ :=
        checkNonceCache_full hunknown hfull hmax
      rw [heq]
    · rw [checkNonceCache_room hunknown (Nat.lt_of_not_le hfull)]
  · rw [hcache]
    exact (checkNonceCache_recollects c.nonce h le_rfl hmax).bounded
  · rintro live rfl hunknown hfull
    obtain ⟨old, t, hold, holdest, heq⟩ :=
      checkNonceCache_full hunknown hfull hmax
    refine ⟨old, t, hold, holdest, ?_⟩
    rw [hcache, heq]

end NonceTable

theorem handshakeTable_checks : handshakeTable.Checks :=
  fun _ _ _ => ⟨rfl, rfl⟩

theorem maintenanceTable_checks : maintenanceTable.Checks :=
  fun _ _ _ => ⟨rfl, rfl⟩

open NonceTable

/-- From empty caches, after any calls at times that never go back, the
next call of either function guards its cache. -/
theorem replay_nonces_guarded (s : LinkState) (t : TransportState)
    (hs : s.handshakeNonces = ∅) (ht : t.maintenanceNonces = ∅)
    (calls : List NonceCall) (c : NonceCall)
    (hforward : Forward (calls ++ [c])) :
    handshakeTable.Guards (handshakeTable.run s calls) c
      ∧ maintenanceTable.Guards (maintenanceTable.run t calls) c := by
  obtain ⟨hbefore, -, hstep⟩ := List.pairwise_append.1 hforward
  have hlast : ∀ c' ∈ calls, c'.env.now ≤ c.env.now :=
    fun c' hc' => hstep c' hc' c List.mem_cons_self
  constructor
  · exact guards_of_recollects handshakeTable_checks
      (recollects_run handshakeTable_checks hs calls hbefore hlast)
  · exact guards_of_recollects maintenanceTable_checks
      (recollects_run maintenanceTable_checks ht calls hbefore hlast)

/-- A nonce accepted at time 200 and presented again at 500 and 501. -/
theorem replay_nonces_guarded_twice :
    handshakeTable.Guards
        (handshakeTable.run quietLink [⟨quietEnv 0 200, Bytes.fill 32 1⟩])
        ⟨quietEnv 0 500, Bytes.fill 32 1⟩
      ∧ maintenanceTable.Guards
        (maintenanceTable.run (freshNode (Bytes.fill 16 1)
            (Bytes.fill 32 1) ChunkHolder.new 0)
          [⟨quietEnv 0 200, Bytes.fill 32 1⟩,
            ⟨quietEnv 0 500, Bytes.fill 32 1⟩])
        ⟨quietEnv 0 501, Bytes.fill 32 1⟩ :=
  ⟨(replay_nonces_guarded quietLink (freshNode (Bytes.fill 16 1)
      (Bytes.fill 32 1) ChunkHolder.new 0) rfl rfl
      [⟨quietEnv 0 200, Bytes.fill 32 1⟩]
      ⟨quietEnv 0 500, Bytes.fill 32 1⟩
      (by simp [Forward, quietEnv])).1,
    (replay_nonces_guarded quietLink (freshNode (Bytes.fill 16 1)
      (Bytes.fill 32 1) ChunkHolder.new 0) rfl rfl
      [⟨quietEnv 0 200, Bytes.fill 32 1⟩,
        ⟨quietEnv 0 500, Bytes.fill 32 1⟩]
      ⟨quietEnv 0 501, Bytes.fill 32 1⟩
      (by simp [Forward, quietEnv])).2⟩

end StaticNet
