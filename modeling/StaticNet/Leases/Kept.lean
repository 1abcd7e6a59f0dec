/-
Own content under heartbeats, ticks and sweeps.

# Where it breaks

A heartbeat may name any held chunk and any expiry, and is checked
against nothing when the chunk has no lease: it then creates one. A
published chunk has no lease. So a heartbeat of any signer can give it a
lease that has lapsed already, and the next sweep removes the chunk.

# The invariant

`Covered`: the lease of an owned chunk, if there is one, does not lapse
before the next tick is due. A tick restores it with room to spare, a
sweep that comes before the next tick is due finds no lapsed lease on an
owned chunk, and a heartbeat keeps it unless it writes a lease that
lapses too early (`SafeBeat` excludes exactly this write).
-/
import StaticNet.Leases.Runner
import StaticNet.Leases.Upsert
import StaticNet.Swap.Run

namespace StaticNet

open Proc

-- ======= a heartbeat

namespace LeaseManager

/-- A heartbeat changes a lease only by writing it, capped at one lease
duration, and only when it verifies and its nonce is new. -/
theorem processHeartbeatUpsert_leases (P : Prims) (mgr : LeaseManager)
    (hb : Heartbeat) (now : Nat) (held : ChunkId → Bool) (c : ChunkId) :
    let mgr' := (mgr.processHeartbeatUpsert P hb now held).2
    mgr'.leases.get c = mgr.leases.get c
      ∨ (hb.verifySignature P = true ∧ mgr.seenNonces.get hb.nonce = none
        ∧ mgr.writes hb held c = true
        ∧ ∃ lease, mgr'.leases.get c = some lease
          ∧ Stamped hb (cappedExpiry hb now) lease) := by
  unfold processHeartbeatUpsert
  cases hsig : hb.verifySignature P with
  | false => exact .inl rfl
  | true =>
      simp only [Bool.not_true, Bool.false_eq_true, if_false]
      cases hseen : mgr.seenNonces.get hb.nonce with
      | some t => exact .inl rfl
      | none =>
          dsimp only
          rcases upsertLoop_leases hb hb.chunkIds
            { mgr with seenNonces := mgr.seenNonces.insert hb.nonce now }
            [] c with hold | ⟨hheld, hmem, lease, hget, hl⟩
          · exact .inl hold
          · right
            exact ⟨trivial, rfl, mem_writes.2 ⟨hheld, hmem⟩, lease, hget,
              hl⟩

theorem processHeartbeatUpsert_contentChunks (P : Prims)
    (mgr : LeaseManager) (hb : Heartbeat) (now : Nat)
    (held : ChunkId → Bool) :
    (mgr.processHeartbeatUpsert P hb now held).2.contentChunks
      = mgr.contentChunks := by
  unfold processHeartbeatUpsert
  split
  · rfl
  · split
    · rfl
    · exact upsertLoop_contentChunks _ _ _

-- ========== the tick

/-- The refresh gives the listed chunks that have a lease the new expiry,
and changes no other lease. -/
theorem refreshAll_get (newExpires : Nat) (ids : List ChunkId)
    (acc : Nat × LeaseManager) (c : ChunkId) :
    (refreshAll newExpires ids acc).2.leases.get c
      = if c ∈ ids then (acc.2.leases.get c).map fun lease =>
          { lease with expiresAt := newExpires }
        else acc.2.leases.get c := by
  induction ids generalizing acc with
  | nil => rfl
  | cons d rest ih =>
      obtain ⟨n, mgr⟩ := acc
      rw [refreshAll]
      cases hget : mgr.leases.get d with
      | none =>
          simp only [ih, List.mem_cons]
          by_cases hc : c = d
          · rw [if_pos (Or.inl hc), hc, hget]
            exact ite_self _
          · simp only [hc, false_or]
      | some old =>
          have hadd : (mgr.addLease d
              { old with expiresAt := newExpires }).leases.get c
              = if c = d then some { old with expiresAt := newExpires }
                else mgr.leases.get c := FMap.get_insert _ _ _ _
          simp only [ih, List.mem_cons, hadd]
          by_cases hc : c = d
          · rw [if_pos hc, if_pos (Or.inl hc), hc, hget]
            exact ite_self _
          · simp only [hc, if_false, false_or]

theorem refreshAll_contentChunks (newExpires : Nat) (ids : List ChunkId)
    (acc : Nat × LeaseManager) :
    (refreshAll newExpires ids acc).2.contentChunks
      = acc.2.contentChunks := by
  induction ids generalizing acc with
  | nil => rfl
  | cons d rest ih =>
      obtain ⟨n, mgr⟩ := acc
      rw [refreshAll]
      split
      · exact ih _
      · exact ih _

theorem of_mem_ownedChunks {mgr : LeaseManager}
    {order : IterOrder ContentId} {c : ChunkId}
    (h : c ∈ mgr.ownedChunks order) :
    ∃ id ids, mgr.contentChunks.get id = some ids ∧ c ∈ ids := by
  unfold ownedChunks at h
  obtain ⟨id, hid, hc⟩ := List.mem_flatMap.1 h
  rw [order.mem_iter, FMap.mem_keys_iff] at hid
  obtain ⟨ids, hget⟩ := hid
  rw [hget] at hc
  exact ⟨id, ids, hget, hc⟩

/-- The tick's list has every owned chunk, in whatever order. -/
theorem mem_ownedChunks {mgr : LeaseManager}
    (order : IterOrder ContentId) {id : ContentId} {ids : List ChunkId}
    {c : ChunkId} (hget : mgr.contentChunks.get id = some ids)
    (hc : c ∈ ids) : c ∈ mgr.ownedChunks order := by
  unfold ownedChunks
  rw [List.mem_flatMap]
  refine ⟨id, ?_, ?_⟩
  · rw [order.mem_iter]
    exact FMap.mem_keys_of_get hget
  · rw [hget]
    exact hc

end LeaseManager

-- ========= the sweep

/-- The removal loop keeps the chunks it is not given, and adds no
lease. -/
theorem post_dropExpired (ids : List ChunkId) (s : TransportState) :
    (∀ c ∉ ids, ((dropExpired ids).post s).chunkHolder.getChunk c
        = s.chunkHolder.getChunk c)
      ∧ (∀ c lease, ((dropExpired ids).post s).leaseManager.leases.get c
          = some lease → s.leaseManager.leases.get c = some lease)
      ∧ ((dropExpired ids).post s).leaseManager.contentChunks
        = s.leaseManager.contentChunks := by
  induction ids generalizing s with
  | nil => exact ⟨fun _ _ => rfl, fun _ _ h => h, rfl⟩
  | cons d rest ih =>
      unfold dropExpired
      simp only [post_bind, post_atom, out_atom, post_write]
      obtain ⟨hkeep, hsub, hown⟩ := ih _
      refine ⟨?_, ?_, hown⟩
      · intro c hc
        rw [List.mem_cons, not_or] at hc
        rw [hkeep c hc.2]
        exact FMap.get_erase_ne _ hc.1
      · intro c lease hget
        have herase := hsub c lease hget
        dsimp only [TransportState.updCapacity, LeaseManager.removeLease]
          at herase
        rw [FMap.get_erase] at herase
        split at herase
        next => cases herase
        next => exact herase

-- ===== the invariant

/-- The lease of an owned chunk does not lapse before the next tick is
due. -/
def Covered (lastTick : Nat) (s : TransportState) : Prop :=
  ∀ c, Owns s c → ∀ lease, s.leaseManager.leases.get c = some lease →
    lastTick + DEFAULT_HEARTBEAT_INTERVAL_SECS
      ≤ lease.expiresAt + GRACE_PERIOD_SECS

/-- What a heartbeat may do: a write to the lease of an owned chunk
sets an expiry that does not lapse before the next tick is due. -/
def SafeBeat (P : Prims) (lastTick : Nat) (hb : Heartbeat)
    (s : TransportState) : Prop :=
  hb.verifySignature P = true →
  s.leaseManager.seenNonces.get hb.nonce = none →
  ∀ c, Owns s c →
    s.leaseManager.writes hb (heldAmong hb s) c = true →
    lastTick + DEFAULT_HEARTBEAT_INTERVAL_SECS
      ≤ hb.newExpiresAt + GRACE_PERIOD_SECS

/-- The condition on one event. -/
def LeaseEvent.Safe (P : Prims) (lastTick : Nat) :
    LeaseEvent → TransportState → Prop
  | heartbeat hb, s => SafeBeat P lastTick hb s
  | _, _ => True

/-- What one event keeps. -/
structure Kept (s s' : TransportState) : Prop where
  contents : s'.leaseManager.contentChunks = s.leaseManager.contentChunks
  chunks : ∀ c, Owns s c →
    s'.chunkHolder.getChunk c = s.chunkHolder.getChunk c

theorem Kept.refl (s : TransportState) : Kept s s := ⟨rfl, fun _ _ => rfl⟩

theorem Kept.owns {s s' : TransportState} (h : Kept s s') (c : ChunkId) :
    Owns s' c ↔ Owns s c := by
  unfold Owns
  rw [h.contents]

theorem Kept.trans {s s' s'' : TransportState} (h : Kept s s')
    (h' : Kept s' s'') : Kept s s'' where
  contents := h'.contents.trans h.contents
  chunks := fun c hc => (h'.chunks c ((h.owns c).2 hc)).trans (h.chunks c hc)

namespace LeaseEvent

variable {P : Prims} {s : TransportState} {now last : Nat}

theorem step_heartbeat {hb : Heartbeat} (hs : Covered last s)
    (hlast : last ≤ now) (hnow : now ≤ U64_MAX)
    (hsafe : SafeBeat P last hb s) :
    Covered last ((handleHeartbeat P now hb).post s)
      ∧ Kept s ((handleHeartbeat P now hb).post s) := by
  have hkept : Kept s ((handleHeartbeat P now hb).post s) :=
    ⟨LeaseManager.processHeartbeatUpsert_contentChunks P _ _ _ _,
      fun _ _ => rfl⟩
  refine ⟨?_, hkept⟩
  intro c hown lease hget
  rw [hkept.owns] at hown
  rcases LeaseManager.processHeartbeatUpsert_leases P s.leaseManager hb now
    (heldAmong hb s) c with hold | ⟨hsig, hfresh, hwrite, lease', hget', hstamp⟩
  · exact hs c hown lease (hold.symm.trans hget)
  · obtain rfl := Option.some.inj (hget'.symm.trans hget)
    have hnew := hsafe hsig hfresh c hown hwrite
    rw [hstamp.expiry]
    unfold LeaseManager.cappedExpiry satAdd
    unfold DEFAULT_HEARTBEAT_INTERVAL_SECS GRACE_PERIOD_SECS
      DEFAULT_LEASE_DURATION_SECS at *
    omega

theorem step_tick (order : IterOrder ContentId) (s : TransportState)
    (now : Nat) :
    Covered now ((heartbeatTickOnce now order).post s)
      ∧ Kept s ((heartbeatTickOnce now order).post s) := by
  have hkept : Kept s ((heartbeatTickOnce now order).post s) :=
    ⟨LeaseManager.refreshAll_contentChunks _ _ _, fun _ _ => rfl⟩
  refine ⟨?_, hkept⟩
  intro c hown lease hget
  rw [hkept.owns] at hown
  obtain ⟨id, ids, hid, hc⟩ := hown
  have hget : (LeaseManager.refreshAll _ _ _).2.leases.get c = some lease :=
    hget
  rw [LeaseManager.refreshAll_get,
    if_pos (LeaseManager.mem_ownedChunks order hid hc)] at hget
  obtain ⟨old, -, rfl⟩ := Option.map_eq_some_iff.1 hget
  unfold DEFAULT_HEARTBEAT_INTERVAL_SECS GRACE_PERIOD_SECS
    DEFAULT_LEASE_DURATION_SECS
  dsimp only
  omega

/-- A sweep before the next tick is due finds no owned chunk. -/
theorem step_sweep (order : IterOrder ChunkId) (hs : Covered last s)
    (hdue : now ≤ last + DEFAULT_HEARTBEAT_INTERVAL_SECS) :
    Covered last ((expireChunksOnce now order).post s)
      ∧ Kept s ((expireChunksOnce now order).post s) := by
  have hspared : ∀ c, Owns s c →
      c ∉ s.leaseManager.getExpiredChunks order now := by
    intro c hown hmem
    have hlapsed := (List.mem_filter.1 hmem).2
    rw [Option.any_eq_true] at hlapsed
    obtain ⟨lease, hget, hlate⟩ := hlapsed
    have hcov := hs c hown lease hget
    unfold LeaseManager.lapsed at hlate
    rw [decide_eq_true_eq] at hlate
    omega
  obtain ⟨hkeep, hsub, hown⟩ :=
    post_dropExpired (s.leaseManager.getExpiredChunks order now) s
  have hkept : Kept s ((expireChunksOnce now order).post s) := by
    unfold expireChunksOnce
    simp only [post_bind, out_read, post_read, post_write, post_pure]
    exact ⟨hown, fun c hc => hkeep c (hspared c hc)⟩
  refine ⟨?_, hkept⟩
  intro c hc lease hget
  rw [hkept.owns] at hc
  unfold expireChunksOnce at hget
  simp only [post_bind, out_read, post_read, post_write, post_pure] at hget
  exact hs c hc lease (hsub c lease hget)

/-- One event: the invariant for the new last tick, and nothing owned is
lost. -/
theorem step_kept (e : LeaseEvent) (hs : Covered last s)
    (hlast : last ≤ now) (hnow : now ≤ U64_MAX)
    (hdue : now ≤ last + DEFAULT_HEARTBEAT_INTERVAL_SECS)
    (hsafe : e.Safe P last s) :
    Covered (if e.isTick then now else last) ((e.program P now).post s)
      ∧ Kept s ((e.program P now).post s) := by
  cases e with
  | heartbeat hb => exact step_heartbeat hs hlast hnow hsafe
  | tick order => exact step_tick order s now
  | sweep order =>
      unfold program
      rw [post_bind, post_pure]
      exact step_sweep order hs hdue

theorem take_succ_snoc {es : List (Nat × LeaseEvent)} {n : Nat}
    (hn : n < es.length) : es.take (n + 1) = es.take n ++ [es[n]] := by
  rw [List.take_add_one, List.getElem?_eq_getElem hn]
  rfl

theorem run_kept {t₀ : Nat} {es : List (Nat × LeaseEvent)}
    (h₀ : Covered t₀ s) (htime : Timely t₀ es)
    (hsafe : ∀ n (hn : n < es.length), es[n].2.Safe P
      (lastTick t₀ (es.take n)) (run P s (es.take n)))
    (n : Nat) (hn : n ≤ es.length) :
    Covered (lastTick t₀ (es.take n)) (run P s (es.take n))
      ∧ Kept s (run P s (es.take n))
      ∧ lastTick t₀ (es.take n) ≤ clock t₀ (es.take n) := by
  induction n with
  | zero => exact ⟨h₀, Kept.refl s, Nat.le_refl t₀⟩
  | succ n ih =>
      obtain ⟨hcov, hkept, hle⟩ := ih (by omega)
      have hfwd := htime.forward n hn
      obtain ⟨hcov', hkept'⟩ := step_kept es[n].2 hcov
        (Nat.le_trans hle hfwd) (htime.bounded n hn) (htime.ticking n hn)
        (hsafe n hn)
      rw [take_succ_snoc hn]
      unfold run lastTick clock at *
      simp only [List.foldl_append, List.foldl_cons, List.foldl_nil]
      refine ⟨hcov', hkept.trans hkept', ?_⟩
      split
      · exact Nat.le_refl _
      · exact Nat.le_trans hle hfwd

end LeaseEvent

/-- In every run with a tick in every interval and only safe heartbeats,
every chunk of published content is held as it was at the start. -/
theorem own_content_kept (P : Prims) (s : TransportState) (t₀ : Nat)
    (es : List (Nat × LeaseEvent)) (hpub : Published s)
    (htime : LeaseEvent.Timely t₀ es)
    (hsafe : ∀ n (hn : n < es.length), es[n].2.Safe P
      (LeaseEvent.lastTick t₀ (es.take n))
      (LeaseEvent.run P s (es.take n))) :
    ∀ n ≤ es.length, ∀ c, Owns (LeaseEvent.run P s (es.take n)) c →
      (LeaseEvent.run P s (es.take n)).chunkHolder.getChunk c
        = s.chunkHolder.getChunk c := by
  intro n hn c hown
  have h₀ : Covered t₀ s := by
    intro c hc lease hget
    rw [hpub c hc] at hget
    cases hget
  obtain ⟨-, hkept, -⟩ := LeaseEvent.run_kept h₀ htime hsafe n hn
  exact hkept.chunks c ((hkept.owns c).1 hown)

-- ==== a wipe, concretely

/-- A node that has published one chunk. -/
def publisherNode : TransportState :=
  { freshNode (Bytes.fill 16 1) (Bytes.fill 32 1)
      (ChunkHolder.new.addChunk (Bytes.fill 32 7) [1, 2, 3]
        (Bytes.fill 32 8)) 1000 with
    leaseManager := LeaseManager.new.registerOwnedContent
      (Bytes.fill 32 8) (Bytes.fill 32 9) [Bytes.fill 32 7] }

/-- A stranger's signed heartbeat for that chunk. -/
def strangerBeat (newExpiresAt : Nat) : Heartbeat :=
  let unsigned : Heartbeat :=
    { renewalToken := Bytes.fill 32 5
      newExpiresAt := newExpiresAt
      chunkIds := [Bytes.fill 32 7]
      nonce := Bytes.fill 32 6
      signature := []
      contentPubKey := Bytes.fill 32 4 }
  { unsigned with
    signature := (Prims.plain.edSign (Bytes.fill 32 4)
      unsigned.signingBytes).toList }

/-- Table order for the concrete runs. -/
def byId : IterOrder (Bytes 32) := IterOrder.bytewise

/-- A heartbeat and a sweep one second later, within one interval. -/
theorem timely_beatThenSweep (hb : Heartbeat) :
    LeaseEvent.Timely 10000
      [(10000, .heartbeat hb), (10001, .sweep byId)] where
  forward
    | 0, _ => Nat.le_refl 10000
    | 1, _ => Nat.le_succ 10000
  ticking
    | 0, _ => Nat.le_add_right 10000 1800
    | 1, _ => Nat.add_le_add_left (by decide : 1 ≤ 1800) 10000
  bounded
    | 0, _ => (by decide : 10000 ≤ U64_MAX)
    | 1, _ => (by decide : 10001 ≤ U64_MAX)

theorem own_content_kept_renewed :
    (LeaseEvent.run Prims.plain publisherNode
      [(10000, .heartbeat (strangerBeat 20000)),
        (10001, .sweep byId)]).chunkHolder.getChunk (Bytes.fill 32 7)
      = some [1, 2, 3] := by
  refine (own_content_kept Prims.plain publisherNode 10000
    [(10000, .heartbeat (strangerBeat 20000)), (10001, .sweep byId)]
    ?_ ?_ ?_ 2 (Nat.le_refl 2) (Bytes.fill 32 7) ?_).trans ?_
  · exact fun _ _ => rfl
  · exact timely_beatThenSweep _
  · intro n hn
    obtain rfl | rfl : n = 0 ∨ n = 1 := by
      simp only [List.length_cons, List.length_nil] at hn
      omega
    · intro _ _ c _ _
      decide
    · trivial
  · exact ⟨Bytes.fill 32 8, [Bytes.fill 32 7], by decide,
      List.mem_singleton_self _⟩
  · decide

/-- The same heartbeat with an expiry in the past: the sweep wipes the
chunk. -/
theorem own_content_wiped :
    Published publisherNode
      ∧ LeaseEvent.Timely 10000
          [(10000, .heartbeat (strangerBeat 0)), (10001, .sweep byId)]
      ∧ Owns publisherNode (Bytes.fill 32 7)
      ∧ publisherNode.chunkHolder.hasChunk (Bytes.fill 32 7) = true
      ∧ (LeaseEvent.run Prims.plain publisherNode
          [(10000, .heartbeat (strangerBeat 0)),
            (10001, .sweep byId)]).chunkHolder.hasChunk (Bytes.fill 32 7)
        = false := by
  refine ⟨fun _ _ => rfl, ?_, ?_, by decide, by decide⟩
  · exact timely_beatThenSweep _
  · exact ⟨Bytes.fill 32 8, [Bytes.fill 32 7], by decide,
      List.mem_singleton_self _⟩

end StaticNet
