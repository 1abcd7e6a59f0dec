/-
Who may move a lease: heartbeats through both entry points, in any order.

`process_heartbeat` and `process_heartbeat_upsert` differ in the chunks
they pass over and in the expiry they write. On a table whose leased
chunks are the held ones they are one loop (`renewLoop_eq`), so one
account of what a heartbeat writes (`upsertLoop_leases`) covers both:
a lease is as before, or it carries the heartbeat's expiry, token and
key, the token was the lease's own, and the key was the lease's own or
the lease had none (`step_leases`).
-/
import StaticNet.Leases.Kept

namespace StaticNet

namespace LeaseManager

variable {hb : Heartbeat} {held : ChunkId → Bool} {mgr : LeaseManager}

-- ========== one loop

/-- `process_heartbeat` passes over exactly the chunks without a
lease. -/
theorem renewLoop_eq (hb : Heartbeat) (ids : List ChunkId)
    (mgr : LeaseManager) (renewed : List ChunkId)
    (hheld : ∀ c, held c = (mgr.leases.get c).isSome) :
    renewLoop hb ids mgr renewed
      = upsertLoop hb hb.newExpiresAt held ids mgr renewed := by
  induction ids generalizing mgr renewed with
  | nil => rfl
  | cons c rest ih =>
      rw [renewLoop, upsertLoop, hheld]
      cases hget : mgr.leases.get c with
      | none =>
          simp only [Option.isSome_none, Bool.not_false, if_true]
          exact ih mgr renewed hheld
      | some lease =>
          simp only [Option.isSome_some, Bool.not_true,
            Bool.false_eq_true, if_false]
          split
          · rfl
          · cases matchLeaseContentKey lease hb with
            | none => rfl
            | some lease' =>
                refine ih _ _ ?_
                intro d
                rw [hheld, addLease, FMap.get_insert]
                by_cases hd : d = c
                · rw [if_pos hd, hd, hget]
                  rfl
                · rw [if_neg hd]

end LeaseManager

-- ============= calls

/-- A call of one of the two entry points. -/
inductive BeatCall
  | heartbeat (hb : Heartbeat) (now : Nat)
  | upsert (hb : Heartbeat) (now : Nat) (held : ChunkId → Bool)

namespace BeatCall

def beat : BeatCall → Heartbeat
  | heartbeat hb _ => hb
  | upsert hb _ _ => hb

def step (P : Prims) (mgr : LeaseManager) : BeatCall → LeaseManager
  | heartbeat hb now => (mgr.processHeartbeat P hb now).2
  | upsert hb now held => (mgr.processHeartbeatUpsert P hb now held).2

def run (P : Prims) (mgr : LeaseManager) (calls : List BeatCall) :
    LeaseManager :=
  calls.foldl (step P) mgr

end BeatCall

/-- A heartbeat that may move this lease: it verifies, its nonce is new,
it names the chunk and carries the lease's token. -/
structure Authorized (P : Prims) (mgr : LeaseManager) (hb : Heartbeat)
    (c : ChunkId) (lease : ChunkLease) : Prop where
  verifies : hb.verifySignature P = true
  fresh : mgr.seenNonces.get hb.nonce = none
  names : c ∈ hb.chunkIds
  token : hb.renewalToken = lease.renewalToken

open LeaseManager

variable {P : Prims} {mgr : LeaseManager} {c : ChunkId}
  {lease : ChunkLease}

theorem authorized_of_writes {hb : Heartbeat} {held : ChunkId → Bool}
    (hsig : hb.verifySignature P = true)
    (hseen : mgr.seenNonces.get hb.nonce = none)
    (hw : mgr.writes hb held c = true)
    (hget : mgr.leases.get c = some lease) :
    Authorized P mgr hb c lease := by
  obtain ⟨hnames, htoken⟩ := writes_spec hw
  exact ⟨hsig, hseen, hnames, (htoken lease hget).symm⟩

/-- A heartbeat through the plain entry point writes as the upsert
does, on the leased chunks. -/
theorem processHeartbeat_leases (P : Prims) (mgr : LeaseManager)
    (hb : Heartbeat) (now : Nat) (c : ChunkId) :
    let mgr' := (mgr.processHeartbeat P hb now).2
    mgr'.leases.get c = mgr.leases.get c
      ∨ (hb.verifySignature P = true ∧ mgr.seenNonces.get hb.nonce = none
        ∧ mgr.writes hb (fun c => (mgr.leases.get c).isSome) c = true
        ∧ ∃ lease, mgr'.leases.get c = some lease
          ∧ Stamped hb hb.newExpiresAt lease) := by
  unfold processHeartbeat
  cases hsig : hb.verifySignature P with
  | false => exact .inl rfl
  | true =>
      simp only [Bool.not_true, Bool.false_eq_true, if_false]
      cases hseen : mgr.seenNonces.get hb.nonce with
      | some t => exact .inl rfl
      | none =>
          dsimp only
          rw [renewLoop_eq hb _ _ _ fun _ => rfl]
          rcases upsertLoop_leases hb hb.chunkIds
            { mgr with seenNonces := mgr.seenNonces.insert hb.nonce now }
            [] c with hold | ⟨hheld, hmem, lease, hget, hl⟩
          · exact .inl hold
          · right
            exact ⟨trivial, rfl, mem_writes.2 ⟨hheld, hmem⟩, lease, hget,
              hl⟩

/-- One call on one lease: nothing, or a write that the owner
authorized. -/
theorem step_leases (call : BeatCall)
    (hget : mgr.leases.get c = some lease) :
    (call.step P mgr).leases.get c = some lease
      ∨ ∃ lease', (call.step P mgr).leases.get c = some lease'
        ∧ Authorized P mgr call.beat c lease
        ∧ lease'.contentPubKey = call.beat.contentPubKey
        ∧ (lease.contentPubKey = Bytes.zero 32
          ∨ lease.contentPubKey = call.beat.contentPubKey) := by
  cases call with
  | heartbeat hb now =>
      rcases processHeartbeat_leases P mgr hb now c
        with hsame | ⟨hsig, hseen, hw, lease', hget', hl⟩
      · exact .inl (hsame.trans hget)
      · exact .inr ⟨lease', hget', authorized_of_writes hsig hseen hw hget,
          hl.key, writes_key hw hget⟩
  | upsert hb now held =>
      rcases processHeartbeatUpsert_leases P mgr hb now held c
        with hsame | ⟨hsig, hseen, hw, lease', hget', hl⟩
      · exact .inl (hsame.trans hget)
      · exact .inr ⟨lease', hget', authorized_of_writes hsig hseen hw hget,
          hl.key, writes_key hw hget⟩

/-- A lease stays, and a key it has stays with it. -/
theorem step_keeps_owner (call : BeatCall)
    (hget : mgr.leases.get c = some lease) :
    ∃ lease', (call.step P mgr).leases.get c = some lease'
      ∧ (lease.contentPubKey ≠ Bytes.zero 32 →
        lease'.contentPubKey = lease.contentPubKey) := by
  rcases step_leases call hget with
    hsame | ⟨lease', hget', -, hkey, hown⟩
  · exact ⟨lease, hsame, fun _ => rfl⟩
  · refine ⟨lease', hget', fun hne => ?_⟩
    rcases hown with hzero | hown
    · exact absurd hzero hne
    · rw [hkey, hown]

theorem run_keeps_owner (calls : List BeatCall)
    (hget : mgr.leases.get c = some lease) :
    ∃ lease', (BeatCall.run P mgr calls).leases.get c = some lease'
      ∧ (lease.contentPubKey ≠ Bytes.zero 32 →
        lease'.contentPubKey = lease.contentPubKey) := by
  induction calls generalizing mgr lease with
  | nil => exact ⟨lease, hget, fun _ => rfl⟩
  | cons call calls ih =>
      obtain ⟨mid, hmid, hkey⟩ := step_keeps_owner (P := P) call hget
      obtain ⟨lease', hget', hkey'⟩ := ih hmid
      refine ⟨lease', hget', fun hne => ?_⟩
      have hsame := hkey hne
      rw [hkey' (hsame ▸ hne), hsame]

/-- Through any calls of the two entry points a lease keeps its owner,
and its expiry moves only by a heartbeat of that owner: one that
verifies under the lease's key after the call, with the lease's token
and a new nonce, and names the chunk. -/
theorem lease_ownership (P : Prims) (mgr : LeaseManager)
    (calls : List BeatCall) :
    (∀ j k, j ≤ k → ∀ c lease,
        (BeatCall.run P mgr (calls.take j)).leases.get c = some lease →
        ∃ lease',
          (BeatCall.run P mgr (calls.take k)).leases.get c = some lease'
          ∧ (lease.contentPubKey ≠ Bytes.zero 32 →
            lease'.contentPubKey = lease.contentPubKey))
      ∧ ∀ k call, calls[k]? = some call → ∀ c lease lease',
        (BeatCall.run P mgr (calls.take k)).leases.get c = some lease →
        (BeatCall.run P mgr (calls.take (k + 1))).leases.get c
          = some lease' →
        lease'.expiresAt ≠ lease.expiresAt →
        P.edCheck lease'.contentPubKey call.beat.signingBytes
            call.beat.signature = true
          ∧ call.beat.renewalToken = lease.renewalToken
          ∧ c ∈ call.beat.chunkIds
          ∧ (BeatCall.run P mgr (calls.take k)).seenNonces.get
              call.beat.nonce = none := by
  constructor
  · intro j k hjk c lease hget
    obtain ⟨n, rfl⟩ := Nat.exists_eq_add_of_le hjk
    rw [List.take_add, BeatCall.run, List.foldl_append]
    exact run_keeps_owner _ hget
  · intro k call hcall c lease lease' hget hget' hmoved
    obtain ⟨hk, rfl⟩ := List.getElem?_eq_some_iff.1 hcall
    have hstep : BeatCall.run P mgr (calls.take (k + 1))
        = (calls[k]).step P (BeatCall.run P mgr (calls.take k)) := by
      rw [List.take_succ_eq_append_getElem hk, BeatCall.run,
        List.foldl_append]
      rfl
    rw [hstep] at hget'
    rcases step_leases (P := P) calls[k] hget with
      hsame | ⟨new, hnew, hauth, hkey, -⟩
    · rw [hsame] at hget'
      exact absurd (congrArg ChunkLease.expiresAt
        (Option.some.inj hget')).symm hmoved
    · obtain rfl := Option.some.inj (hnew.symm.trans hget')
      have hsig := hauth.verifies
      unfold Heartbeat.verifySignature at hsig
      rw [hkey]
      exact ⟨hsig, hauth.token, hauth.names, hauth.fresh⟩

end StaticNet
