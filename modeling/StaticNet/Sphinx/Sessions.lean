/-
Reply sessions at a mix node, over whole runs.

A session is keyed by an id that whoever builds a reply block chooses
and that travels in clear, and `insert_session` replaces what it finds
under that id. So a cached session is its own only while no further
reply block opens under its id (`Reestablishes`); then it ends in one of
three ways, each the node's own: it is the oldest of a full cache
(`Evicts`), it is past its time (`Late`), or it stays and its replies'
nonces stay with it (`step_session`, `run_session`).
-/
import StaticNet.Sphinx.Replay

namespace StaticNet

namespace MixNode

/-- What `insert_session` does to the other sessions: the oldest goes
when the id is new and the cache full. -/
theorem insertSession_get_ne (node : MixNode) {id σ : SessionId}
    (session : CachedSession) (hne : σ ≠ id) :
    (node.insertSession id session).sessionCache.get σ
        = node.sessionCache.get σ
      ∨ ((node.insertSession id session).sessionCache.get σ = none
        ∧ node.sessionCache.get id = none
        ∧ MAX_SESSION_CACHE ≤ node.sessionCache.len
        ∧ node.sessionOrder.head? = some σ) := by
  unfold insertSession
  cases hid : node.sessionCache.get id with
  | some old =>
      simp only [FMap.contains, hid, Option.isSome_some, if_true]
      exact .inl (FMap.get_insert_ne _ _ hne)
  | none =>
      simp only [FMap.contains, hid, Option.isSome_none,
        Bool.false_eq_true, if_false]
      rw [FMap.get_insert_ne _ _ hne]
      cases hhead : node.sessionOrder.head? with
      | none => exact .inl rfl
      | some oldest =>
          by_cases hfull : MAX_SESSION_CACHE ≤ node.sessionCache.len
          · simp only [if_pos hfull]
            by_cases hold : σ = oldest
            · right
              rw [hold]
              exact ⟨FMap.get_erase_self _ _, trivial, hfull, rfl⟩
            · exact .inl (FMap.get_erase_ne _ hold)
          · simp only [if_neg hfull]
            exact .inl trivial

theorem len_insertSession (node : MixNode) (id : SessionId)
    (session : CachedSession) :
    (node.insertSession id session).sessionCache.len
      ≤ node.sessionCache.len + 1 := by
  have hgrow : ∀ m : FMap SessionId CachedSession,
      (m.insert id session).len ≤ m.len + 1 :=
    fun m => Finset.card_insert_le id m.keys
  unfold insertSession
  split
  · exact hgrow _
  · dsimp only
    split
    · split
      · exact (hgrow _).trans
          (Nat.succ_le_succ (FMap.len_erase_le _ _))
      · exact hgrow _
    · exact hgrow _

end MixNode

namespace MixCall

-- ============ events

/-- The session a call installs: its packet's MAC matches over the
placeholder only, its tag is new and its flag valid. -/
def installs (P : Prims) (node : MixNode) (call : MixCall) :
    Option (SessionId × CachedSession) :=
  match call.opened P node.privateKey with
  | none => none
  | some o =>
      if matchMac P (o.keys P) o.packet = .ok true
          ∧ o.tag P ∉ node.seenTags then
        match slotFlag P (o.keys P) o.packet with
        | .error _ => none
        | .ok flag =>
            some (o.packet.header.sessionId,
              newSession (o.keys P) (slotHop P (o.keys P) o.packet) flag
                o.draws.now)
      else none

/-- A further reply block opens under the id of a cached session. -/
def Reestablishes (P : Prims) (σ : SessionId) (node : MixNode)
    (call : MixCall) : Prop :=
  node.sessionCache.contains σ = true
    ∧ ∃ session, call.installs P node = some (σ, session)

/-- A session goes as the oldest of a full cache. -/
def Evicts (P : Prims) (σ : SessionId) (node : MixNode)
    (call : MixCall) : Prop :=
  ∃ id session, call.installs P node = some (id, session)
    ∧ node.sessionCache.get id = none
    ∧ MAX_SESSION_CACHE ≤ node.sessionCache.len
    ∧ node.sessionOrder.head? = some σ

/-- The clock a call compares sessions with. -/
def clock : MixCall → Option Nat
  | reply _ now => some now
  | clean now => some now
  | _ => none

/-- A call's clock finds the session past its time. -/
def Late (σ : SessionId) (node : MixNode) (call : MixCall) : Prop :=
  ∃ s now, node.sessionCache.get σ = some s ∧ call.clock = some now
    ∧ SESSION_TTL_SECS ≤ now - s.createdAt

/-- The nonce of the session reply a call forwards (or delivers). -/
def forwards (P : Prims) (σ : SessionId) (node : MixNode) :
    MixCall → Option (Bytes 32)
  | reply r now =>
      if r.sessionId = σ ∧ (processSessionReply P node r now).1.isOk then
        some r.nonce
      else none
  | _ => none

/-- The nonces a run forwards in a session, in order. -/
def forwarded (P : Prims) (σ : SessionId) :
    MixNode → List MixCall → List (Bytes 32)
  | _, [] => []
  | node, call :: rest =>
      (call.forwards P σ node).toList
        ++ forwarded P σ (call.step P node) rest

/-- Every step of a run is `ok` at the state it is taken from. -/
def Along (P : Prims) (ok : MixNode → MixCall → Prop) :
    MixNode → List MixCall → Prop
  | _, [] => True
  | node, call :: rest => ok node call ∧ Along P ok (call.step P node) rest

-- ========== one step

variable {P : Prims} {node : MixNode} {call : MixCall} {o : Opened}
  {σ : SessionId} {s : CachedSession}

/-- A packet's step on the sessions: none, or the installed one. -/
theorem step_installs (hopen : call.opened P node.privateKey = some o) :
    (call.installs P node = none
        ∧ (call.step P node).sessionCache = node.sessionCache)
      ∨ ∃ id session, call.installs P node = some (id, session)
        ∧ call.step P node
          = (node.insertSeenTag (o.tag P)).insertSession id session := by
  have hstep : call.step P node = (o.peel P node).2 := by
    rw [step, process_of_opened hopen]
    rfl
  rw [hstep]
  unfold installs
  rw [hopen]
  dsimp only
  rcases peel_cases P node o.shared o.packet o.kemRest o.draws with
    ⟨hmac, hpeel⟩ | ⟨surb, hmac, ⟨hseen, hpeel⟩ | ⟨hseen, hnode⟩⟩
  · left
    rw [Opened.peel, hpeel]
    simp [Opened.keys, hmac]
  · left
    rw [Opened.peel, hpeel]
    simp [Opened.tag, Opened.keys, hseen]
  · rcases hnode with ⟨hnot, hnode⟩ | ⟨rfl, flag, hflag, hnode⟩
    · left
      rw [Opened.peel, hnode]
      refine ⟨?_, rfl⟩
      rcases hnot with rfl | ⟨e, hflag⟩
      · simp [Opened.keys, hmac]
      · simp only [Opened.keys, hflag, ite_self]
    · right
      have hif : matchMac P (o.keys P) o.packet = .ok true
          ∧ o.tag P ∉ node.seenTags := ⟨hmac, hseen⟩
      rw [if_pos hif, Opened.peel, hnode]
      simp only [Opened.keys, hflag]
      exact ⟨_, _, rfl, rfl⟩

/-- A session reply's step on the sessions. -/
theorem processSessionReply_cases (P : Prims) (node : MixNode)
    (r : SessionReply) (now : Nat) :
    ((processSessionReply P node r now).1.isOk = false
        ∧ ((processSessionReply P node r now).2 = node
          ∨ ∃ s, node.sessionCache.get r.sessionId = some s
            ∧ SESSION_TTL_SECS ≤ now - s.createdAt
            ∧ (processSessionReply P node r now).2.sessionCache
              = node.sessionCache.erase r.sessionId))
      ∨ ∃ s, node.sessionCache.get r.sessionId = some s
        ∧ r.nonce ∉ s.seenNonces
        ∧ (processSessionReply P node r now).1.isOk = true
        ∧ (processSessionReply P node r now).2.sessionCache
          = node.sessionCache.insert r.sessionId
            (s.recordNonce r.nonce) := by
  unfold processSessionReply
  by_cases hbody : r.body.length = WIRE_BODY_SIZE
  · rw [if_neg (not_ne_iff.2 hbody)]
    cases hget : node.sessionCache.get r.sessionId with
    | none => exact .inl ⟨rfl, .inl rfl⟩
    | some s =>
        by_cases hlate : SESSION_TTL_SECS ≤ now - s.createdAt
        · simp only [if_pos hlate]
          exact .inl ⟨rfl, .inr ⟨s, rfl, hlate, trivial⟩⟩
        · by_cases hseen : r.nonce ∈ s.seenNonces
          · simp only [if_neg hlate, if_pos hseen]
            exact .inl ⟨rfl, .inl trivial⟩
          · simp only [if_neg hlate, if_neg hseen]
            exact .inr ⟨s, rfl, hseen, rfl, rfl⟩
  · rw [if_pos hbody]
    exact .inl ⟨rfl, .inl rfl⟩

theorem forwards_of_packet (h : call.isPacket = true) :
    call.forwards P σ node = none := by
  cases call with
  | packet p d => rfl
  | hybrid secret p d => rfl
  | reply r now => cases h
  | clean now => cases h

theorem isPacket_of_opened {privateKey : Scalar}
    (hopen : call.opened P privateKey = some o) :
    call.isPacket = true := by
  cases call with
  | packet p d => rfl
  | hybrid secret p d => rfl
  | reply r now => cases hopen
  | clean now => cases hopen

theorem step_session_reply {r : SessionReply} {now : Nat}
    (hget : node.sessionCache.get σ = some s)
    (hlate : ¬ (reply r now).Late σ node) :
    ((reply r now).forwards P σ node = none
        ∧ ((reply r now).step P node).sessionCache.get σ = some s)
      ∨ ∃ n, (reply r now).forwards P σ node = some n ∧ n ∉ s.seenNonces
        ∧ ((reply r now).step P node).sessionCache.get σ
          = some (s.recordNonce n) := by
  have hstep : (reply r now).step P node
      = (processSessionReply P node r now).2 := rfl
  rw [hstep]
  unfold forwards
  rcases processSessionReply_cases P node r now with
    ⟨hok, hnode⟩ | ⟨t, ht, hnew, hok, hcache⟩
  · left
    refine ⟨by simp [hok], ?_⟩
    rcases hnode with hnode | ⟨t, ht, hold, hcache⟩
    · rw [hnode]
      exact hget
    · have hne : σ ≠ r.sessionId := by
        intro heq
        exact hlate ⟨t, now, heq ▸ ht, rfl, hold⟩
      rw [hcache, FMap.get_erase_ne _ hne]
      exact hget
  · rw [hcache]
    by_cases hid : r.sessionId = σ
    · subst hid
      obtain rfl := Option.some.inj (ht.symm.trans hget)
      refine .inr ⟨r.nonce, by simp [hok], hnew, ?_⟩
      exact FMap.get_insert_self _ _ _
    · refine .inl ⟨by simp [hid], ?_⟩
      rw [FMap.get_insert_ne _ _ fun heq => hid heq.symm]
      exact hget

theorem step_session_clean {now : Nat}
    (hget : node.sessionCache.get σ = some s)
    (hlate : ¬ (clean now).Late σ node) :
    ((clean now).step P node).sessionCache.get σ = some s := by
  have hyoung : now - s.createdAt < SESSION_TTL_SECS := by
    by_contra hold
    exact hlate ⟨s, now, hget, rfl, Nat.not_lt.1 hold⟩
  change (node.sessionCache.retain _).get σ = some s
  rw [FMap.get_retain, hget]
  simp [hyoung]

/-- One call on one session: as before, or with one more nonce. -/
theorem step_session (hget : node.sessionCache.get σ = some s)
    (hre : ¬ call.Reestablishes P σ node) (hev : ¬ call.Evicts P σ node)
    (hlate : ¬ call.Late σ node) :
    (call.forwards P σ node = none
        ∧ (call.step P node).sessionCache.get σ = some s)
      ∨ ∃ n, call.forwards P σ node = some n ∧ n ∉ s.seenNonces
        ∧ (call.step P node).sessionCache.get σ
          = some (s.recordNonce n) := by
  cases hopen : call.opened P node.privateKey with
  | none =>
      rcases step_of_unopened hopen with
        ⟨hpacket, hstep⟩ | ⟨r, now, rfl⟩ | ⟨now, rfl⟩
      · rw [hstep]
        exact .inl ⟨forwards_of_packet hpacket, hget⟩
      · exact step_session_reply hget hlate
      · exact .inl ⟨rfl, step_session_clean hget hlate⟩
  | some o =>
      refine .inl ⟨forwards_of_packet (isPacket_of_opened hopen), ?_⟩
      rcases step_installs hopen with
        ⟨-, hsame⟩ | ⟨id, session, hinst, hstep⟩
      · rw [hsame]
        exact hget
      · have hne : σ ≠ id := by
          intro heq
          subst heq
          refine hre ⟨?_, session, hinst⟩
          rw [FMap.contains, hget]
          rfl
        rw [hstep]
        rcases (node.insertSeenTag (o.tag P)).insertSession_get_ne session
          hne with hsame | ⟨-, hnew, hfull, hhead⟩
        · rw [hsame]
          exact hget
        · exact absurd ⟨id, session, hinst, hnew, hfull, hhead⟩ hev

-- ============== runs

/-- Each cached session's nonce memory is sound. -/
def NoncesSound (node : MixNode) : Prop :=
  ∀ σ s, node.sessionCache.get σ = some s →
    s.nonces.Sound MAX_SESSION_NONCES

theorem maxSessionNonces_pos : 0 < MAX_SESSION_NONCES := by decide

theorem recordNonce_sound (h : s.nonces.Sound MAX_SESSION_NONCES)
    (n : Bytes 32) :
    (s.recordNonce n).nonces.Sound MAX_SESSION_NONCES :=
  h.push maxSessionNonces_pos

theorem newSession_sound (keys : HopKeys) (nextHop : NodeId)
    (flag : RoutingFlag) (now : Nat) :
    (newSession keys nextHop flag now).nonces.Sound MAX_SESSION_NONCES :=
  Fifo.sound_empty

theorem installs_sound {id : SessionId}
    (h : call.installs P node = some (id, s)) :
    s.nonces.Sound MAX_SESSION_NONCES := by
  unfold installs at h
  cases hopen : call.opened P node.privateKey with
  | none =>
      rw [hopen] at h
      cases h
  | some o =>
      rw [hopen] at h
      dsimp only at h
      split at h
      · cases hflag : slotFlag P (o.keys P) o.packet with
        | error e =>
            rw [hflag] at h
            cases h
        | ok flag =>
            rw [hflag, Option.some.injEq, Prod.mk.injEq] at h
            rw [← h.2]
            exact newSession_sound _ _ _ _
      · cases h

theorem step_noncesSound (hs : NoncesSound node) (call : MixCall) :
    NoncesSound (call.step P node) := by
  intro σ s hget
  cases hopen : call.opened P node.privateKey with
  | none =>
      rcases step_of_unopened hopen with
        ⟨-, hstep⟩ | ⟨r, now, rfl⟩ | ⟨now, rfl⟩
      · rw [hstep] at hget
        exact hs σ s hget
      · change (processSessionReply P node r now).2.sessionCache.get σ
          = some s at hget
        rcases processSessionReply_cases P node r now with
          ⟨-, hnode | ⟨t, -, -, hcache⟩⟩ | ⟨t, ht, -, -, hcache⟩
        · rw [hnode] at hget
          exact hs σ s hget
        · rw [hcache, FMap.get_erase] at hget
          split at hget
          · cases hget
          · exact hs σ s hget
        · rw [hcache, FMap.get_insert] at hget
          split at hget
          · rw [← Option.some.inj hget]
            exact recordNonce_sound (hs _ t ht) _
          · exact hs σ s hget
      · change (node.sessionCache.retain _).get σ = some s at hget
        rw [FMap.get_retain] at hget
        exact hs σ s (Option.filter_eq_some_iff.1 hget).1
  | some o =>
      rcases step_installs hopen with
        ⟨-, hsame⟩ | ⟨id, session, hinst, hstep⟩
      · rw [hsame] at hget
        exact hs σ s hget
      · rw [hstep] at hget
        by_cases hid : σ = id
        · subst hid
          rw [MixNode.insertSession_get_self] at hget
          rw [← Option.some.inj hget]
          exact installs_sound hinst
        · rcases (node.insertSeenTag (o.tag P)).insertSession_get_ne
            session hid with hsame | ⟨hnone, -⟩
          · rw [hsame] at hget
            exact hs σ s hget
          · rw [hnone] at hget
            cases hget

theorem run_noncesSound (hs : NoncesSound node) (calls : List MixCall) :
    NoncesSound (run P node calls) := by
  induction calls generalizing node with
  | nil => exact hs
  | cons call rest ih => exact ih (step_noncesSound hs call)

/-- No further reply block opens under the session's id while the
session is cached. -/
def Alone (P : Prims) (σ : SessionId) : MixNode → List MixCall → Prop :=
  Along P fun node call => ¬ call.Reestablishes P σ node

/-- The session is neither the oldest of a full cache nor past its
time. -/
def Undropped (P : Prims) (σ : SessionId) : MixNode → List MixCall → Prop :=
  Along P fun node call => ¬ call.Evicts P σ node ∧ ¬ call.Late σ node

/-- What a session keeps: where it leads, its key, and the nonces with
fewer than `MAX_SESSION_NONCES` behind them. -/
structure Intact (s s' : CachedSession) (passed : List (Bytes 32)) :
    Prop where
  next_hop : s'.nextHop = s.nextHop
  body_key : s'.bodyKey = s.bodyKey
  is_final : s'.isFinal = s.isFinal
  unused : passed = [] → s' = s
  nonces : ∀ n later, s.nonces.Recalls n later →
    later.length + (passed.filter fun m => m ≠ n).length
      < MAX_SESSION_NONCES →
    n ∈ s'.seenNonces

/-- A session that stays alone and is not dropped stays as it is, the
nonces of its replies apart. -/
theorem run_session (hs : NoncesSound node)
    (hget : node.sessionCache.get σ = some s) (calls : List MixCall)
    (halone : Alone P σ node calls) (hkept : Undropped P σ node calls) :
    ∃ s', (run P node calls).sessionCache.get σ = some s'
      ∧ Intact s s' (forwarded P σ node calls) := by
  induction calls generalizing node s with
  | nil =>
      refine ⟨s, hget, rfl, rfl, rfl, fun _ => rfl, ?_⟩
      intro n later hrec _
      exact hrec.mem (hs σ s hget)
  | cons call rest ih =>
      obtain ⟨hre, halone⟩ := halone
      obtain ⟨⟨hev, hlate⟩, hkept⟩ := hkept
      have hs' := step_noncesSound (P := P) hs call
      rcases step_session hget hre hev hlate with
        ⟨hfwd, hstep⟩ | ⟨m, hfwd, hnew, hstep⟩
      · obtain ⟨s', hget', hin⟩ := ih hs' hstep halone hkept
        refine ⟨s', hget', ?_⟩
        rw [forwarded, hfwd]
        exact hin
      · obtain ⟨s', hget', hin⟩ := ih hs' hstep halone hkept
        refine ⟨s', hget', hin.next_hop, hin.body_key, hin.is_final, ?_, ?_⟩
        · intro hnil
          rw [forwarded, hfwd] at hnil
          cases hnil
        · intro n later hrec hfew
          have hsound := hs σ s hget
          have hmn : m ≠ n := fun heq => hnew (heq ▸ hrec.mem hsound)
          rw [forwarded, hfwd, Option.toList_some, List.singleton_append,
            List.filter_cons_of_pos (by simpa using hmn),
            List.length_cons] at hfew
          refine hin.nonces n (later ++ [m]) ?_ ?_
          · exact hrec.push hsound hnew (by omega)
          · rw [List.length_append, List.length_singleton]
            omega

/-- A reply that is forwarded finds its nonce unseen, and leaves it as
the newest. -/
theorem forwards_reply {r : SessionReply} {now : Nat} {n : Bytes 32}
    (hs : NoncesSound node)
    (h : (reply r now).forwards P σ node = some n) :
    ∃ s, node.sessionCache.get σ = some s ∧ n ∉ s.seenNonces
      ∧ ((reply r now).step P node).sessionCache.get σ
        = some (s.recordNonce n)
      ∧ (s.recordNonce n).nonces.Recalls n [] := by
  rw [forwards] at h
  by_cases hif : r.sessionId = σ
      ∧ (processSessionReply P node r now).1.isOk = true
  · rw [if_pos hif] at h
    obtain ⟨rfl, hok⟩ := hif
    obtain rfl := Option.some.inj h
    rcases processSessionReply_cases P node r now with
      ⟨hbad, -⟩ | ⟨s, hget, hnew, -, hcache⟩
    · rw [hbad] at hok
      cases hok
    · refine ⟨s, hget, hnew, ?_, ?_⟩
      · change (processSessionReply P node r now).2.sessionCache.get _ = _
        rw [hcache, FMap.get_insert_self]
      · exact (hs _ s hget).recalls_push maxSessionNonces_pos hnew
  · rw [if_neg hif] at h
    cases h

/-- In every state a node reaches: while no further reply block opens
under its id, a cached session is intact after any calls that do not
drop it; and a nonce it has forwarded is not forwarded again before
`MAX_SESSION_NONCES` others were. -/
theorem reply_sessions_isolated (P : Prims) (privateKey : Scalar)
    (nodeId : NodeId) (before : List MixCall) (σ : SessionId) :
    let node := run P (.new privateKey nodeId) before
    (∀ s calls, node.sessionCache.get σ = some s →
        Alone P σ node calls → Undropped P σ node calls →
        ∃ s', (run P node calls).sessionCache.get σ = some s'
          ∧ Intact s s' (forwarded P σ node calls))
      ∧ ∀ r now n calls r' now',
        (reply r now).forwards P σ node = some n →
        Alone P σ ((reply r now).step P node) calls →
        Undropped P σ ((reply r now).step P node) calls →
        (reply r' now').forwards P σ
          (run P ((reply r now).step P node) calls) = some n →
        MAX_SESSION_NONCES
          ≤ ((forwarded P σ ((reply r now).step P node) calls).filter
            fun m => m ≠ n).length := by
  intro node
  have hs : NoncesSound node := by
    refine run_noncesSound ?_ before
    intro σ s hget
    cases hget
  refine ⟨fun s calls hget => run_session hs hget calls, ?_⟩
  intro r now n calls r' now' hfirst halone hkept hagain
  obtain ⟨s, -, -, hstep, hrec⟩ := forwards_reply hs hfirst
  have hs' := step_noncesSound (P := P) hs (reply r now)
  obtain ⟨s', hget', hin⟩ := run_session hs' hstep calls halone hkept
  obtain ⟨s'', hget'', hnew, -⟩ :=
    forwards_reply (run_noncesSound hs' calls) hagain
  obtain rfl := Option.some.inj (hget'.symm.trans hget'')
  by_contra hfew
  refine hnew (hin.nonces n [] hrec ?_)
  rw [List.length_nil, Nat.zero_add]
  exact Nat.not_le.1 hfew

-- ======= a shared id

/-- A transparent instance whose MAC shows the last byte it covers. -/
def markedPrims : Prims :=
  { Prims.plain with
    blake3Keyed := fun k m =>
      Bytes.ofList 32 (m.getLast?.getD 0 :: k.toList) }

/-- The MAC it gives under a key over bytes that end in `b`. -/
def markedMac (b : UInt8) (key : SymmetricKey) : Mac :=
  Bytes.ofList 16 ((Bytes.ofList 32 (b :: key.toList)).toList.take 16)

/-- A body that is not the placeholder. -/
@[irreducible]
def blockBody : List UInt8 := List.replicate (WIRE_BODY_SIZE - 1) 0 ++ [1]

theorem length_blockBody : blockBody.length = WIRE_BODY_SIZE := by
  rw [blockBody, List.length_append, List.length_replicate]
  decide

/-- The first packet of a reply block whose hop secret is `x · someKey`, under
session id `id`: the MAC is right for the placeholder, the body is not
the placeholder. -/
def blockPacketFor (id : SessionId) (x : Scalar) : SphinxPacket where
  header :=
    { version := SPHINX_VERSION_CLASSICAL
      ephemeralKey := Prims.scalarPoint x
      sessionId := id
      routingInfo := List.replicate ROUTING_INFO_SIZE 0
      mac := markedMac 0 (Prims.scalarPoint (x * Prims.someKey)) }
  kemCiphertexts := []
  body := blockBody

/-- Such a packet under session id zero. -/
abbrev blockPacket (x : Scalar) : SphinxPacket :=
  blockPacketFor (Bytes.zero 32) x

/-- A reply in the session of that id. -/
def zeroReply : SessionReply := ⟨Bytes.zero 32, Bytes.fill 32 9, blockBody⟩

theorem opened_blockPacket (id : SessionId) (x : Scalar) :
    (packet (blockPacketFor id x) zeroDraws).opened markedPrims Prims.someKey
      = some ⟨Prims.scalarPoint (x * Prims.someKey), blockPacketFor id x, [],
        zeroDraws⟩ := by
  have hok : (blockPacketFor id x).header.version = SPHINX_VERSION_CLASSICAL
      ∧ (blockPacketFor id x).header.routingInfo.length = ROUTING_INFO_SIZE
      ∧ (blockPacketFor id x).body.length = WIRE_BODY_SIZE :=
    ⟨rfl, List.length_replicate, length_blockBody⟩
  have hsecret : markedPrims.pointMul (Prims.scalarPoint x) Prims.someKey
      = Prims.scalarPoint (x * Prims.someKey) := by
    change Prims.scalarPoint
        (Prims.pointScalar (Prims.scalarPoint x) * Prims.someKey)
      = _
    rw [Prims.pointScalar_scalarPoint]
  rw [opened, if_pos hok]
  simp only [blockPacketFor, hsecret]

theorem markedMac_ne (key : SymmetricKey) :
    markedMac 0 key ≠ markedMac 1 key := by
  intro h
  have hhead := congrArg (fun m : Mac => m.toList.head?) h
  simp [markedMac, Bytes.ofList] at hhead

theorem expectedMac_marked {b : UInt8} {packet : SphinxPacket}
    {body : List UInt8} (hlast : body.getLast? = some b)
    (shared : SymmetricKey) :
    expectedMac markedPrims (deriveHopKeys markedPrims shared) packet body
      = markedMac b shared := by
  have hmark : (packet.header.version
      :: (packet.header.ephemeralKey.toList
        ++ packet.header.sessionId.toList
        ++ packet.header.routingInfo.take SLOT_SIZE
        ++ body)).getLast?.getD 0 = b := by
    rw [List.getLast?_cons, List.getLast?_append, hlast]
    rfl
  unfold expectedMac computeMac
  change markedMac _ shared = _
  rw [hmark]

/-- Its MAC matches over the placeholder only. -/
theorem matchMac_blockPacket (id : SessionId) (x : Scalar) :
    matchMac markedPrims
      (deriveHopKeys markedPrims (Prims.scalarPoint (x * Prims.someKey)))
      (blockPacketFor id x) = .ok true := by
  have hbody : (blockPacketFor id x).body.getLast? = some 1 := by
    rw [blockPacketFor, blockBody, List.getLast?_concat]
  have hplace : placeholder.getLast? = some 0 := by
    rw [placeholder, List.getLast?_replicate]
    rfl
  have hmac : (blockPacketFor id x).header.mac
      = markedMac 0 (Prims.scalarPoint (x * Prims.someKey)) := rfl
  simp only [matchMac, expectedMac_marked hbody,
    expectedMac_marked hplace, hmac, markedMac_ne, if_false, if_true]

/-- The session such a packet opens. -/
def blockSession (x : Scalar) : CachedSession :=
  let keys := deriveHopKeys markedPrims (Prims.scalarPoint (x * Prims.someKey))
  newSession keys (slotHop markedPrims keys (blockPacket x)) .forward 0

def blockTag (x : Scalar) : Mac :=
  (deriveHopKeys markedPrims (Prims.scalarPoint (x * Prims.someKey))).tag

theorem installs_blockPacket (id : SessionId) {x : Scalar}
    (hkey : node.privateKey = Prims.someKey)
    (hflag : slotFlag markedPrims
      (deriveHopKeys markedPrims (Prims.scalarPoint (x * Prims.someKey)))
      (blockPacketFor id x) = .ok .forward)
    (hnew : blockTag x ∉ node.seenTags) :
    (packet (blockPacketFor id x) zeroDraws).installs markedPrims node
      = some (id, blockSession x) := by
  unfold installs
  rw [hkey, opened_blockPacket]
  dsimp only
  rw [if_pos ⟨matchMac_blockPacket id x, hnew⟩]
  simp only [Opened.keys, hflag]
  rfl

/-- The session is then cached under the id, whatever was there. -/
theorem step_blockPacket (id : SessionId) {x : Scalar} (hkey : node.privateKey = Prims.someKey)
    (hflag : slotFlag markedPrims
      (deriveHopKeys markedPrims (Prims.scalarPoint (x * Prims.someKey)))
      (blockPacketFor id x) = .ok .forward)
    (hnew : blockTag x ∉ node.seenTags) :
    ((packet (blockPacketFor id x) zeroDraws).step markedPrims
        node).sessionCache.get id = some (blockSession x) := by
  have hopen : (packet (blockPacketFor id x) zeroDraws).opened markedPrims
      node.privateKey
      = some ⟨Prims.scalarPoint (x * Prims.someKey), blockPacketFor id x, [],
        zeroDraws⟩ := by
    rw [hkey]
    exact opened_blockPacket id x
  have hinst := installs_blockPacket id hkey hflag hnew
  rcases step_installs hopen with ⟨hnone, -⟩ | ⟨other, session, hsome, hstep⟩
  · rw [hinst] at hnone
    cases hnone
  · rw [hinst, Option.some.injEq, Prod.mk.injEq] at hsome
    obtain ⟨rfl, rfl⟩ := hsome
    rw [hstep, MixNode.insertSession_get_self]

theorem forwards_of_session {r : SessionReply} {now : Nat}
    (hget : node.sessionCache.get r.sessionId = some s)
    (hbody : r.body.length = WIRE_BODY_SIZE)
    (hyoung : now - s.createdAt < SESSION_TTL_SECS)
    (hnew : r.nonce ∉ s.seenNonces) :
    (reply r now).forwards P r.sessionId node = some r.nonce := by
  rw [forwards]
  refine if_pos ⟨rfl, ?_⟩
  simp only [processSessionReply, hbody, ne_eq, not_true_eq_false, if_false,
    hget, Nat.not_le.2 hyoung, hnew]
  rfl

theorem zeroReply_forwards {x : Scalar}
    (hget : node.sessionCache.get (Bytes.zero 32)
      = some (blockSession x)) :
    (reply zeroReply 0).forwards markedPrims (Bytes.zero 32) node
      = some (Bytes.fill 32 9) :=
  forwards_of_session (r := zeroReply) hget length_blockBody
    (show 0 - 0 < SESSION_TTL_SECS by decide) (Finset.notMem_empty _)

/-- A node that has opened one reply block. -/
def blockNode : MixNode :=
  run markedPrims zeroNode [packet (blockPacket 0) zeroDraws]

theorem blockNode_eq :
    blockNode = (packet (blockPacket 0) zeroDraws).step markedPrims
      zeroNode := by
  rw [blockNode, run, List.foldl_cons, List.foldl_nil]

theorem slotFlag_blockPacket_zero :
    slotFlag markedPrims
      (deriveHopKeys markedPrims (Prims.scalarPoint (0 * Prims.someKey)))
      (blockPacket 0) = .ok .forward := by
  rfl

theorem slotFlag_blockPacket_one :
    slotFlag markedPrims
      (deriveHopKeys markedPrims (Prims.scalarPoint (1 * Prims.someKey)))
      (blockPacket 1) = .ok .forward := by
  rfl

theorem blockNode_session :
    blockNode.sessionCache.get (Bytes.zero 32)
      = some (blockSession 0) := by
  rw [blockNode_eq, step_blockPacket (Bytes.zero 32) rfl
    slotFlag_blockPacket_zero (Finset.notMem_empty _)]

/-- A tag comes in only by being accepted. -/
theorem accepts_of_seen {t : Mac}
    (hmem : t ∈ (call.step P node).tags.seen) :
    t ∈ node.tags.seen ∨ call.accepts P node = some t := by
  rcases (step_tags P node call).2 with ⟨-, htags⟩ | ⟨u, hacc, -, htags⟩
  · rw [htags] at hmem
    exact .inl hmem
  · rw [htags] at hmem
    rcases Fifo.mem_of_mem_push hmem with hmem | rfl
    · exact .inl hmem
    · exact .inr hacc

/-- The second block's tag is not the first's. -/
theorem blockTag_unseen (hkey : node.privateKey = Prims.someKey)
    (hnew : blockTag 1 ∉ node.tags.seen) :
    blockTag 1 ∉ ((packet (blockPacket 0) zeroDraws).step markedPrims
      node).tags.seen := by
  have hne : blockTag 0 ≠ blockTag 1 := by decide
  refine mt accepts_of_seen (not_or.2 ⟨hnew, ?_⟩)
  rw [accepts, hkey, opened_blockPacket]
  dsimp only
  split
  · exact fun hacc => hne (Option.some.inj hacc)
  · exact (Option.some_ne_none _).symm

theorem blockTag_fresh : blockTag 1 ∉ blockNode.tags.seen := by
  rw [blockNode_eq]
  exact blockTag_unseen rfl (Finset.notMem_empty _)

theorem blockNode_privateKey : blockNode.privateKey = Prims.someKey := by
  rw [blockNode, run_privateKey]
  rfl

-- ------ a busy session

theorem len_step_reply (P : Prims) (node : MixNode) (r : SessionReply)
    (now : Nat) : ((reply r now).step P node).sessionCache.len
      ≤ node.sessionCache.len := by
  change (processSessionReply P node r now).2.sessionCache.len ≤ _
  rcases processSessionReply_cases P node r now with
    ⟨-, hnode | ⟨s, -, -, hcache⟩⟩ | ⟨s, hget, -, -, hcache⟩
  · rw [hnode]
  · rw [hcache]
    exact FMap.len_erase_le _ _
  · rw [hcache]
    refine (FMap.len_insert_of_contains _ ?_).le
    rw [FMap.contains, hget]
    rfl

/-- Opening one reply block caches one more session at most. -/
theorem len_step_packet (hopen : call.opened P node.privateKey = some o) :
    (call.step P node).sessionCache.len ≤ node.sessionCache.len + 1 := by
  rcases step_installs hopen with ⟨-, hsame⟩ | ⟨id, session, -, hstep⟩
  · rw [hsame]
    exact Nat.le_succ _
  · rw [hstep]
    exact MixNode.len_insertSession _ id session

theorem blockNode_len : blockNode.sessionCache.len ≤ 1 := by
  rw [blockNode_eq]
  exact len_step_packet (opened_blockPacket (Bytes.zero 32) 0)

/-- The first packet of another reply block, under an id of its own. -/
def otherBlock : MixCall :=
  packet (blockPacketFor (Bytes.fill 32 1) 1) zeroDraws

/-- A reply, the other block's packet, the same reply once more, and one
with a new nonce. -/
def busyCalls : List MixCall :=
  [reply zeroReply 0, otherBlock, reply zeroReply 0,
    reply { zeroReply with nonce := Bytes.fill 32 8 } 0]

/-- A reply at time zero neither opens nor drops a session. -/
theorem steady_reply (r : SessionReply) (node : MixNode) :
    ¬ (reply r 0).Reestablishes P σ node
      ∧ ¬ (reply r 0).Evicts P σ node ∧ ¬ (reply r 0).Late σ node := by
  refine ⟨?_, ?_, ?_⟩
  · rintro ⟨-, session, hinst⟩
    cases hinst
  · rintro ⟨id, session, hinst, -⟩
    cases hinst
  · rintro ⟨s, now, -, hclock, hlate⟩
    obtain rfl := Option.some.inj hclock
    rw [Nat.zero_sub] at hlate
    exact absurd hlate (by decide)

/-- Nor does the other block, where the cache has room. -/
theorem steady_otherBlock (hkey : node.privateKey = Prims.someKey)
    (hroom : node.sessionCache.len < MAX_SESSION_CACHE) :
    ¬ otherBlock.Reestablishes markedPrims (Bytes.zero 32) node
      ∧ ¬ otherBlock.Evicts markedPrims (Bytes.zero 32) node
      ∧ ¬ otherBlock.Late (Bytes.zero 32) node := by
  refine ⟨?_, ?_, ?_⟩
  · rintro ⟨-, session, hinst⟩
    unfold installs otherBlock at hinst
    rw [hkey, opened_blockPacket] at hinst
    dsimp only at hinst
    split at hinst
    · split at hinst
      · cases hinst
      · have hid := (Prod.mk.inj (Option.some.inj hinst)).1
        exact absurd (Bytes.fill_injective (by decide) hid) (by decide)
    · cases hinst
  · rintro ⟨-, -, -, -, hfull, -⟩
    exact absurd hfull (Nat.not_le.2 hroom)
  · rintro ⟨s, now, -, hclock, -⟩
    cases hclock

/-- Such calls leave the session of id zero to itself while there is room
for a session each. -/
theorem steady_calls {calls : List MixCall}
    (hcalls : ∀ c ∈ calls, c = otherBlock ∨ ∃ r, c = reply r 0)
    (hkey : node.privateKey = Prims.someKey)
    (hroom : node.sessionCache.len + calls.length < MAX_SESSION_CACHE) :
    Alone markedPrims (Bytes.zero 32) node calls
      ∧ Undropped markedPrims (Bytes.zero 32) node calls := by
  induction calls generalizing node with
  | nil => exact ⟨trivial, trivial⟩
  | cons c rest ih =>
      rw [List.length_cons] at hroom
      have hlater := fun c hc => hcalls c (List.mem_cons_of_mem _ hc)
      have hkey' := (step_tags markedPrims node c).1.trans hkey
      rcases hcalls c List.mem_cons_self with rfl | ⟨r, rfl⟩
      · obtain ⟨hre, hdrop⟩ := steady_otherBlock hkey (by omega)
        have hopen := opened_blockPacket (Bytes.fill 32 1) 1
        rw [← hkey] at hopen
        have hlen := len_step_packet hopen
        have hfew : (otherBlock.step markedPrims node).sessionCache.len
            + rest.length < MAX_SESSION_CACHE := by
          change _ ≤ node.sessionCache.len + 1 at hlen
          unfold otherBlock
          omega
        obtain ⟨halone, hkept⟩ := ih hlater hkey' hfew
        exact ⟨⟨hre, halone⟩, hdrop, hkept⟩
      · obtain ⟨hre, hdrop⟩ := steady_reply (P := markedPrims)
          (σ := Bytes.zero 32) r node
        have hlen := len_step_reply markedPrims node r 0
        obtain ⟨halone, hkept⟩ := ih hlater hkey' (by omega)
        exact ⟨⟨hre, halone⟩, hdrop, hkept⟩

/-- The other block opens while the session is cached, and the repeated
nonce is refused: the session stays as it was opened. -/
theorem reply_sessions_isolated_busy :
    (reply zeroReply 0).forwards markedPrims (Bytes.zero 32) blockNode
        = some (Bytes.fill 32 9)
      ∧ (run markedPrims blockNode
          [reply zeroReply 0, otherBlock]).sessionCache.get (Bytes.fill 32 1)
        = some (blockSession 1)
      ∧ (reply zeroReply 0).forwards markedPrims (Bytes.zero 32)
          (run markedPrims blockNode [reply zeroReply 0, otherBlock])
        ≠ some (Bytes.fill 32 9)
      ∧ ∃ s', (run markedPrims blockNode busyCalls).sessionCache.get
          (Bytes.zero 32) = some s'
        ∧ Intact (blockSession 0) s'
          (forwarded markedPrims (Bytes.zero 32) blockNode busyCalls) := by
  obtain ⟨hintact, honce⟩ := reply_sessions_isolated markedPrims
    Prims.someKey (Bytes.zero 16) [packet (blockPacket 0) zeroDraws]
    (Bytes.zero 32)
  have hnode : run markedPrims (.new Prims.someKey (Bytes.zero 16))
      [packet (blockPacket 0) zeroDraws] = blockNode := by
    rw [blockNode, zeroNode]
  rw [hnode] at hintact honce
  have hlen := blockNode_len
  have hfew : 1 + 4 < MAX_SESSION_CACHE := by decide
  have hfirst := zeroReply_forwards blockNode_session
  obtain ⟨htags, hkey⟩ :=
    processSessionReply_tags markedPrims blockNode zeroReply 0
  have hprivate : ((reply zeroReply 0).step markedPrims
      blockNode).privateKey = Prims.someKey :=
    hkey.trans blockNode_privateKey
  have hnew : blockTag 1
      ∉ ((reply zeroReply 0).step markedPrims blockNode).seenTags := by
    intro hmem
    refine blockTag_fresh ?_
    rw [← htags]
    exact hmem
  refine ⟨hfirst, ?_, ?_, ?_⟩
  · unfold run otherBlock
    rw [List.foldl_cons, List.foldl_cons, List.foldl_nil,
      step_blockPacket (Bytes.fill 32 1) hprivate rfl hnew]
  · unfold run at honce ⊢
    rw [List.foldl_cons]
    intro hagain
    have hreplied := len_step_reply markedPrims blockNode zeroReply 0
    have hcalls : ∀ c ∈ [otherBlock], c = otherBlock ∨ ∃ r, c = reply r 0 :=
      fun c hc => .inl (List.mem_singleton.1 hc)
    have hroom : ((reply zeroReply 0).step markedPrims
        blockNode).sessionCache.len + [otherBlock].length
        < MAX_SESSION_CACHE := by
      rw [List.length_singleton]
      omega
    obtain ⟨halone, hkept⟩ := steady_calls hcalls hprivate hroom
    have hmany := honce zeroReply 0 (Bytes.fill 32 9) [otherBlock] zeroReply
      0 hfirst halone hkept hagain
    have hnone : forwarded markedPrims (Bytes.zero 32)
        ((reply zeroReply 0).step markedPrims blockNode) [otherBlock]
        = [] := rfl
    rw [hnone] at hmany
    exact absurd hmany (by decide)
  · have hcalls : ∀ c ∈ busyCalls, c = otherBlock ∨ ∃ r, c = reply r 0 := by
      intro c hc
      simp only [busyCalls, List.mem_cons, List.not_mem_nil, or_false]
        at hc
      rcases hc with rfl | rfl | rfl | rfl
      · exact .inr ⟨_, rfl⟩
      · exact .inl rfl
      · exact .inr ⟨_, rfl⟩
      · exact .inr ⟨_, rfl⟩
    have hroom : blockNode.sessionCache.len + busyCalls.length
        < MAX_SESSION_CACHE := by
      rw [show busyCalls.length = 4 from rfl]
      omega
    obtain ⟨halone, hkept⟩ := steady_calls hcalls blockNode_privateKey hroom
    exact hintact (blockSession 0) busyCalls blockNode_session halone hkept

/-- A second reply block under the same id takes the session over: its
key changes and the nonce the first has forwarded is forwarded again,
with no time passed and no other nonce between. -/
theorem shared_id_forwards_twice :
    blockNode.sessionCache.get (Bytes.zero 32) = some (blockSession 0)
      ∧ (reply zeroReply 0).forwards markedPrims (Bytes.zero 32) blockNode
        = some (Bytes.fill 32 9)
      ∧ (run markedPrims blockNode
          [reply zeroReply 0,
            packet (blockPacket 1) zeroDraws]).sessionCache.get
            (Bytes.zero 32) = some (blockSession 1)
      ∧ (blockSession 1).bodyKey ≠ (blockSession 0).bodyKey
      ∧ (reply zeroReply 0).forwards markedPrims (Bytes.zero 32)
          (run markedPrims blockNode
            [reply zeroReply 0, packet (blockPacket 1) zeroDraws])
        = some (Bytes.fill 32 9) := by
  have hagain : (run markedPrims blockNode
      [reply zeroReply 0,
        packet (blockPacket 1) zeroDraws]).sessionCache.get
        (Bytes.zero 32) = some (blockSession 1) := by
    unfold run
    rw [List.foldl_cons, List.foldl_cons, List.foldl_nil]
    obtain ⟨htags, hkey⟩ :=
      processSessionReply_tags markedPrims blockNode zeroReply 0
    have hnew : blockTag 1
        ∉ ((reply zeroReply 0).step markedPrims blockNode).seenTags := by
      intro hmem
      refine blockTag_fresh ?_
      rw [← htags]
      exact hmem
    have hprivate : ((reply zeroReply 0).step markedPrims
        blockNode).privateKey = Prims.someKey :=
      hkey.trans blockNode_privateKey
    rw [step_blockPacket (Bytes.zero 32) hprivate slotFlag_blockPacket_one
      hnew]
  refine ⟨blockNode_session, zeroReply_forwards blockNode_session, hagain,
    by decide, zeroReply_forwards hagain⟩

end MixCall

end StaticNet
