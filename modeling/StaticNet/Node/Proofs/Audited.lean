/-
What becomes of storage challenges, and of the peers they go to.

# Once

A challenge waits until a response, a sweep or a failed sending takes it
out, whichever section is first, and it is decided only then (`Tickets`).
So a response that comes twice, late, or for nothing counts for nothing,
and what is in the books is one verdict for each decided challenge
(`Ledger`).

# Counters

The books are also written by reconciliation, which overwrites a record,
and by pruning, which drops it. While neither happens to a peer its two
counters are the counts of its verdicts, as `u32`s count (`Tallied`).

# Who is denied

A peer that has what it is challenged for, and answers in time, has no
failure on its record (`Clean`), and the challenge gate never closes on it.
A peer of whose challenges none was answered with the segment that was
asked for is denied from its eleventh verdict on.
-/
import Mathlib.Tactic.NormNum
import StaticNet.Accounting.Balance
import StaticNet.Lib.Tickets
import StaticNet.Node.Audit

namespace StaticNet

open Exact

-- ======== the ledger

namespace Audit

variable {P : Prims} {net : Audit} {q : NodeId}

/-- What a verdict stands on: a response for the challenge, or a sweep that
found it too old. -/
inductive Founded (P : Prims)
    (issued : List (Bytes 32 × VerificationPending))
    (received : List VerificationResponse) (sweeps : List Nat) :
    Verdict → Prop
  | answered (r : VerificationResponse) (p : VerificationPending)
      (hissued : (r.nonce, p) ∈ issued) (hreceived : r ∈ received) :
      Founded P issued received sweeps ⟨r.nonce, p.challengedNode,
        verifySegmentResponse P r p.expectedHash⟩
  | expired (nonce : Bytes 32) (p : VerificationPending) (now : Nat)
      (hissued : (nonce, p) ∈ issued) (hnow : now ∈ sweeps)
      (hold : VERIFICATION_TIMEOUT_SECS < now - p.sentAt) :
      Founded P issued received sweeps ⟨nonce, p.challengedNode, false⟩

theorem Founded.mono {issued issued' : List (Bytes 32 × VerificationPending)}
    {received received' : List VerificationResponse} {sweeps sweeps' : List Nat}
    (hi : issued ⊆ issued') (hr : received ⊆ received')
    (hs : sweeps ⊆ sweeps') {v : Verdict}
    (h : Founded P issued received sweeps v) :
    Founded P issued' received' sweeps' v := by
  cases h with
  | answered r p hissued hreceived =>
      exact .answered r p (hi hissued) (hr hreceived)
  | expired nonce p now hissued hnow hold =>
      exact .expired nonce p now (hi hissued) (hs hnow) hold

/-- A drawn nonce is a new one, and verdicts go into the books through
`record` only. -/
def Fresh (net : Audit) : AuditMove → Prop
  | .issue t => t.nonce ∉ net.nonces
  | .books e => ∀ p success now, e ≠ .challenge p success now
  | _ => True

structure Ledger (P : Prims) (net : Audit) : Prop where
  tickets : Tickets net.nonces net.pending.keys net.closed
  issued : ∀ nonce p, net.pending.get nonce = some p → (nonce, p) ∈ net.issued
  letters : ∀ receiver c, AuditLetter.challenge receiver c ∈ net.sent →
    ∃ p, (c.nonce, p) ∈ net.issued ∧ p.challengedNode = receiver
      ∧ p.chunkId = c.chunkId ∧ p.segmentIndex = c.segmentIndex
  founded : ∀ v ∈ net.verdicts ++ net.counted,
    Founded P net.issued net.received net.sweeps v

theorem ledger_start (accounting : AccountingState)
    (holders : NodeId → ChunkHolder) :
    Ledger P (start accounting holders) := by
  refine ⟨.start, fun nonce p h => ?_, nofun, nofun⟩
  cases h

/-- A nonce stands for one challenge. -/
theorem Ledger.same (h : Ledger P net) {nonce : Bytes 32}
    {p p' : VerificationPending} (hp : (nonce, p) ∈ net.issued)
    (hp' : (nonce, p') ∈ net.issued) : p = p' :=
  (Prod.mk.inj (List.inj_on_of_nodup_map h.tickets.fresh hp hp' rfl)).2

/-- What is kept of a challenge is what it asks. -/
theorem challenge_asks {t : VerificationTick} {p : VerificationPending}
    {c : VerificationChallenge} (h : t.challenge = some (p, c)) :
    c.nonce = t.nonce ∧ p.chunkId = c.chunkId
      ∧ p.segmentIndex = c.segmentIndex ∧ p.sentAt = t.now
      ∧ ∃ (hashes : List (Bytes 32)) (i : Nat),
        t.segmentHashes c.chunkId = some hashes
          ∧ hashes[i]? = some p.expectedHash
          ∧ p.segmentIndex = UInt32.ofNat i := by
  unfold VerificationTick.challenge at h
  split at h
  · cases h
  · split at h
    · cases h
    · rename_i hashes hhashes
      dsimp only at h
      split at h
      · cases h
      · rename_i expected hexpected
        cases h
        exact ⟨rfl, rfl, rfl, rfl, hashes, _, hhashes, hexpected, rfl⟩

theorem Ledger.issue (h : Ledger P net) {t : VerificationTick}
    (hnew : t.nonce ∉ net.nonces) : Ledger P (net.issue t) := by
  unfold Audit.issue
  cases hc : t.challenge with
  | none => exact h
  | some pc =>
      obtain ⟨p, c⟩ := pc
      obtain ⟨hnonce, hchunk, hsegment, -, -⟩ := challenge_asks hc
      refine ⟨?_, ?_, ?_, ?_⟩
      · show Tickets ((net.issued ++ [(t.nonce, p)]).map Prod.fst) _ _
        rw [List.map_append]
        exact h.tickets.issue hnew
      · intro nonce p' hget
        change (if nonce = t.nonce then some p else net.pending.get nonce)
          = some p' at hget
        by_cases hn : nonce = t.nonce
        · rw [if_pos hn] at hget
          cases hget
          exact hn ▸ List.mem_append_right _ (List.mem_singleton_self _)
        · rw [if_neg hn] at hget
          exact List.mem_append_left _ (h.issued nonce p' hget)
      · intro receiver c' hmem
        rcases List.mem_append.1 hmem with hmem | hmem
        · obtain ⟨p', hp', hrest⟩ := h.letters receiver c' hmem
          exact ⟨p', List.mem_append_left _ hp', hrest⟩
        · cases List.mem_singleton.1 hmem
          refine ⟨p, ?_, rfl, hchunk, hsegment⟩
          rw [hnonce]
          exact List.mem_append_right _ (List.mem_singleton_self _)
      · intro v hv
        exact (h.founded v hv).mono (List.subset_append_left _ _)
          (List.Subset.refl _) (List.Subset.refl _)

theorem Ledger.withdraw (h : Ledger P net) (nonce : Bytes 32) :
    Ledger P (net.withdraw nonce) := by
  unfold Audit.withdraw
  cases hget : net.pending.get nonce with
  | none =>
      have hcontains : net.pending.contains nonce = false := by
        rw [FMap.contains, hget, Option.isSome_none]
      rw [FMap.erase_of_get_none hget, hcontains]
      simpa using h
  | some p =>
      have hcontains : net.pending.contains nonce = true := by
        rw [FMap.contains, hget, Option.isSome_some]
      rw [hcontains]
      refine ⟨?_, ?_, h.letters, h.founded⟩
      · refine h.tickets.close (FMap.mem_keys_of_get hget) ?_
        show ((net.verdicts ++ net.counted).map Verdict.nonce
          ++ (net.withdrawn ++ [nonce])).Perm _
        rw [← List.append_assoc]
        exact List.perm_append_singleton _ _
      · intro nonce' p' hget'
        change (if nonce' = nonce then none else net.pending.get nonce')
          = some p' at hget'
        by_cases hn : nonce' = nonce
        · rw [if_pos hn] at hget'
          cases hget'
        · rw [if_neg hn] at hget'
          exact h.issued nonce' p' hget'

/-- A response takes its challenge out, and is the first to do so. -/
theorem Ledger.respond (h : Ledger P net) (r : VerificationResponse) :
    Ledger P (net.respond P r) := by
  unfold Audit.respond
  cases hget : net.pending.get r.nonce with
  | none =>
      rw [FMap.erase_of_get_none hget, Option.map_none, Option.toList_none,
        List.append_nil]
      refine ⟨h.tickets, h.issued, h.letters, fun v hv => ?_⟩
      exact (h.founded v hv).mono (List.Subset.refl _)
        (List.subset_append_left _ _) (List.Subset.refl _)
  | some p =>
      rw [Option.map_some, Option.toList_some]
      refine ⟨?_, ?_, h.letters, ?_⟩
      · refine h.tickets.close (FMap.mem_keys_of_get hget) ?_
        show (((net.verdicts ++ [(⟨r.nonce, p.challengedNode, _⟩ : Verdict)])
          ++ net.counted).map Verdict.nonce ++ net.withdrawn).Perm _
        rw [List.append_assoc, List.map_append, List.append_assoc,
          List.singleton_append, List.map_cons, List.cons_append]
        refine List.perm_middle.trans ?_
        unfold closed
        rw [List.map_append, List.append_assoc]
      · intro nonce p' hget'
        change (if nonce = r.nonce then none else net.pending.get nonce)
          = some p' at hget'
        by_cases hn : nonce = r.nonce
        · rw [if_pos hn] at hget'
          cases hget'
        · rw [if_neg hn] at hget'
          exact h.issued nonce p' hget'
      · intro v hv
        simp only [List.mem_append, List.mem_singleton] at hv
        rcases hv with (hv | rfl) | hv
        · exact (h.founded v (List.mem_append_left _ hv)).mono
            (List.Subset.refl _) (List.subset_append_left _ _)
            (List.Subset.refl _)
        · exact .answered r p (h.issued _ _ hget)
            (List.mem_append_right _ (List.mem_singleton_self _))
        · exact (h.founded v (List.mem_append_right _ hv)).mono
            (List.Subset.refl _) (List.subset_append_left _ _)
            (List.Subset.refl _)

-- ========= the sweep

theorem due_nodup (net : Audit) (order : IterOrder (Bytes 32)) (now : Nat) :
    (net.due order now).Nodup :=
  (order.nodup _).filter _

theorem mem_due {order : IterOrder (Bytes 32)} {now : Nat} {nonce : Bytes 32} :
    nonce ∈ net.due order now ↔ ∃ p, net.pending.get nonce = some p
      ∧ VERIFICATION_TIMEOUT_SECS < now - p.sentAt := by
  unfold due
  rw [List.mem_filter, order.mem_iter, Option.any_eq_true]
  simp only [decide_eq_true_eq]
  constructor
  · rintro ⟨-, hdue⟩
    exact hdue
  · rintro ⟨p, hget, hold⟩
    exact ⟨FMap.mem_keys_of_get hget, p, hget, hold⟩

/-- The verdicts of a sweep. -/
theorem mem_timeouts {nonces : List (Bytes 32)} {v : Verdict} :
    v ∈ nonces.filterMap (fun nonce => (net.pending.get nonce).map
        fun p => (⟨nonce, p.challengedNode, false⟩ : Verdict))
      ↔ ∃ nonce ∈ nonces, ∃ p, net.pending.get nonce = some p
        ∧ v = ⟨nonce, p.challengedNode, false⟩ := by
  rw [List.mem_filterMap]
  constructor
  · rintro ⟨nonce, hmem, hv⟩
    obtain ⟨p, hget, hv⟩ := Option.map_eq_some_iff.1 hv
    exact ⟨nonce, hmem, p, hget, hv.symm⟩
  · rintro ⟨nonce, hmem, p, hget, rfl⟩
    exact ⟨nonce, hmem, by rw [hget, Option.map_some]⟩

/-- One verdict for each challenge it takes out. -/
theorem timeouts_nonce {nonces : List (Bytes 32)}
    (h : ∀ nonce ∈ nonces, nonce ∈ net.pending.keys) :
    (nonces.filterMap fun nonce => (net.pending.get nonce).map
      fun p => (⟨nonce, p.challengedNode, false⟩ : Verdict)).map
        Verdict.nonce = nonces := by
  induction nonces with
  | nil => rfl
  | cons nonce nonces ih =>
      have hkey := (net.pending.mem_keys nonce).1 (h nonce List.mem_cons_self)
      obtain ⟨p, hget⟩ := Option.isSome_iff_exists.1 hkey
      rw [List.filterMap_cons_some (by rw [hget, Option.map_some]),
        List.map_cons, ih fun n hn => h n (List.mem_cons_of_mem _ hn)]

theorem Ledger.sweep (h : Ledger P net) (order : IterOrder (Bytes 32))
    (now : Nat) : Ledger P (net.sweep order now) := by
  have hopen : ∀ nonce ∈ net.due order now, nonce ∈ net.pending.keys := by
    intro nonce hmem
    obtain ⟨p, hget, -⟩ := mem_due.1 hmem
    exact FMap.mem_keys_of_get hget
  refine ⟨?_, ?_, h.letters, ?_⟩
  · show Tickets _ ((net.due order now).foldl FMap.erase net.pending).keys _
    rw [FMap.keys_eraseAll]
    refine h.tickets.closeAll hopen (due_nodup net order now) ?_
    show (((net.verdicts ++ _) ++ net.counted).map Verdict.nonce
      ++ net.withdrawn).Perm _
    rw [List.append_assoc, List.map_append, List.map_append,
      timeouts_nonce hopen, List.append_assoc]
    refine (List.perm_append_comm_assoc _ _ _).trans ?_
    unfold closed
    simp only [List.map_append, List.append_assoc]
    exact (List.perm_append_comm_assoc _ _ _).append_left _
  · intro nonce p hget
    change ((net.due order now).foldl FMap.erase net.pending).get nonce
      = some p at hget
    rw [FMap.get_eraseAll] at hget
    by_cases hmem : nonce ∈ net.due order now
    · rw [if_pos hmem] at hget
      cases hget
    · rw [if_neg hmem] at hget
      exact h.issued nonce p hget
  · intro v hv
    change v ∈ (net.verdicts ++ _) ++ net.counted at hv
    rw [List.mem_append, List.mem_append] at hv
    have hkept : ∀ v ∈ net.verdicts ++ net.counted,
        Founded P net.issued net.received (net.sweeps ++ [now]) v :=
      fun v hv => (h.founded v hv).mono (List.Subset.refl _)
        (List.Subset.refl _) (List.subset_append_left _ _)
    rcases hv with (hv | hv) | hv
    · exact hkept v (List.mem_append_left _ hv)
    · obtain ⟨nonce, hmem, p, hget, rfl⟩ := mem_timeouts.1 hv
      obtain ⟨p', hget', hold⟩ := mem_due.1 hmem
      rw [hget] at hget'
      cases hget'
      exact .expired nonce p now (h.issued nonce p hget)
        (List.mem_append_right _ (List.mem_singleton_self _)) hold
    · exact hkept v (List.mem_append_right _ hv)

-- ======== every move

/-- The verdicts, before and after one of them goes into the books. -/
theorem record_perm {i : Nat} {v : Verdict} (h : net.verdicts[i]? = some v)
    (now : UInt64) :
    ((net.record i now).verdicts ++ (net.record i now).counted).Perm
      (net.verdicts ++ net.counted) := by
  obtain ⟨hlt, hv⟩ := List.getElem?_eq_some_iff.1 h
  unfold record
  rw [h]
  show (net.verdicts.eraseIdx i ++ (net.counted ++ [v])).Perm _
  rw [← List.append_assoc]
  refine (List.perm_append_singleton _ _).trans ?_
  rw [← List.cons_append, ← hv]
  exact (List.getElem_cons_eraseIdx_perm hlt).append_right _

theorem Ledger.record (h : Ledger P net) (i : Nat) (now : UInt64) :
    Ledger P (net.record i now) := by
  cases hget : net.verdicts[i]? with
  | none =>
      unfold Audit.record
      rw [hget]
      exact h
  | some v =>
      have hperm := record_perm hget now
      have hclosed : (net.record i now).closed.Perm net.closed := by
        unfold Audit.record at hperm ⊢
        rw [hget] at hperm ⊢
        exact (hperm.map _).append_right _
      unfold Audit.record at hperm hclosed ⊢
      rw [hget] at hperm hclosed ⊢
      exact ⟨h.tickets.perm hclosed, h.issued, h.letters,
        fun v hv => h.founded v (hperm.mem_iff.1 hv)⟩

/-- An answer is about the challenge that it answers. -/
theorem Ledger.deliver (h : Ledger P net) (i : Nat) :
    Ledger P (net.deliver P i) := by
  unfold Audit.deliver
  split
  · exact h
  · refine ⟨h.tickets, h.issued, fun receiver c hmem => ?_, h.founded⟩
    rcases List.mem_append.1 hmem with hmem | hmem
    · exact h.letters receiver c hmem
    · cases List.mem_singleton.1 hmem
  · exact h.respond _

theorem Ledger.step (h : Ledger P net) {mv : AuditMove}
    (hfresh : Fresh net mv) : Ledger P (net.step P mv) := by
  cases mv with
  | issue t => exact h.issue hfresh
  | withdraw nonce => exact h.withdraw nonce
  | sweep order now => exact h.sweep order now
  | deliver i => exact h.deliver i
  | forge r => exact h.respond r
  | record i now => exact h.record i now
  | store q holder => exact ⟨h.tickets, h.issued, h.letters, h.founded⟩
  | books e => exact ⟨h.tickets, h.issued, h.letters, h.founded⟩

-- ====== the counters

/-- An operation on the books that does not overwrite the record of a peer
and does not drop it. -/
def Keeps (q : NodeId) (st : AccountingState) : AccountingEvent → Prop
  | .reconcile incoming now =>
      (st.reconcile incoming now).peers.get q = st.peers.get q
  | .prune maxAge now =>
      (st.pruneInactivePeers maxAge now).peers.get q = st.peers.get q
  | .pruneWithGrace maxAge partitionThreshold grace now =>
      (st.pruneInactivePeersWithGrace maxAge partitionThreshold grace
        now).peers.get q = st.peers.get q
  | _ => True

def KeepsRecord (q : NodeId) (net : Audit) : AuditMove → Prop
  | .books e => Keeps q net.accounting e
  | _ => True

/-- The verdicts of one kind that are in the books for a peer. -/
def tally (counted : List Verdict) (q : NodeId) (success : Bool) : Nat :=
  counted.countP fun v => v.node = q && v.success = success

/-- All that are in the books for it. -/
def booked (counted : List Verdict) (q : NodeId) : Nat :=
  counted.countP fun v => v.node = q

/-- The two counters, from what they were. -/
def Tallied (q : NodeId) (before : PeerCredit) (net : Audit) : Prop :=
  (net.accounting.record q).successfulChallenges
      = before.successfulChallenges
        + UInt32.ofNat (tally net.counted q true)
    ∧ (net.accounting.record q).failedChallenges
      = before.failedChallenges
        + UInt32.ofNat (tally net.counted q false)

theorem record_updPeer (st : AccountingState) (p : NodeId)
    (f : PeerCredit → PeerCredit) :
    (st.updPeer p f).record q
      = if q = p then f (st.record p) else st.record q := by
  unfold AccountingState.record
  rw [AccountingState.get_updPeer]
  by_cases hq : q = p
  · rw [if_pos hq, if_pos hq]
    rfl
  · rw [if_neg hq, if_neg hq]

/-- An update that leaves the counters alone. -/
theorem counters_updPeer (st : AccountingState) (p : NodeId)
    {f : PeerCredit → PeerCredit}
    (hwon : ∀ c, (f c).successfulChallenges = c.successfulChallenges)
    (hlost : ∀ c, (f c).failedChallenges = c.failedChallenges) :
    ((st.updPeer p f).record q).successfulChallenges
        = (st.record q).successfulChallenges
      ∧ ((st.updPeer p f).record q).failedChallenges
        = (st.record q).failedChallenges := by
  rw [record_updPeer]
  by_cases hq : q = p
  · rw [if_pos hq, hq]
    exact ⟨hwon _, hlost _⟩
  · rw [if_neg hq]
    exact ⟨rfl, rfl⟩

/-- The rest of the accounting leaves them alone, too. -/
theorem counters_books {st : AccountingState} {e : AccountingEvent}
    (hfresh : ∀ p success now, e ≠ .challenge p success now)
    (hkeeps : Keeps q st e) :
    ((e.step st).record q).successfulChallenges
        = (st.record q).successfulChallenges
      ∧ ((e.step st).record q).failedChallenges
        = (st.record q).failedChallenges := by
  have hsame : ∀ st' : AccountingState, st'.peers.get q = st.peers.get q →
      (st'.record q).successfulChallenges = (st.record q).successfulChallenges
        ∧ (st'.record q).failedChallenges
          = (st.record q).failedChallenges := by
    intro st' hget
    unfold AccountingState.record
    rw [hget]
    exact ⟨rfl, rfl⟩
  cases e with
  | serve peer bytes now =>
      unfold AccountingEvent.step
      dsimp only
      split
      · exact counters_updPeer st peer (f := (·.recordServed bytes now))
          (fun _ => rfl) (fun _ => rfl)
      · exact ⟨rfl, rfl⟩
  | received peer bytes now =>
      exact counters_updPeer st peer (f := (·.recordReceived bytes now))
        (fun _ => rfl) (fun _ => rfl)
  | prepayment peer bytes =>
      exact counters_updPeer st peer (fun _ => rfl) (fun _ => rfl)
  | challenge peer success now => exact absurd rfl (hfresh peer success now)
  | reconcile incoming now => exact hsame _ hkeeps
  | prune maxAge now => exact hsame _ hkeeps
  | pruneWithGrace maxAge threshold grace now => exact hsame _ hkeeps

theorem tally_concat (counted : List Verdict) (v : Verdict) (success : Bool) :
    tally (counted ++ [v]) q success = tally counted q success
      + if v.node = q ∧ v.success = success then 1 else 0 := by
  unfold tally
  rw [List.countP_append, List.countP_singleton]
  simp only [Bool.and_eq_true, decide_eq_true_eq]

/-- The verdicts about a peer, of both kinds. -/
theorem tally_add (counted : List Verdict) (q : NodeId) :
    tally counted q true + tally counted q false = booked counted q := by
  induction counted with
  | nil => rfl
  | cons v counted ih =>
      unfold tally booked at ih ⊢
      simp only [List.countP_cons]
      rw [← ih]
      cases v.success <;> by_cases hq : v.node = q <;> simp [hq] <;> omega

/-- A verdict in the books raises its counter by one. -/
theorem Tallied.record {before : PeerCredit} (h : Tallied q before net)
    (i : Nat) (now : UInt64) : Tallied q before (net.record i now) := by
  unfold Audit.record
  cases hget : net.verdicts[i]? with
  | none => exact h
  | some v =>
      obtain ⟨hwon, hlost⟩ := h
      unfold Tallied
      dsimp only
      rw [tally_concat, tally_concat]
      unfold bookVerdict AccountingState.recordChallengeSuccess
        AccountingState.recordChallengeFailure
      by_cases hq : v.node = q
      · cases hsuccess : v.success with
        | true =>
            rw [if_pos rfl, record_updPeer, if_pos hq.symm, hq]
            simp [PeerCredit.recordChallengeSuccess, hwon, hlost,
              UInt32.add_assoc]
        | false =>
            rw [if_neg (by decide), record_updPeer, if_pos hq.symm, hq]
            simp [PeerCredit.recordChallengeFailure, hwon, hlost,
              UInt32.add_assoc]
      · have hother : ∀ f, ((net.accounting.updPeer v.node f).record q)
            = net.accounting.record q := fun f => by
          rw [record_updPeer, if_neg (Ne.symm hq)]
        split <;> simp [hother, hq, hwon, hlost]

theorem Tallied.step {before : PeerCredit} (h : Tallied q before net)
    {mv : AuditMove} (hfresh : Fresh net mv) (hkeeps : KeepsRecord q net mv) :
    Tallied q before (net.step P mv) := by
  cases mv with
  | issue t =>
      show Tallied q before (net.issue t)
      unfold Audit.issue
      split
      · exact h
      · exact h
  | deliver i =>
      show Tallied q before (net.deliver P i)
      unfold Audit.deliver
      split
      · exact h
      · exact h
      · exact h
  | record i now => exact h.record i now
  | books e =>
      obtain ⟨hwon, hlost⟩ := counters_books hfresh hkeeps
      exact ⟨hwon.trans h.1, hlost.trans h.2⟩
  | withdraw nonce => exact h
  | sweep order now => exact h
  | forge r => exact h
  | store q' holder => exact h

-- ======== the holder

/-- The segment that is asked for is one of a chunk that the peer keeps, and
its hash is expected. -/
def Genuine (P : Prims) (content : ChunkId → List UInt8)
    (kept : Set ChunkId) (p : VerificationPending) : Prop :=
  p.chunkId ∈ kept
    ∧ ∃ segment, ((content p.chunkId).toChunks SEGMENT_SIZE)[
        p.segmentIndex.toNat]? = some segment
      ∧ P.blake3 segment = p.expectedHash

/-- A move as a peer may expect it that keeps its chunks: it is challenged
for these, by the hashes of their segments; no sweep finds a challenge of
it too old; nobody answers in its place; it keeps its chunks; and nobody
else's books blame it. -/
def Sincere (P : Prims) (q : NodeId) (content : ChunkId → List UInt8)
    (kept : Set ChunkId) (net : Audit) : AuditMove → Prop
  | .issue t => ∀ p c, t.challenge = some (p, c) → p.challengedNode = q →
      c.chunkId ∈ kept ∧ t.segmentHashes c.chunkId
        = some (((content c.chunkId).toChunks SEGMENT_SIZE).map P.blake3)
  | .sweep _ now => ∀ nonce p, net.pending.get nonce = some p →
      p.challengedNode = q → now - p.sentAt ≤ VERIFICATION_TIMEOUT_SECS
  | .forge r => ∀ p, net.pending.get r.nonce = some p → p.challengedNode ≠ q
  | .store q' holder => q' = q →
      ∀ id ∈ kept, holder.getChunk id = some (content id)
  | .books (.reconcile incoming _) => ∀ entry ∈ incoming, entry.1 = q →
      entry.2.failedChallenges = 0
  | _ => True

structure Clean (P : Prims) (q : NodeId) (content : ChunkId → List UInt8)
    (kept : Set ChunkId) (net : Audit) : Prop where
  ledger : Ledger P net
  genuine : ∀ nonce p, (nonce, p) ∈ net.issued → p.challengedNode = q →
    Genuine P content kept p
  holds : ∀ id ∈ kept, (net.holders q).getChunk id = some (content id)
  known : ∀ r, AuditLetter.response r ∈ net.sent → r.nonce ∈ net.nonces
  answers : ∀ r, AuditLetter.response r ∈ net.sent →
    ∀ p, (r.nonce, p) ∈ net.issued → p.challengedNode = q →
      verifySegmentResponse P r p.expectedHash = true
  verdicts : ∀ v ∈ net.verdicts ++ net.counted, v.node = q →
    v.success = true
  clear : (net.accounting.record q).failedChallenges = 0

variable {content : ChunkId → List UInt8} {kept : Set ChunkId}

/-- A challenge drawn from the hashes of a publication. -/
theorem genuine_challenge {t : VerificationTick} {p : VerificationPending}
    {c : VerificationChallenge} (hc : t.challenge = some (p, c))
    (hkept : c.chunkId ∈ kept) (hsize : (content c.chunkId).length < 2 ^ 32)
    (hhashes : t.segmentHashes c.chunkId
      = some (((content c.chunkId).toChunks SEGMENT_SIZE).map P.blake3)) :
    Genuine P content kept p := by
  obtain ⟨-, hchunk, -, -, hashes, i, hget, hi, hindex⟩ := challenge_asks hc
  rw [hhashes] at hget
  cases hget
  rw [List.getElem?_map] at hi
  obtain ⟨segment, hsegment, hhash⟩ := Option.map_eq_some_iff.1 hi
  have hlt : i < 2 ^ 32 := by
    rw [toChunks_eq (by decide), getElem?_windows (by decide)] at hsegment
    by_cases hin : i * SEGMENT_SIZE < (content c.chunkId).length
    · have hle : i ≤ i * SEGMENT_SIZE := Nat.le_mul_of_pos_right i (by decide)
      omega
    · rw [if_neg hin] at hsegment
      cases hsegment
  have htoNat : p.segmentIndex.toNat = i := by
    rw [hindex, UInt32.toNat_ofNat']
    exact Nat.mod_eq_of_lt hlt
  rw [← hchunk] at hkept hsegment
  exact ⟨hkept, segment, htoNat ▸ hsegment, hhash⟩

/-- What the holder answers passes. -/
theorem genuine_answer {holder : ChunkHolder} {p : VerificationPending}
    {c : VerificationChallenge} (hp : Genuine P content kept p)
    (hchunk : p.chunkId = c.chunkId) (hsegment : p.segmentIndex = c.segmentIndex)
    (hholds : ∀ id ∈ kept, holder.getChunk id = some (content id)) :
    verifySegmentResponse P (handleVerificationChallenge holder c)
      p.expectedHash = true := by
  obtain ⟨hkept, segment, hget, hhash⟩ := hp
  rw [hchunk] at hkept hget
  rw [hsegment] at hget
  rw [handleVerificationChallenge_segment (hholds _ hkept) hget]
  exact (verifySegmentResponse_iff _ _ _).2 ⟨rfl, hhash⟩

/-- A response that passes, if it is for the peer, does it no harm. -/
theorem Clean.respond (h : Clean P q content kept net)
    {r : VerificationResponse}
    (hr : ∀ p, net.pending.get r.nonce = some p → p.challengedNode = q →
      verifySegmentResponse P r p.expectedHash = true) :
    Clean P q content kept (net.respond P r) := by
  refine ⟨h.ledger.respond r, h.genuine, h.holds, h.known, h.answers, ?_,
    h.clear⟩
  intro v hv hq
  change v ∈ (net.verdicts ++ _) ++ net.counted at hv
  rw [List.mem_append, List.mem_append] at hv
  rcases hv with (hv | hv) | hv
  · exact h.verdicts v (List.mem_append_left _ hv) hq
  · obtain ⟨p, hget, rfl⟩ := Option.map_eq_some_iff.1 (Option.mem_toList.1 hv)
    exact hr p hget hq
  · exact h.verdicts v (List.mem_append_right _ hv) hq

theorem Clean.issue (h : Clean P q content kept net) {t : VerificationTick}
    (hsize : ∀ id ∈ kept, (content id).length < 2 ^ 32)
    (hfresh : Fresh net (.issue t))
    (hsincere : Sincere P q content kept net (.issue t)) :
    Clean P q content kept (net.issue t) := by
  have hledger := h.ledger.issue hfresh
  unfold Audit.issue at hledger ⊢
  cases hc : t.challenge with
  | none => exact h
  | some pc =>
      obtain ⟨p, c⟩ := pc
      rw [hc] at hledger
      refine ⟨hledger, ?_, h.holds, ?_, ?_, h.verdicts, h.clear⟩
      · intro nonce p' hmem hq
        rcases List.mem_append.1 hmem with hmem | hmem
        · exact h.genuine nonce p' hmem hq
        · cases List.mem_singleton.1 hmem
          obtain ⟨hkept, hhashes⟩ := hsincere p c hc hq
          exact genuine_challenge hc hkept (hsize _ hkept) hhashes
      · intro r hmem
        rcases List.mem_append.1 hmem with hmem | hmem
        · show r.nonce ∈ (net.issued ++ [(t.nonce, p)]).map Prod.fst
          rw [List.map_append]
          exact List.mem_append_left _ (h.known r hmem)
        · cases List.mem_singleton.1 hmem
      · intro r hmem p' hissued hq
        have hmem : AuditLetter.response r ∈ net.sent :=
          (List.mem_append.1 hmem).resolve_right
            fun hmem => by cases List.mem_singleton.1 hmem
        rcases List.mem_append.1 hissued with hissued | hissued
        · exact h.answers r hmem p' hissued hq
        · obtain ⟨hnonce, -⟩ := Prod.mk.inj (List.mem_singleton.1 hissued)
          exact absurd (hnonce ▸ h.known r hmem) hfresh

theorem Clean.deliver (h : Clean P q content kept net) (i : Nat) :
    Clean P q content kept (net.deliver P i) := by
  have hledger := h.ledger.deliver i
  unfold Audit.deliver at hledger ⊢
  cases hget : net.sent[i]? with
  | none => exact h
  | some letter =>
      rw [hget] at hledger
      have hmem := List.mem_of_getElem? hget
      cases letter with
      | response r =>
          refine h.respond fun p hp hq => ?_
          exact h.answers r hmem p (h.ledger.issued _ _ hp) hq
      | challenge receiver c =>
          obtain ⟨p, hissued, hnode, hchunk, hsegment⟩ :=
            h.ledger.letters receiver c hmem
          refine ⟨hledger, h.genuine, h.holds, ?_, ?_, h.verdicts, h.clear⟩
          · intro r hr
            rcases List.mem_append.1 hr with hr | hr
            · exact h.known r hr
            · cases List.mem_singleton.1 hr
              exact List.mem_map.2 ⟨_, hissued, rfl⟩
          · intro r hr p' hp' hq
            rcases List.mem_append.1 hr with hr | hr
            · exact h.answers r hr p' hp' hq
            · cases List.mem_singleton.1 hr
              -- the nonce tells whose challenge it is
              obtain rfl := h.ledger.same hissued hp'
              refine genuine_answer (h.genuine _ _ hissued hq) hchunk
                hsegment ?_
              rw [← hnode, hq]
              exact h.holds

/-- No challenge of the peer is due. -/
theorem Clean.sweep (h : Clean P q content kept net)
    (order : IterOrder (Bytes 32)) (now : Nat)
    (hprompt : ∀ nonce p, net.pending.get nonce = some p →
      p.challengedNode = q → now - p.sentAt ≤ VERIFICATION_TIMEOUT_SECS) :
    Clean P q content kept (net.sweep order now) := by
  refine ⟨h.ledger.sweep order now, h.genuine, h.holds, h.known, h.answers,
    ?_, h.clear⟩
  intro v hv hq
  change v ∈ (net.verdicts ++ _) ++ net.counted at hv
  rw [List.mem_append, List.mem_append] at hv
  rcases hv with (hv | hv) | hv
  · exact h.verdicts v (List.mem_append_left _ hv) hq
  · obtain ⟨nonce, hmem, p, hget, rfl⟩ := mem_timeouts.1 hv
    obtain ⟨p', hget', hold⟩ := mem_due.1 hmem
    rw [hget] at hget'
    cases hget'
    exact absurd hold (Nat.not_lt.2 (hprompt nonce p hget hq))
  · exact h.verdicts v (List.mem_append_right _ hv) hq

/-- What goes into the books for the peer is a success. -/
theorem Clean.record (h : Clean P q content kept net) (i : Nat)
    (now : UInt64) : Clean P q content kept (net.record i now) := by
  have hledger := h.ledger.record i now
  cases hget : net.verdicts[i]? with
  | none =>
      unfold Audit.record
      rw [hget]
      exact h
  | some v =>
      have hperm := record_perm hget now
      have hv := h.verdicts v
        (List.mem_append_left _ (List.mem_of_getElem? hget))
      unfold Audit.record at hledger hperm ⊢
      rw [hget] at hledger hperm ⊢
      refine ⟨hledger, h.genuine, h.holds, h.known, h.answers,
        fun v' hv' => h.verdicts v' (hperm.mem_iff.1 hv'), ?_⟩
      unfold bookVerdict AccountingState.recordChallengeSuccess
        AccountingState.recordChallengeFailure
      dsimp only
      by_cases hq : v.node = q
      · rw [if_pos (hv hq), record_updPeer, if_pos hq.symm, hq]
        exact h.clear
      · have hother : ∀ f, ((net.accounting.updPeer v.node f).record q)
            = net.accounting.record q := fun f => by
          rw [record_updPeer, if_neg (Ne.symm hq)]
        split <;> rw [hother] <;> exact h.clear

/-- The record of a peer that nobody blames. -/
theorem clear_reconcile {st : AccountingState}
    {incoming : List (NodeId × PeerCredit)} {now : UInt64}
    (hclear : (st.record q).failedChallenges = 0)
    (hin : ∀ entry ∈ incoming, entry.1 = q →
      entry.2.failedChallenges = 0) :
    ((st.reconcile incoming now).record q).failedChallenges = 0 := by
  cases hget : (st.reconcile incoming now).peers.get q with
  | none =>
      unfold AccountingState.record
      rw [hget]
      rfl
  | some c =>
      have hrecord : (st.reconcile incoming now).record q = c := by
        unfold AccountingState.record
        rw [hget]
        rfl
      rw [hrecord]
      rcases get_reconcile_cases hget with hadopts | hours
      · have hmem := (LastWrite.mem_of_latest hadopts.1).resolve_right nofun
        obtain ⟨entry, hentry, heq⟩ := List.mem_filterMap.1 hmem
        by_cases hok : entry.1 = q ∧ entry.2.admitted now = true
        · rw [if_pos hok] at heq
          cases heq
          exact hin entry hentry hok.1
        · rw [if_neg hok] at heq
          cases heq
      · unfold AccountingState.record at hclear
        rw [hours] at hclear
        exact hclear

/-- A record that is dropped starts anew. -/
theorem clear_retain {st : AccountingState}
    (keep : NodeId → PeerCredit → Bool)
    (hclear : (st.record q).failedChallenges = 0) :
    (({ st with peers := st.peers.retain keep } : AccountingState).record
      q).failedChallenges = 0 := by
  unfold AccountingState.record at hclear ⊢
  dsimp only
  rw [FMap.get_retain]
  cases hget : st.peers.get q with
  | none => rfl
  | some c =>
      rw [hget] at hclear
      rw [Option.filter_some]
      split
      · exact hclear
      · rfl

theorem Clean.books (h : Clean P q content kept net) {e : AccountingEvent}
    (hfresh : Fresh net (.books e))
    (hsincere : Sincere P q content kept net (.books e)) :
    ((e.step net.accounting).record q).failedChallenges = 0 := by
  cases e with
  | reconcile incoming now => exact clear_reconcile h.clear hsincere
  | prune maxAge now => exact clear_retain _ h.clear
  | pruneWithGrace maxAge threshold grace now => exact clear_retain _ h.clear
  | serve peer bytes now =>
      exact (counters_books hfresh trivial).2.trans h.clear
  | received peer bytes now =>
      exact (counters_books hfresh trivial).2.trans h.clear
  | prepayment peer bytes =>
      exact (counters_books hfresh trivial).2.trans h.clear
  | challenge peer success now => exact absurd rfl (hfresh peer success now)

theorem Clean.step (h : Clean P q content kept net) {mv : AuditMove}
    (hsize : ∀ id ∈ kept, (content id).length < 2 ^ 32)
    (hfresh : Fresh net mv) (hsincere : Sincere P q content kept net mv) :
    Clean P q content kept (net.step P mv) := by
  have hledger := h.ledger.step hfresh
  cases mv with
  | issue t => exact h.issue hsize hfresh hsincere
  | sweep order now => exact h.sweep order now hsincere
  | deliver i => exact h.deliver i
  | forge r =>
      exact h.respond fun p hget hq => absurd hq (hsincere p hget)
  | record i now => exact h.record i now
  | withdraw nonce =>
      exact ⟨hledger, h.genuine, h.holds, h.known, h.answers, h.verdicts,
        h.clear⟩
  | store q' holder =>
      refine ⟨hledger, h.genuine, ?_, h.known, h.answers, h.verdicts,
        h.clear⟩
      show ∀ id ∈ kept,
        ((Function.update net.holders q' holder) q).getChunk id = _
      by_cases hq : q' = q
      · subst hq
        rw [Function.update_self]
        exact hsincere rfl
      · rw [Function.update_of_ne (Ne.symm hq)]
        exact h.holds
  | books e =>
      exact ⟨hledger, h.genuine, h.holds, h.known, h.answers, h.verdicts,
        h.books hfresh hsincere⟩

-- ========== the gate

/-- A record without failures passes the challenge gate. -/
theorem not_denied {c : PeerCredit} (h : c.failedChallenges = 0) :
    c.denied = false := by
  have htotal : c.totalChallenges = c.successfulChallenges := by
    unfold PeerCredit.totalChallenges
    rw [h, UInt32.add_zero]
  have hrate : c.challengeSuccessRate = 1 := by
    unfold PeerCredit.challengeSuccessRate
    rw [htotal]
    by_cases hzero : c.successfulChallenges = 0
    · rw [if_pos hzero]
    · rw [if_neg hzero]
      apply div_self
      have : c.successfulChallenges.toNat ≠ 0 := fun hnat =>
        hzero (UInt32.toNat_inj.1 hnat)
      exact_mod_cast this
  unfold PeerCredit.denied
  rw [hrate, Bool.and_eq_false_iff]
  exact .inr (decide_eq_false (by norm_num))

/-- The challenge gate in numbers: more than ten verdicts, and more
failures than successes. -/
theorem denied_iff {c : PeerCredit} {won lost : Nat}
    (hwon : c.successfulChallenges = UInt32.ofNat won)
    (hlost : c.failedChallenges = UInt32.ofNat lost)
    (hbound : won + lost < 2 ^ 32) :
    c.denied = true ↔ 10 < won + lost ∧ won < lost := by
  have htotal : c.totalChallenges = UInt32.ofNat (won + lost) := by
    unfold PeerCredit.totalChallenges
    rw [hwon, hlost, UInt32.ofNat_add]
  have htoNat : ∀ n, n < 2 ^ 32 → (UInt32.ofNat n).toNat = n := fun n hn => by
    rw [UInt32.toNat_ofNat']
    exact Nat.mod_eq_of_lt hn
  have hgate : 10 < c.totalChallenges ↔ 10 < won + lost := by
    rw [UInt32.lt_iff_toNat_lt, htotal, htoNat _ hbound]
    rfl
  unfold PeerCredit.denied
  rw [Bool.and_eq_true, decide_eq_true_eq, decide_eq_true_eq, hgate]
  refine and_congr_right fun hten => ?_
  have hsome : c.totalChallenges ≠ 0 := by
    rw [htotal]
    intro hzero
    have := congrArg UInt32.toNat hzero
    rw [htoNat _ hbound] at this
    change won + lost = 0 at this
    omega
  have hpos : (0 : ℚ) < ((won + lost : Nat) : ℚ) := by
    exact_mod_cast Nat.lt_of_le_of_lt (Nat.zero_le _) hten
  unfold PeerCredit.challengeSuccessRate
  rw [if_neg hsome, htotal, hwon, htoNat _ hbound, htoNat won (by omega),
    div_lt_div_iff₀ hpos (by norm_num), one_mul]
  constructor
  · intro h
    have : won * 2 < won + lost := by exact_mod_cast h
    omega
  · intro h
    have : won * 2 < won + lost := by omega
    exact_mod_cast this

-- ========== the runs

theorem ledger_run {accounting : AccountingState}
    {holders : NodeId → ChunkHolder} {moves : List AuditMove}
    (hfresh : Along (step P) Fresh (start accounting holders) moves) :
    Ledger P ((start accounting holders).run P moves) :=
  (always_of_along (fun _ _ hmv h => h.step hmv) hfresh
    (ledger_start accounting holders)).last

theorem tallied_run {accounting : AccountingState}
    {holders : NodeId → ChunkHolder} {moves : List AuditMove}
    (hfresh : Along (step P) Fresh (start accounting holders) moves)
    (hkeeps : Along (step P) (KeepsRecord q) (start accounting holders)
      moves) :
    Tallied q (accounting.record q)
      ((start accounting holders).run P moves) := by
  refine (always_of_along (fun _ _ hmv h => h.step hmv.1 hmv.2)
    (hfresh.and hkeeps) ?_).last
  exact ⟨(UInt32.add_zero _).symm, (UInt32.add_zero _).symm⟩

/-- What a run makes of the challenges. -/
structure Settles (P : Prims) (net : Audit) : Prop where
  /-- a challenge waits, or is withdrawn, or has one verdict -/
  tickets : Tickets net.nonces net.pending.keys net.closed
  /-- each verdict is that of a response, or of a sweep -/
  founded : ∀ v ∈ net.verdicts ++ net.counted,
    Founded P net.issued net.received net.sweeps v
  /-- nothing that is too old is left by a sweep -/
  swept : ∀ order now nonce p,
    (net.sweep order now).pending.get nonce = some p →
      now - p.sentAt ≤ VERIFICATION_TIMEOUT_SECS
  /-- when nothing waits, every challenge is in the books or withdrawn -/
  all : net.pending = ∅ → net.verdicts = [] →
    (net.counted.map Verdict.nonce ++ net.withdrawn).Perm net.nonces

theorem Ledger.settles (h : Ledger P net) : Settles P net := by
  refine ⟨h.tickets, h.founded, ?_, ?_⟩
  · intro order now nonce p hget
    change ((net.due order now).foldl FMap.erase net.pending).get nonce
      = some p at hget
    rw [FMap.get_eraseAll] at hget
    by_cases hmem : nonce ∈ net.due order now
    · rw [if_pos hmem] at hget
      cases hget
    · rw [if_neg hmem] at hget
      exact Nat.not_lt.1 fun hold => hmem (mem_due.2 ⟨p, hget, hold⟩)
  · intro hpending hverdicts
    have hclosed : net.closed
        = net.counted.map Verdict.nonce ++ net.withdrawn := by
      unfold closed
      rw [hverdicts, List.nil_append]
    rw [← hclosed, List.perm_ext_iff_of_nodup h.tickets.once h.tickets.fresh]
    refine fun nonce => ⟨h.tickets.known nonce, fun hmem => ?_⟩
    refine h.tickets.closed_of_issued hmem ?_
    rw [hpending]
    exact Finset.notMem_empty nonce

/-- Every challenge is decided once, by a response that came for it or by a
sweep, whatever is delivered, late, again or never, and whatever anybody
sends; and the counters of a peer count its verdicts for as long as its
record is neither overwritten nor dropped. -/
theorem challenges_settled (P : Prims) (accounting : AccountingState)
    (holders : NodeId → ChunkHolder) (moves : List AuditMove)
    (hfresh : Along (step P) Fresh (start accounting holders) moves) :
    Settles P ((start accounting holders).run P moves)
      ∧ ∀ q, Along (step P) (KeepsRecord q) (start accounting holders) moves →
        Tallied q (accounting.record q)
          ((start accounting holders).run P moves) :=
  ⟨(ledger_run hfresh).settles, fun _ hkeeps => tallied_run hfresh hkeeps⟩

/-- A peer that keeps its chunks and answers in time never fails a
challenge and is never denied for one. -/
theorem holder_never_denied (P : Prims) (q : NodeId)
    (content : ChunkId → List UInt8) (kept : Set ChunkId)
    (accounting : AccountingState) (holders : NodeId → ChunkHolder)
    (moves : List AuditMove)
    (hsize : ∀ id ∈ kept, (content id).length < 2 ^ 32)
    (hholds : ∀ id ∈ kept, (holders q).getChunk id = some (content id))
    (hclear : (accounting.record q).failedChallenges = 0)
    (hfresh : Along (step P) Fresh (start accounting holders) moves)
    (hsincere : Along (step P) (Sincere P q content kept)
      (start accounting holders) moves) :
    (∀ v ∈ ((start accounting holders).run P moves).verdicts
        ++ ((start accounting holders).run P moves).counted,
      v.node = q → v.success = true)
      ∧ ∀ c, ((start accounting holders).run P moves).accounting.peers.get q
          = some c → c.failedChallenges = 0 ∧ c.denied = false := by
  have hstart : Clean P q content kept (start accounting holders) := by
    refine ⟨ledger_start accounting holders, nofun, hholds, nofun, nofun,
      nofun, hclear⟩
  have hclean : Clean P q content kept
      ((start accounting holders).run P moves) :=
    (always_of_along (fun _ _ hmv h => h.step hsize hmv.1 hmv.2)
      (hfresh.and hsincere) hstart).last
  refine ⟨hclean.verdicts, fun c hget => ?_⟩
  have hlost := hclean.clear
  unfold AccountingState.record at hlost
  rw [hget] at hlost
  exact ⟨hlost, not_denied hlost⟩

/-- Nothing with the hash that was asked for came for a challenge of the
peer. -/
def Unanswered (P : Prims) (q : NodeId) (net : Audit) : Prop :=
  ∀ r ∈ net.received, ∀ p, (r.nonce, p) ∈ net.issued → p.challengedNode = q →
    r.found = true → P.blake3 r.segmentData ≠ p.expectedHash

theorem tally_unanswered (h : Ledger P net) (hnone : Unanswered P q net) :
    tally net.counted q true = 0 := by
  unfold tally
  rw [List.countP_eq_zero]
  intro v hv hq
  simp only [Bool.and_eq_true, decide_eq_true_eq] at hq
  obtain ⟨hnode, hsuccess⟩ := hq
  cases h.founded v (List.mem_append_right _ hv) with
  | expired nonce p now hissued hnow hold => cases hsuccess
  | answered r p hissued hreceived =>
      obtain ⟨hfound, hhash⟩ := (verifySegmentResponse_iff _ _ _).1 hsuccess
      exact hnone r hreceived p hissued hnode hfound hhash

/-- The challenge gate closes on a peer exactly when it has failed more of
more than ten challenges than it has passed; and on one that did not come
up with any segment it closes at the eleventh verdict, and nothing it asks
for is served. -/
theorem pretender_denied (P : Prims) (q : NodeId)
    (accounting : AccountingState) (holders : NodeId → ChunkHolder)
    (moves : List AuditMove) (net : Audit)
    (hrun : net = (start accounting holders).run P moves)
    (hnew : accounting.peers.get q = none)
    (hfresh : Along (step P) Fresh (start accounting holders) moves)
    (hkeeps : Along (step P) (KeepsRecord q) (start accounting holders) moves)
    (hbound : booked net.counted q < 2 ^ 32) :
    ((net.accounting.record q).denied = true
      ↔ 10 < booked net.counted q
        ∧ tally net.counted q true < tally net.counted q false)
    ∧ (Unanswered P q net → 10 < booked net.counted q →
      ∀ requested, net.accounting.shouldServe q requested = false) := by
  have hledger := ledger_run hfresh
  have htallied := tallied_run hfresh hkeeps
  rw [← hrun] at hledger htallied
  have hfirst : accounting.record q = PeerCredit.new := by
    unfold AccountingState.record
    rw [hnew]
    rfl
  rw [hfirst] at htallied
  obtain ⟨hwon, hlost⟩ := htallied
  change _ = 0 + _ at hwon hlost
  rw [UInt32.zero_add] at hwon hlost
  rw [← tally_add] at hbound ⊢
  have hdenied := denied_iff hwon hlost hbound
  refine ⟨hdenied, fun hnone hten requested => ?_⟩
  have hzero := tally_unanswered hledger hnone
  have hclosed := hdenied.2 ⟨hten, by omega⟩
  unfold AccountingState.record at hclosed
  cases hget : net.accounting.peers.get q with
  | none =>
      rw [hget] at hclosed
      exact absurd hclosed (by decide)
  | some c =>
      rw [hget] at hclosed
      unfold AccountingState.shouldServe
      rw [hget]
      exact if_pos hclosed

-- ======== three runs

instance decidableFresh (net : Audit) : ∀ mv, Decidable (Fresh net mv)
  | .issue t => inferInstanceAs (Decidable (t.nonce ∉ net.nonces))
  | .books (.challenge p success now) =>
      .isFalse fun h => h p success now rfl
  | .books (.serve ..) => .isTrue nofun
  | .books (.received ..) => .isTrue nofun
  | .books (.prepayment ..) => .isTrue nofun
  | .books (.reconcile ..) => .isTrue nofun
  | .books (.prune ..) => .isTrue nofun
  | .books (.pruneWithGrace ..) => .isTrue nofun
  | .withdraw _ => .isTrue trivial
  | .sweep .. => .isTrue trivial
  | .deliver _ => .isTrue trivial
  | .forge _ => .isTrue trivial
  | .record .. => .isTrue trivial
  | .store .. => .isTrue trivial

/-- A chunk of three bytes, in a swap with a connected peer. -/
def threeBytes (nonce : Nat) : VerificationTick where
  nodeId := Bytes.zero 16
  claims := [(Bytes.zero 32, Bytes.fill 16 1)]
  connected := [Bytes.fill 16 1]
  manifests := [⟨Bytes.zero 32, [], [Bytes.zero 32], 3, 1, 0, Bytes.zero 12,
    [[Prims.plain.blake3 [1, 2, 3]]]⟩]
  pending := ∅
  candidateDraw := 0
  segmentDraw := 0
  nonce := Bytes.ofList 32 [UInt8.ofNat nonce]
  now := 0
  self := loneRoute
  routing := .new (Bytes.zero 16)
  order := IterOrder.bytewise
  turn := ⟨.new (Bytes.zero 16), IterOrder.bytewise, id,
    fun nodes => List.Perm.refl nodes, .new (Bytes.zero 16),
    fun _ => ⟨Bytes.zero 32, Prims.someKey, fun _ => Bytes.zero 32,
      fun _ => 0, fun _ => 0⟩⟩

def threeHeld : ChunkHolder :=
  ChunkHolder.new.addChunk (Bytes.zero 32) [1, 2, 3] (Bytes.zero 32)

/-- A challenge, its answer, and the verdict. -/
def oneChallenge : List AuditMove :=
  [.issue (threeBytes 0), .deliver 0, .deliver 1, .deliver 1, .record 0 5]

theorem challenges_settled_once :
    Settles .plain ((start .new fun _ => threeHeld).run .plain oneChallenge)
      ∧ ((start .new fun _ => threeHeld).run .plain oneChallenge).counted
        = [⟨Bytes.ofList 32 [0], Bytes.fill 16 1, true⟩] :=
  ⟨(challenges_settled .plain .new (fun _ => threeHeld) oneChallenge
    (by decide +kernel)).1, by decide +kernel⟩

/-- The same for a peer that keeps the chunk. -/
theorem holder_never_denied_once :
    (∀ v ∈ ((start .new fun _ => threeHeld).run .plain oneChallenge).verdicts
        ++ ((start .new fun _ => threeHeld).run .plain oneChallenge).counted,
      v.node = Bytes.fill 16 1 → v.success = true)
      ∧ ∀ c, ((start .new fun _ => threeHeld).run .plain
          oneChallenge).accounting.peers.get (Bytes.fill 16 1) = some c →
        c.failedChallenges = 0 ∧ c.denied = false := by
  refine holder_never_denied .plain (Bytes.fill 16 1) (fun _ => [1, 2, 3])
    {Bytes.zero 32} .new (fun _ => threeHeld) oneChallenge ?_ ?_ rfl
    (by decide +kernel) ?_
  · exact fun _ _ => by decide
  · rintro id rfl
    decide +kernel
  · refine ⟨?_, trivial, trivial, trivial, trivial, trivial⟩
    intro p c hc _
    obtain ⟨-, -, -, -, hashes, i, hget, -, -⟩ := challenge_asks hc
    have hid : c.chunkId = Bytes.zero 32 := by
      have : (threeBytes 0).challenge.map (fun x => x.2.chunkId)
          = some (Bytes.zero 32) := by decide +kernel
      rw [hc] at this
      exact Option.some.inj this
    rw [hid]
    exact ⟨rfl, by decide +kernel⟩

/-- Eleven challenges, and a sweep that finds none of them answered. -/
def elevenChallenges : List AuditMove :=
  (List.range 11).map (fun i => .issue (threeBytes i))
    ++ .sweep IterOrder.bytewise 601 :: List.replicate 11 (.record 0 5)

theorem keepsRecord_eleven {net : Audit} :
    Along (step P) (KeepsRecord q) net elevenChallenges := by
  refine along_of_forall fun mv hmem net => ?_
  unfold elevenChallenges at hmem
  rcases List.mem_append.1 hmem with hmem | hmem
  · obtain ⟨i, -, rfl⟩ := List.mem_map.1 hmem
    trivial
  · rcases List.mem_cons.1 hmem with rfl | hmem
    · trivial
    · obtain rfl := List.eq_of_mem_replicate hmem
      trivial

theorem pretender_denied_eleven :
    ((start .new fun _ => .new).run .plain
      elevenChallenges).accounting.shouldServe (Bytes.fill 16 1) 1
        = false := by
  refine (pretender_denied .plain (Bytes.fill 16 1) .new (fun _ => .new)
    elevenChallenges _ rfl rfl (by decide +kernel) keepsRecord_eleven
    (by decide +kernel)).2 ?_ (by decide +kernel) 1
  have hnone : ((start .new fun _ => .new).run .plain
      elevenChallenges).received = [] := by decide +kernel
  unfold Unanswered
  rw [hnone]
  exact nofun

end Audit

end StaticNet
