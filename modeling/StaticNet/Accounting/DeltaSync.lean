/-
Delta reconciliation: what `trigger_reconciliation` leaves out.

# The watermark and the stamps

A call exports the records whose own `last_interaction` is not before
the last sync with the peer, and at its end notes the clock as the new
sync time. So a record that changes is sent by the next call only if the
change stamps it with a time at or after the watermark. Serving,
receiving and challenges stamp the record with the clock. A prepayment
leaves the stamp as it is, an adopted entry brings its own, and between
export and note a call lets other tasks change records which it then
counts as sent.

# The invariant

`SentAndHeld` is what a record needs: it was sent as it is, and the peer's
copy is at least as late, or no clock lets it pass the bounds. In a run
whose steps all meet `Restamps` a record is covered or not before the
watermark (`Tracked`), and the call in progress carries the rest
(`Carried`), so that its end finds everything sent.
-/
import StaticNet.Accounting.Reconcile

namespace StaticNet

open AccountingState LastWrite

/-- Entries of one reconciliation message. -/
def MAX_RECONCILIATION_ENTRIES : Nat := 50

-- ========== one call

/-- The table a delta is collected into before it is cut into batches. -/
def collect (entries : List (NodeId × PeerCredit)) :
    FMap NodeId PeerCredit :=
  entries.foldl (fun m e => m.insert e.1 e.2) ∅

/-- `reconciliation_batches`: an empty table is one empty message. -/
def reconciliationBatches (order : IterOrder NodeId)
    (peers : FMap NodeId PeerCredit) : List (List (NodeId × PeerCredit)) :=
  let entries := entriesOf order peers
  if entries.isEmpty then [[]]
  else (List.range ((entries.length + MAX_RECONCILIATION_ENTRIES - 1)
      / MAX_RECONCILIATION_ENTRIES)).map fun i =>
    (entries.drop (i * MAX_RECONCILIATION_ENTRIES)).take
      MAX_RECONCILIATION_ENTRIES

/-- How far a call of `trigger_reconciliation` has come: the delta is
exported; the clock is read and batches remain to be sent. -/
inductive SyncPhase
  | idle
  | exported (delta : List (NodeId × PeerCredit))
  | sending (now : UInt64) (rest : List (List (NodeId × PeerCredit)))

/-- The node, the peer it reconciles with, and the call in progress.
`sent` lists the entries the peer was sent so far. -/
structure SyncNet where
  node : AccountingState
  peer : AccountingState
  phase : SyncPhase
  sent : List (NodeId × PeerCredit)

/-- An operation on the node's accounting. -/
inductive LedgerOp
  | served (peer : NodeId) (bytes : UInt64)
  | received (peer : NodeId) (bytes : UInt64)
  | challengeSuccess (peer : NodeId)
  | challengeFailure (peer : NodeId)
  | prepayment (peer : NodeId) (bytes : UInt64)
  | reconcile (incoming : List (NodeId × PeerCredit))

def LedgerOp.apply (now : UInt64) (st : AccountingState) :
    LedgerOp → AccountingState
  | served peer bytes => st.recordServed peer bytes now
  | received peer bytes => st.recordReceived peer bytes now
  | challengeSuccess peer => st.recordChallengeSuccess peer now
  | challengeFailure peer => st.recordChallengeFailure peer now
  | prepayment peer bytes => st.recordPrepayment peer bytes
  | reconcile incoming => st.reconcile incoming now

/-- What happens at a point in time: an operation, or the next step of a
call towards the peer. -/
inductive SyncEvent
  | op (o : LedgerOp)
  | exportDelta
  | capture
  | send
  | mark

/-- One event at time `now`; the call's steps wait for their turn. -/
def SyncNet.step (order order' : IterOrder NodeId) (peerId : NodeId)
    (s : SyncNet) (now : UInt64) : SyncEvent → SyncNet
  | .op o => { s with node := o.apply now s.node }
  | .exportDelta =>
      match s.phase with
      | .idle =>
          { s with phase := .exported (s.node.exportReconciliationDelta
              order (s.node.lastSyncTime peerId)) }
      | _ => s
  | .capture =>
      match s.phase with
      | .exported delta =>
          { s with
            phase := .sending now
              (reconciliationBatches order' (collect delta)) }
      | _ => s
  | .send =>
      match s.phase with
      | .sending at' (batch :: rest) =>
          { s with
            peer := s.peer.reconcile batch now
            phase := .sending at' rest
            sent := s.sent ++ batch }
      | _ => s
  | .mark =>
      match s.phase with
      | .sending at' [] =>
          { s with
            node := s.node.markReconciled peerId at'
            phase := .idle }
      | _ => s

/-- The event ends a call. -/
def SyncNet.Completes (s : SyncNet) (e : SyncEvent) : Prop :=
  e = .mark ∧ ∃ at', s.phase = .sending at' []

/-- Whenever an event of the run ends a call, `Q` holds after it. -/
def AfterCalls (order order' : IterOrder NodeId) (peerId : NodeId)
    (Q : SyncNet → Prop) : SyncNet → List (UInt64 × SyncEvent) → Prop
  | _, [] => True
  | s, (now, e) :: run =>
      (s.Completes e → Q (s.step order order' peerId now e))
        ∧ AfterCalls order order' peerId Q
            (s.step order order' peerId now e) run

/-- Every record was sent as it is, and the full export would leave the
peer as it is. -/
structure Synced (order : IterOrder NodeId) (peerId : NodeId)
    (s : SyncNet) : Prop where
  sent : ∀ p c, s.node.peers.get p = some c → (p, c) ∈ s.sent
  settled : s.peer.reconcile (s.node.exportForReconciliation order)
    (s.node.lastSyncTime peerId) = s.peer

/-- The event changes records between calls only, and stamps what it
changes at or after the watermark. -/
def Restamps (peerId : NodeId) (s : SyncNet) (now : UInt64) :
    SyncEvent → Prop
  | .op (.prepayment peer _) => s.phase = .idle
      ∧ s.node.lastSyncTime peerId
        ≤ ((s.node.peers.get peer).getD PeerCredit.new).lastInteraction
  | .op (.reconcile incoming) => ∀ p c, newest p now incoming = some c →
      (∀ ours, s.node.peers.get p = some ours →
        ours.lastInteraction < c.lastInteraction) →
      s.phase = .idle ∧ s.node.lastSyncTime peerId ≤ c.lastInteraction
  | .op _ => s.phase = .idle
  | _ => True

/-- Every event of the run meets `Restamps` in the state it finds. -/
def AllRestamp (order order' : IterOrder NodeId) (peerId : NodeId) :
    SyncNet → List (UInt64 × SyncEvent) → Prop
  | _, [] => True
  | s, (now, e) :: run => Restamps peerId s now e
      ∧ AllRestamp order order' peerId (s.step order order' peerId now e)
          run

-- =========== a batch

variable {order order' : IterOrder NodeId} {peerId p : NodeId}
  {c : PeerCredit} {st : AccountingState} {now : UInt64}

theorem get_collect {entries : List (NodeId × PeerCredit)}
    (h : ∀ e ∈ entries, ∀ e' ∈ entries, e.1 = e'.1 → e = e')
    (hmem : (p, c) ∈ entries) : (collect entries).get p = some c := by
  have hall : ∀ (entries : List (NodeId × PeerCredit))
      (m : FMap NodeId PeerCredit),
      (∀ e ∈ entries, e.1 = p → e.2 = c) →
      ((∃ e ∈ entries, e.1 = p) ∨ m.get p = some c) →
      (entries.foldl (fun m e => m.insert e.1 e.2) m).get p = some c := by
    intro entries
    induction entries with
    | nil =>
        rintro m - (⟨e, he, -⟩ | hm)
        · cases he
        · exact hm
    | cons e entries ih =>
        intro m hone hor
        apply ih
        · exact fun e' he' => hone e' (List.mem_cons_of_mem _ he')
        · by_cases hp : e.1 = p
          · right
            show (m.insert e.1 e.2).get p = some c
            rw [hp, hone e List.mem_cons_self hp]
            exact FMap.get_insert_self _ _ _
          · rcases hor with ⟨e', he', hp'⟩ | hm
            · left
              refine ⟨e', (List.mem_cons.1 he').resolve_left ?_, hp'⟩
              rintro rfl
              exact hp hp'
            · right
              exact (FMap.get_insert_ne _ _ (Ne.symm hp)).trans hm
  refine hall entries ∅ ?_ (.inl ⟨(p, c), hmem, rfl⟩)
  intro e he hp
  rw [h e he (p, c) hmem hp]

/-- Every entry is in one of the batches. -/
theorem mem_reconciliationBatches {peers : FMap NodeId PeerCredit}
    (h : peers.get p = some c) :
    ∃ batch ∈ reconciliationBatches order peers, (p, c) ∈ batch := by
  have hmem : (p, c) ∈ entriesOf order peers := mem_entriesOf.2 h
  unfold reconciliationBatches
  generalize entriesOf order peers = entries at hmem
  have hne : entries.isEmpty = false := by
    cases entries with
    | nil => cases hmem
    | cons e entries => rfl
  simp only [hne, Bool.false_eq_true, if_false]
  obtain ⟨i, hi, heq⟩ := List.mem_iff_getElem.1 hmem
  have hpos : 0 < MAX_RECONCILIATION_ENTRIES := by decide
  refine ⟨_, List.mem_map.2 ⟨i / MAX_RECONCILIATION_ENTRIES, ?_, rfl⟩, ?_⟩
  · rw [List.mem_range, Nat.div_lt_iff_lt_mul hpos]
    have hup := Nat.lt_div_mul_add hpos
      (a := entries.length + MAX_RECONCILIATION_ENTRIES - 1)
    omega
  · rw [List.mem_iff_getElem?]
    refine ⟨i % MAX_RECONCILIATION_ENTRIES, ?_⟩
    rw [List.getElem?_take_of_lt (Nat.mod_lt _ hpos), List.getElem?_drop,
      Nat.mul_comm, Nat.div_add_mod, List.getElem?_eq_getElem hi, heq]

-- ======== the bounds

theorem saturatingAdd_mono {a b : UInt64} (h : a ≤ b) (d : UInt64) :
    saturatingAdd a d ≤ saturatingAdd b d := by
  rw [UInt64.le_iff_toNat_le] at h ⊢
  unfold saturatingAdd
  have hsize : (UInt64.ofNat (UInt64.size - 1)).toNat = 2 ^ 64 - 1 := rfl
  by_cases hb : b.toNat + d.toNat < UInt64.size
  · have ha : a.toNat + d.toNat < UInt64.size := by omega
    rw [if_pos ha, if_pos hb, UInt64.toNat_add, UInt64.toNat_add,
      Nat.mod_eq_of_lt ha, Nat.mod_eq_of_lt hb]
    omega
  · rw [if_neg hb, hsize]
    exact Nat.le_sub_one_of_lt (UInt64.toNat_lt _)

theorem le_saturatingAdd (a d : UInt64) : a ≤ saturatingAdd a d := by
  rw [UInt64.le_iff_toNat_le]
  unfold saturatingAdd
  by_cases h : a.toNat + d.toNat < UInt64.size
  · rw [if_pos h, UInt64.toNat_add, Nat.mod_eq_of_lt h]
    omega
  · rw [if_neg h]
    exact Nat.le_sub_one_of_lt (UInt64.toNat_lt _)

/-- An entry that passes the bounds passes them later. -/
theorem admitted_mono {t t' : UInt64} (h : t ≤ t')
    (hadm : c.admitted t = true) : c.admitted t' = true := by
  unfold PeerCredit.admitted at *
  simp only [Bool.and_eq_true, decide_eq_true_eq] at *
  obtain ⟨⟨⟨hfuture, hserved⟩, hreceived⟩, hprepaid⟩ := hadm
  exact ⟨⟨⟨UInt64.le_trans hfuture (saturatingAdd_mono h _), hserved⟩,
    hreceived⟩, hprepaid⟩

/-- An entry that does not pass is from the future, or never passes. -/
theorem not_admitted (h : c.admitted now = false) :
    (∀ t, c.admitted t = false) ∨ now < c.lastInteraction := by
  by_cases hfuture : c.lastInteraction
      ≤ saturatingAdd now RECONCILE_FUTURE_SKEW_SECS
  · left
    intro t
    unfold PeerCredit.admitted at h ⊢
    simp only [hfuture, decide_true, Bool.true_and] at h
    rw [Bool.and_assoc, Bool.and_assoc]
    rw [Bool.and_assoc] at h
    rw [h, Bool.and_false]
  · right
    rw [UInt64.not_le] at hfuture
    exact UInt64.lt_of_le_of_lt (le_saturatingAdd _ _) hfuture

-- ==== the peer's copies

/-- Whenever the entry passes the bounds, the copy is at least as late. -/
def Held (st : AccountingState) (p : NodeId) (c : PeerCredit) : Prop :=
  ∀ t, c.admitted t = true →
    ∃ d, st.peers.get p = some d ∧ c.lastInteraction ≤ d.lastInteraction

theorem Held.reconcile (h : Held st p c)
    (batch : List (NodeId × PeerCredit)) (now : UInt64) :
    Held (st.reconcile batch now) p c := by
  intro t hadm
  obtain ⟨d, hget, hle⟩ := h t hadm
  obtain ⟨d', hget', hle'⟩ := reconcile_monotone st batch now p hget
  exact ⟨d', hget', UInt64.le_trans hle hle'⟩

/-- A merged entry is held, unless it is still from the future. -/
theorem held_of_mem {batch : List (NodeId × PeerCredit)}
    (h : (p, c) ∈ batch) :
    Held (st.reconcile batch now) p c
      ∨ (now < c.lastInteraction ∧ c.admitted now = false) := by
  cases hadm : c.admitted now with
  | false =>
      rcases not_admitted hadm with hnever | hfuture
      · left
        intro t ht
        rw [hnever t] at ht
        cases ht
      · exact .inr ⟨hfuture, rfl⟩
  | true =>
      left
      intro t _
      have hoff : c ∈ offered p now batch := by
        unfold offered
        rw [List.mem_filterMap]
        exact ⟨(p, c), h, if_pos ⟨rfl, hadm⟩⟩
      have hbest : ∃ w, latest stampSecs (st.peers.get p)
          (offered p now batch) = some w ∧ stampSecs c ≤ stampSecs w :=
        le_latest (.inl hoff)
      obtain ⟨w, hw, hle⟩ := hbest
      rw [latest_eq] at hw
      refine ⟨w, ?_, UInt64.le_iff_toNat_le.2 hle⟩
      rw [get_reconcile]
      exact hw

/-- A full export of held entries changes nothing. -/
theorem reconcile_export_held {peer : AccountingState}
    (h : ∀ p c, st.peers.get p = some c → c.admitted now = true →
      ∃ d, peer.peers.get p = some d
        ∧ c.lastInteraction ≤ d.lastInteraction) :
    peer.reconcile (st.exportForReconciliation order) now = peer := by
  apply reconcile_eq_self
  intro p
  rw [get_reconcile]
  cases hnew : newest p now (st.exportForReconciliation order) with
  | none => rw [later_none]
  | some c =>
      -- the newest entry is one of the export's
      have hoff : c ∈ offered p now (st.exportForReconciliation order) := by
        rcases mem_of_latest hnew with hmem | hnone
        · exact hmem
        · cases hnone
      unfold offered at hoff
      obtain ⟨e, he, hif⟩ := List.mem_filterMap.1 hoff
      by_cases hcond : e.1 = p ∧ e.2.admitted now = true
      · rw [if_pos hcond] at hif
        obtain rfl := Option.some.inj hif
        obtain ⟨rfl, hadm⟩ := hcond
        obtain ⟨d, hget, hle⟩ := h e.1 e.2
          (mem_entriesOf.1 he) hadm
        rw [hget]
        exact keepsOurs hle
      · rw [if_neg hcond] at hif
        cases hif

-- ======== operations

/-- The record an operation leaves was there, or is stamped at or after
the watermark, between calls. -/
theorem op_records {s : SyncNet} {o : LedgerOp}
    (hmeets : Restamps peerId s now (.op o))
    (hwm : s.node.lastSyncTime peerId ≤ now)
    (hget : (o.apply now s.node).peers.get p = some c) :
    s.node.peers.get p = some c
      ∨ (s.phase = .idle
        ∧ s.node.lastSyncTime peerId ≤ c.lastInteraction) := by
  have hstamp : ∀ (peer : NodeId) (f : PeerCredit → PeerCredit),
      s.node.lastSyncTime peerId ≤ (f ((s.node.peers.get peer).getD
        PeerCredit.new)).lastInteraction →
      s.phase = .idle → (s.node.updPeer peer f).peers.get p = some c →
      s.node.peers.get p = some c
        ∨ (s.phase = .idle
          ∧ s.node.lastSyncTime peerId ≤ c.lastInteraction) := by
    intro peer f hle hidle h
    rw [get_updPeer] at h
    by_cases hp : p = peer
    · rw [if_pos hp] at h
      obtain rfl := Option.some.inj h
      exact .inr ⟨hidle, hle⟩
    · rw [if_neg hp] at h
      exact .inl h
  cases o with
  | served peer bytes =>
      exact hstamp peer (·.recordServed bytes now) hwm hmeets hget
  | received peer bytes =>
      exact hstamp peer (·.recordReceived bytes now) hwm hmeets hget
  | challengeSuccess peer =>
      exact hstamp peer (·.recordChallengeSuccess now) hwm hmeets hget
  | challengeFailure peer =>
      exact hstamp peer (·.recordChallengeFailure now) hwm hmeets hget
  | prepayment peer bytes =>
      exact hstamp peer
        (fun c => { c with prepaidBytes := c.prepaidBytes + bytes })
        hmeets.2 hmeets.1 hget
  | reconcile incoming =>
      change (s.node.reconcile incoming now).peers.get p = some c at hget
      rw [get_reconcile] at hget
      cases hnew : newest p now incoming with
      | none =>
          rw [hnew, later_none] at hget
          exact .inl hget
      | some remote =>
          rw [hnew] at hget
          by_cases hadopt : ∀ ours, s.node.peers.get p = some ours →
              ours.lastInteraction < remote.lastInteraction
          · rcases later_eq_some hget with rfl | hold
            · exact .inr (hmeets p c hnew hadopt)
            · exact .inl hold
          · left
            push Not at hadopt
            obtain ⟨ours, hours, hle⟩ := hadopt
            rw [hours, keepsOurs (UInt64.not_lt.1 hle)] at hget
            rw [hours, hget]

theorem op_lastSyncTime (o : LedgerOp) (st : AccountingState) :
    (o.apply now st).lastSyncTime peerId = st.lastSyncTime peerId := by
  cases o with
  | reconcile incoming =>
      have hframe := reconcile_frame st incoming now
      have htimes := congrArg AccountingState.peerSyncTimes hframe
      unfold lastSyncTime
      rw [← htimes]
      rfl
  | _ => rfl

-- =========== the run

/-- The record was sent as it is, and the peer holds it. -/
structure SentAndHeld (s : SyncNet) (p : NodeId) (c : PeerCredit) : Prop where
  sent : (p, c) ∈ s.sent
  held : Held s.peer p c

/-- Between calls a record is covered or not before the watermark; a
call in progress carries the ones that are not covered yet. -/
def Tracked (peerId : NodeId) (clock : UInt64) (s : SyncNet) :
    SyncPhase → Prop
  | .idle => ∀ p c, s.node.peers.get p = some c →
      s.node.lastSyncTime peerId ≤ c.lastInteraction ∨ SentAndHeld s p c
  | .exported delta =>
      (∀ e ∈ delta, ∀ e' ∈ delta, e.1 = e'.1 → e = e')
        ∧ ∀ p c, s.node.peers.get p = some c →
          (p, c) ∈ delta ∨ SentAndHeld s p c
  | .sending at' rest => at' ≤ clock
      ∧ ∀ p c, s.node.peers.get p = some c →
        (∃ batch ∈ rest, (p, c) ∈ batch)
          ∨ SentAndHeld s p c
          ∨ ((p, c) ∈ s.sent ∧ at' < c.lastInteraction
            ∧ c.admitted at' = false)

structure Carried (peerId : NodeId) (clock : UInt64) (s : SyncNet) :
    Prop where
  watermark : s.node.lastSyncTime peerId ≤ clock
  records : Tracked peerId clock s s.phase

variable {s : SyncNet} {clock : UInt64} {e : SyncEvent}

theorem Carried.later (h : Carried peerId clock s) (hle : clock ≤ now) :
    Carried peerId now s := by
  refine ⟨UInt64.le_trans h.watermark hle, ?_⟩
  have hrec := h.records
  cases hphase : s.phase with
  | idle =>
      rw [hphase] at hrec
      exact hrec
  | exported delta =>
      rw [hphase] at hrec
      exact hrec
  | sending at' rest =>
      rw [hphase] at hrec
      exact ⟨UInt64.le_trans hrec.1 hle, hrec.2⟩

theorem Carried.op (h : Carried peerId now s) {o : LedgerOp}
    (hmeets : Restamps peerId s now (.op o)) :
    Carried peerId now (s.step order order' peerId now (.op o)) := by
  have hsync : (o.apply now s.node).lastSyncTime peerId
      = s.node.lastSyncTime peerId := op_lastSyncTime o s.node
  have hold := fun p c => op_records (p := p) (c := c) hmeets h.watermark
  have hrec := h.records
  refine ⟨?_, ?_⟩
  · show (o.apply now s.node).lastSyncTime peerId ≤ now
    rw [hsync]
    exact h.watermark
  · show Tracked peerId now { s with node := o.apply now s.node } s.phase
    cases hphase : s.phase with
    | idle =>
        rw [hphase] at hrec
        intro p c hget
        show (o.apply now s.node).lastSyncTime peerId ≤ _ ∨ _
        rw [hsync]
        rcases hold p c hget with hsame | ⟨-, hle⟩
        · rcases hrec p c hsame with hle | hcov
          · exact .inl hle
          · exact .inr ⟨hcov.sent, hcov.held⟩
        · exact .inl hle
    | exported delta =>
        rw [hphase] at hrec
        refine ⟨hrec.1, ?_⟩
        intro p c hget
        rcases hold p c hget with hsame | ⟨hidle, -⟩
        · rcases hrec.2 p c hsame with hmem | hcov
          · exact .inl hmem
          · exact .inr ⟨hcov.sent, hcov.held⟩
        · rw [hphase] at hidle
          cases hidle
    | sending at' rest =>
        rw [hphase] at hrec
        refine ⟨hrec.1, ?_⟩
        intro p c hget
        rcases hold p c hget with hsame | ⟨hidle, -⟩
        · rcases hrec.2 p c hsame with hmem | hcov | hfuture
          · exact .inl hmem
          · exact .inr (.inl ⟨hcov.sent, hcov.held⟩)
          · exact .inr (.inr hfuture)
        · rw [hphase] at hidle
          cases hidle

theorem Carried.exportDelta (h : Carried peerId now s)
    (hphase : s.phase = .idle) :
    Carried peerId now (s.step order order' peerId now .exportDelta) := by
  have hrec := h.records
  rw [hphase] at hrec
  simp only [SyncNet.step, hphase]
  refine ⟨h.watermark, ?_, ?_⟩
  · -- one record for each peer
    intro e he e' he' hp
    have hget := mem_entriesOf.1 (List.mem_filter.1 he).1
    have hget' := mem_entriesOf.1 (List.mem_filter.1 he').1
    rw [← hp, hget] at hget'
    exact Prod.ext hp (Option.some.inj hget')
  · intro p c hget
    rcases hrec p c hget with hle | hcov
    · left
      refine List.mem_filter.2 ⟨mem_entriesOf.2 hget, ?_⟩
      exact decide_eq_true hle
    · exact .inr ⟨hcov.sent, hcov.held⟩

theorem Carried.capture (h : Carried peerId now s)
    {delta : List (NodeId × PeerCredit)}
    (hphase : s.phase = .exported delta) :
    Carried peerId now (s.step order order' peerId now .capture) := by
  have hrec := h.records
  rw [hphase] at hrec
  simp only [SyncNet.step, hphase]
  refine ⟨h.watermark, UInt64.le_refl _, ?_⟩
  intro p c hget
  rcases hrec.2 p c hget with hmem | hcov
  · exact .inl (mem_reconciliationBatches (get_collect hrec.1 hmem))
  · exact .inr (.inl ⟨hcov.sent, hcov.held⟩)

theorem Carried.send (h : Carried peerId now s) {at' : UInt64}
    {batch : List (NodeId × PeerCredit)}
    {rest : List (List (NodeId × PeerCredit))}
    (hphase : s.phase = .sending at' (batch :: rest)) :
    Carried peerId now (s.step order order' peerId now .send) := by
  have hrec := h.records
  rw [hphase] at hrec
  obtain ⟨hat, hrec⟩ := hrec
  simp only [SyncNet.step, hphase]
  refine ⟨h.watermark, hat, ?_⟩
  intro p c hget
  rcases hrec p c hget with ⟨b, hb, hmem⟩ | hcov | ⟨hsent, hfuture⟩
  · rcases List.mem_cons.1 hb with rfl | hb
    · right
      have hsent : (p, c) ∈ s.sent ++ b := List.mem_append_right _ hmem
      have hafter : Held (s.peer.reconcile b now) p c
          ∨ (now < c.lastInteraction ∧ c.admitted now = false) :=
        held_of_mem hmem
      rcases hafter with hheld | ⟨hlt, hadm⟩
      · exact .inl ⟨hsent, hheld⟩
      · -- not merged now, hence not by the earlier clock either
        refine .inr ⟨hsent, UInt64.lt_of_le_of_lt hat hlt, ?_⟩
        cases hadm' : c.admitted at' with
        | false => rfl
        | true =>
            rw [admitted_mono hat hadm'] at hadm
            cases hadm
    · exact .inl ⟨b, hb, hmem⟩
  · exact .inr (.inl ⟨List.mem_append_left _ hcov.sent,
      hcov.held.reconcile batch now⟩)
  · exact .inr (.inr ⟨List.mem_append_left _ hsent, hfuture⟩)

theorem Carried.mark (h : Carried peerId now s) {at' : UInt64}
    (hphase : s.phase = .sending at' []) :
    Carried peerId now (s.step order order' peerId now .mark)
      ∧ Synced order peerId (s.step order order' peerId now .mark) := by
  have hrec := h.records
  rw [hphase] at hrec
  obtain ⟨hat, hrec⟩ := hrec
  simp only [SyncNet.step, hphase]
  have hsync : (s.node.markReconciled peerId at').lastSyncTime peerId
      = at' := by
    unfold AccountingState.markReconciled AccountingState.lastSyncTime
    rw [FMap.get_insert_self]
    rfl
  refine ⟨⟨?_, ?_⟩, ?_, ?_⟩
  · rw [hsync]
    exact hat
  · intro p c hget
    show (s.node.markReconciled peerId at').lastSyncTime peerId ≤ _ ∨ _
    rw [hsync]
    rcases hrec p c hget with ⟨b, hb, -⟩ | hcov | ⟨-, hlt, -⟩
    · cases hb
    · exact .inr ⟨hcov.sent, hcov.held⟩
    · exact .inl (UInt64.le_of_lt hlt)
  · intro p c hget
    rcases hrec p c hget with ⟨b, hb, -⟩ | hcov | ⟨hsent, -⟩
    · cases hb
    · exact hcov.sent
    · exact hsent
  · show s.peer.reconcile _ ((s.node.markReconciled peerId
      at').lastSyncTime peerId) = s.peer
    rw [hsync]
    refine reconcile_export_held ?_
    intro p c hget hadm
    rcases hrec p c hget with ⟨b, hb, -⟩ | hcov | ⟨-, -, hnot⟩
    · cases hb
    · exact hcov.held at' hadm
    · rw [hnot] at hadm
      cases hadm

/-- An event whose turn it is not changes nothing. -/
theorem Carried.step (h : Carried peerId now s)
    (hmeets : Restamps peerId s now e) :
    Carried peerId now (s.step order order' peerId now e)
      ∧ (s.Completes e →
        Synced order peerId (s.step order order' peerId now e)) := by
  cases e with
  | op o => exact ⟨h.op hmeets, by rintro ⟨⟨⟩, -⟩⟩
  | exportDelta =>
      refine ⟨?_, by rintro ⟨⟨⟩, -⟩⟩
      cases hphase : s.phase with
      | idle => exact h.exportDelta hphase
      | exported delta => simpa only [SyncNet.step, hphase] using h
      | sending at' rest => simpa only [SyncNet.step, hphase] using h
  | capture =>
      refine ⟨?_, by rintro ⟨⟨⟩, -⟩⟩
      cases hphase : s.phase with
      | idle => simpa only [SyncNet.step, hphase] using h
      | exported delta => exact h.capture hphase
      | sending at' rest => simpa only [SyncNet.step, hphase] using h
  | send =>
      refine ⟨?_, by rintro ⟨⟨⟩, -⟩⟩
      cases hphase : s.phase with
      | idle => simpa only [SyncNet.step, hphase] using h
      | exported delta => simpa only [SyncNet.step, hphase] using h
      | sending at' rest =>
          cases rest with
          | nil => simpa only [SyncNet.step, hphase] using h
          | cons batch rest => exact h.send hphase
  | mark =>
      cases hphase : s.phase with
      | idle =>
          refine ⟨by simpa only [SyncNet.step, hphase] using h, ?_⟩
          rintro ⟨-, at', hend⟩
          rw [hphase] at hend
          cases hend
      | exported delta =>
          refine ⟨by simpa only [SyncNet.step, hphase] using h, ?_⟩
          rintro ⟨-, at', hend⟩
          rw [hphase] at hend
          cases hend
      | sending at' rest =>
          cases rest with
          | nil => exact ⟨(h.mark hphase).1, fun _ => (h.mark hphase).2⟩
          | cons batch rest =>
              refine ⟨by simpa only [SyncNet.step, hphase] using h, ?_⟩
              rintro ⟨-, at'', hend⟩
              rw [hphase] at hend
              cases hend

theorem Carried.run {events : List (UInt64 × SyncEvent)}
    (h : Carried peerId clock s)
    (hclock : ∀ x ∈ events, clock ≤ x.1)
    (htimes : events.Pairwise fun x y => x.1 ≤ y.1)
    (hmeets : AllRestamp order order' peerId s events) :
    AfterCalls order order' peerId (Synced order peerId) s events := by
  induction events generalizing s clock with
  | nil => trivial
  | cons x events ih =>
      obtain ⟨now, e⟩ := x
      rw [List.pairwise_cons] at htimes
      obtain ⟨hfirst, hrest⟩ := hmeets
      have hnow := h.later (hclock (now, e) List.mem_cons_self)
      have hstep : Carried peerId now (s.step order order' peerId now e)
          ∧ (s.Completes e →
              Synced order peerId (s.step order order' peerId now e)) :=
        hnow.step hfirst
      obtain ⟨hnext, hdone⟩ := hstep
      exact ⟨hdone, ih hnext htimes.1 htimes.2 hrest⟩

/-- Delta sync loses nothing in a run whose events all restamp what they
change, and change nothing during a call: from a node that has not
synced with the peer yet, after each call every record was sent as it is
by this or an earlier call, and the full export, merged at the sync
time, would leave the peer as it is. -/
theorem delta_sync_complete (order order' : IterOrder NodeId)
    (peerId : NodeId) (node peer : AccountingState)
    (hfirst : node.peerSyncTimes.get peerId = none)
    (events : List (UInt64 × SyncEvent))
    (htimes : events.Pairwise fun x y => x.1 ≤ y.1)
    (hmeets : AllRestamp order order' peerId ⟨node, peer, .idle, []⟩
      events) :
    AfterCalls order order' peerId (Synced order peerId)
      ⟨node, peer, .idle, []⟩ events := by
  have hzero : node.lastSyncTime peerId = 0 := by
    unfold AccountingState.lastSyncTime
    rw [hfirst]
    rfl
  have hstart : Carried peerId 0 ⟨node, peer, .idle, []⟩ := by
    refine ⟨?_, ?_⟩
    · show node.lastSyncTime peerId ≤ 0
      rw [hzero]
      exact UInt64.le_refl 0
    · intro p c _
      left
      show node.lastSyncTime peerId ≤ _
      rw [hzero]
      exact UInt64.zero_le
  exact hstart.run (fun _ _ => UInt64.zero_le) htimes hmeets

-- ==== calls, concretely

/-- The four steps of a call that sends one batch, at one time. -/
def syncCall (now : UInt64) : List (UInt64 × SyncEvent) :=
  [(now, .exportDelta), (now, .capture), (now, .send), (now, .mark)]

theorem entriesOf_empty : entriesOf order ∅ = [] := by
  rw [List.eq_nil_iff_forall_not_mem]
  intro entry hmem
  cases mem_entriesOf.1 hmem

/-- A call that finds nothing to send moves the watermark. -/
theorem afterCalls_empty {Q : SyncNet → Prop}
    {events : List (UInt64 × SyncEvent)} (hphase : s.phase = .idle)
    (hdelta : s.node.exportReconciliationDelta order
      (s.node.lastSyncTime peerId) = [])
    (h : AfterCalls order order' peerId Q s (syncCall now ++ events)) :
    Q { s with node := s.node.markReconciled peerId now }
      ∧ AfterCalls order order' peerId Q
          { s with node := s.node.markReconciled peerId now } events := by
  have hbatches : reconciliationBatches order' (collect []) = [[]] := by
    unfold reconciliationBatches
    rw [collect, List.foldl_nil, entriesOf_empty]
    rfl
  have hexport : s.step order order' peerId now .exportDelta
      = { s with phase := .exported [] } := by
    simp only [SyncNet.step, hphase, hdelta]
  have hcapture : ({ s with phase := .exported [] } : SyncNet).step order
      order' peerId now .capture = { s with phase := .sending now [[]] } := by
    simp only [SyncNet.step, hbatches]
  have hsend : ({ s with phase := .sending now [[]] } : SyncNet).step order
      order' peerId now .send = { s with phase := .sending now [] } := by
    simp only [SyncNet.step, List.append_nil]
    rfl
  have hmark : ({ s with phase := .sending now [] } : SyncNet).step order
      order' peerId now .mark
      = { s with node := s.node.markReconciled peerId now } := by
    simp only [SyncNet.step, ← hphase]
  obtain ⟨-, -, -, hdone, hrest⟩ := h
  rw [hexport, hcapture, hsend, hmark] at hdone hrest
  exact ⟨hdone ⟨rfl, now, rfl⟩, hrest⟩

/-- A peer that has nothing to tell, and a third one. -/
def syncPeer : NodeId := Bytes.fill 16 2

def thirdPeer : NodeId := Bytes.fill 16 3

def fourthPeer : NodeId := Bytes.fill 16 4

/-- Bytes served to one peer before a call and to another before the
next. -/
def servedBetween : List (UInt64 × SyncEvent) :=
  (10, .op (.served thirdPeer 5)) :: syncCall 20
    ++ (25, .op (.served fourthPeer 7)) :: syncCall 30

def freshNet : SyncNet :=
  ⟨AccountingState.new, AccountingState.new, .idle, []⟩

/-- Both counts reach the peer, each with the next call: the second call
leaves out what the first one has sent. -/
theorem delta_sync_complete_twice :
    AfterCalls IterOrder.bytewise IterOrder.bytewise syncPeer
        (Synced IterOrder.bytewise syncPeer) freshNet servedBetween
      ∧ (servedBetween.foldl (fun s x => SyncNet.step IterOrder.bytewise
          IterOrder.bytewise syncPeer s x.1 x.2) freshNet).sent.map
            Prod.fst = [thirdPeer, fourthPeer] := by
  constructor
  · refine delta_sync_complete _ _ _ _ _ rfl _ ?_ ?_
    · decide
    · exact ⟨rfl, trivial, trivial, trivial, trivial, rfl, trivial, trivial,
        trivial, trivial, trivial⟩
  · decide +kernel

/-- What a third node reports of an earlier time is adopted, and the next
call does not send it. -/
theorem adopted_entry_withheld :
    ¬ AfterCalls IterOrder.bytewise IterOrder.bytewise syncPeer
      (fun s => ∀ p c, s.node.peers.get p = some c →
        c.admitted (s.node.lastSyncTime syncPeer) = true → (p, c) ∈ s.sent)
      ⟨AccountingState.new, AccountingState.new, .idle, []⟩
      (syncCall 20 ++ (25, .op (.reconcile [(thirdPeer,
        PeerCredit.new.recordServed 9 5)])) :: syncCall 30) := by
  intro h
  obtain ⟨-, h⟩ := afterCalls_empty rfl
    (by
      show (entriesOf _ ∅).filter _ = []
      rw [entriesOf_empty]
      rfl) h
  obtain ⟨-, h⟩ := h
  rw [← List.append_nil (syncCall 30)] at h
  obtain ⟨hdone, -⟩ := afterCalls_empty rfl
    (by
      show (List.filterMap _ (IterOrder.bytewise.iter {thirdPeer})).filter _
        = []
      rw [IterOrder.iter_singleton]
      rfl) h
  have hmem := hdone thirdPeer _ rfl rfl
  cases hmem

end StaticNet
