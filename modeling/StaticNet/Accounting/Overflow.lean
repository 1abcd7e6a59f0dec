/-
The arithmetic of the accounting state (`static-accounting/src/lib.rs`):
where an addition, a subtraction or a cast leaves its type.

# What is computed

For each function that computes, a condition says that its additions and
subtractions stay in the type and that its casts keep the value.
`NoOverflow` asks these of a state, for every request a peer can make and
every later clock. As long as the totals are bounded it is five bounds on
each record and one on the prepaid sum (`noOverflow_iff`).

# Where the numbers come from

Local updates move the numbers by what they record, a prepayment by what
the message says, and a merge replaces them by what the entry says.
`Fits` says for each call what the record and the input must satisfy, and
`arithmetic_fits_iff` that nothing overflows in a run exactly when each
call meets it.
-/
import StaticNet.Accounting.Balance
import StaticNet.Accounting.Prepaid

namespace StaticNet

open AccountingState Exact

-- ======== arithmetic

/-- `a + b` on `u32`. -/
def AddFits32 (a b : UInt32) : Prop := a.toNat + b.toNat < 2 ^ 32

/-- `a + b` on `u64`. -/
def AddFits (a b : UInt64) : Prop := a.toNat + b.toNat < 2 ^ 64

/-- `a as i64` is the same number. -/
def CastFits (a : UInt64) : Prop := a.toInt64.toInt = a.toNat

/-- `a + b` on `i64`. -/
def AddFitsInt (a b : Int64) : Prop :=
  -2 ^ 63 ≤ a.toInt + b.toInt ∧ a.toInt + b.toInt < 2 ^ 63

/-- `a - b` on `i64`. -/
def SubFitsInt (a b : Int64) : Prop :=
  -2 ^ 63 ≤ a.toInt - b.toInt ∧ a.toInt - b.toInt < 2 ^ 63

/-- `a - b` on `u64`. -/
def SubFits (a b : UInt64) : Prop := b ≤ a

namespace PeerCredit

def ChallengeSuccessRateFits (c : PeerCredit) : Prop :=
  AddFits32 c.successfulChallenges c.failedChallenges

def HasCreditFits (needed : UInt64) : Prop := CastFits needed

def EffectiveCreditFits (c : PeerCredit) : Prop :=
  CastFits c.prepaidBytes ∧ AddFitsInt c.netCredit c.prepaidBytes.toInt64

def RecordServedFits (c : PeerCredit) (bytes : UInt64) : Prop :=
  AddFits c.bytesServed bytes ∧ CastFits bytes
    ∧ AddFitsInt c.netCredit bytes.toInt64

def RecordReceivedFits (c : PeerCredit) (bytes : UInt64) : Prop :=
  AddFits c.bytesReceived bytes ∧ CastFits bytes
    ∧ SubFitsInt c.netCredit bytes.toInt64

end PeerCredit

namespace AccountingState

/-- The sums and casts of the three gates; the other additions there
saturate. -/
def ShouldServeFits (st : AccountingState) (peer : NodeId)
    (requested : UInt64) : Prop :=
  ∀ c, st.peers.get peer = some c →
    AddFits32 c.successfulChallenges c.failedChallenges
      ∧ c.ChallengeSuccessRateFits ∧ PeerCredit.HasCreditFits requested
      ∧ c.EffectiveCreditFits

/-- The sum over the table, in whatever order. -/
def TotalPrepaidFits (st : AccountingState) : Prop :=
  st.peers.sumBy (fun c => c.prepaidBytes.toNat) < 2 ^ 64

def HasExcessCapacityFits (st : AccountingState) (threshold : UInt64) :
    Prop :=
  CastFits st.totalBytesServed ∧ CastFits st.totalBytesReceived
    ∧ CastFits threshold
    ∧ SubFitsInt st.totalBytesServed.toInt64 st.totalBytesReceived.toInt64

def PruneInactiveFits (st : AccountingState) (now : UInt64) : Prop :=
  ∀ peer c, st.peers.get peer = some c → SubFits now c.lastInteraction

def RecordServedFits (st : AccountingState) (peer : NodeId)
    (bytes : UInt64) : Prop :=
  AddFits st.totalBytesServed bytes ∧ (st.record peer).RecordServedFits bytes

def RecordReceivedFits (st : AccountingState) (peer : NodeId)
    (bytes : UInt64) : Prop :=
  AddFits st.totalBytesReceived bytes
    ∧ (st.record peer).RecordReceivedFits bytes

end AccountingState

/-- Nothing that is computed from a state overflows. -/
structure NoOverflow (st : AccountingState) (clock : UInt64) : Prop where
  shouldServe : ∀ peer requested, requested ≤ MAX_ACCOUNTING_BYTES →
    st.ShouldServeFits peer requested
  effectiveCredit : Records PeerCredit.EffectiveCreditFits st
  challengeSuccessRate : Records PeerCredit.ChallengeSuccessRateFits st
  totalPrepaidBytes : st.TotalPrepaidFits
  hasExcessCapacity : ∀ threshold, threshold ≤ MAX_ACCOUNTING_BYTES →
    st.HasExcessCapacityFits threshold
  pruneInactivePeers : ∀ now, clock ≤ now → st.PruneInactiveFits now
  recordServed : ∀ peer bytes, bytes ≤ MAX_ACCOUNTING_BYTES →
    st.RecordServedFits peer bytes
  recordReceived : ∀ peer bytes, bytes ≤ MAX_ACCOUNTING_BYTES →
    st.RecordReceivedFits peer bytes

-- ============ bounds

/-- The bounds on one record. -/
structure InBounds (clock : UInt64) (c : PeerCredit) : Prop where
  challenges : c.successfulChallenges.toNat + c.failedChallenges.toNat
    < 2 ^ 32
  prepaid : c.prepaidBytes.toNat < 2 ^ 63
  effective : c.netCredit.toInt + c.prepaidBytes.toNat < 2 ^ 63
  low : -2 ^ 63 + 2 ^ 60 ≤ c.netCredit.toInt
  high : c.netCredit.toInt + 2 ^ 60 < 2 ^ 63
  stamp : c.lastInteraction ≤ clock

/-- What the amounts of a run keep: the totals below `2 ^ 62`, and no
record's counters more than an adopted bound above them. -/
structure Counted (st : AccountingState) : Prop where
  served : st.totalBytesServed.toNat < 2 ^ 62
  received : st.totalBytesReceived.toNat < 2 ^ 62
  each : Records (fun c =>
    c.bytesServed.toNat ≤ 2 ^ 60 + st.totalBytesServed.toNat
      ∧ c.bytesReceived.toNat ≤ 2 ^ 60 + st.totalBytesReceived.toNat) st

theorem toNat_max : MAX_ACCOUNTING_BYTES.toNat = 2 ^ 60 := by decide

theorem toNat_add_of_fits {a b : UInt64} (h : AddFits a b) :
    (a + b).toNat = a.toNat + b.toNat := by
  rw [UInt64.toNat_add]
  exact Nat.mod_eq_of_lt h

theorem castFits_iff (a : UInt64) : CastFits a ↔ a.toNat < 2 ^ 63 := by
  constructor
  · intro h
    have hlt := a.toInt64.toInt_lt
    rw [h] at hlt
    omega
  · exact toInt_toInt64_of_lt

theorem castFits_of_le {a : UInt64} (h : a ≤ MAX_ACCOUNTING_BYTES) :
    a.toNat ≤ 2 ^ 60 ∧ a.toInt64.toInt = a.toNat := by
  rw [UInt64.le_iff_toNat_le, toNat_max] at h
  exact ⟨h, toInt_toInt64_of_lt (by omega)⟩

theorem effectiveCreditFits_iff (c : PeerCredit) :
    c.EffectiveCreditFits ↔ c.prepaidBytes.toNat < 2 ^ 63
      ∧ c.netCredit.toInt + c.prepaidBytes.toNat < 2 ^ 63 := by
  unfold PeerCredit.EffectiveCreditFits AddFitsInt
  rw [castFits_iff]
  constructor
  · rintro ⟨hcast, -, hhigh⟩
    rw [toInt_toInt64_of_lt hcast] at hhigh
    exact ⟨hcast, hhigh⟩
  · rintro ⟨hcast, hhigh⟩
    have hlow := c.netCredit.le_toInt
    rw [toInt_toInt64_of_lt hcast]
    exact ⟨hcast, by omega, hhigh⟩

variable {st : AccountingState} {clock now : UInt64} {c : PeerCredit}

theorem InBounds.effectiveCredit (h : InBounds clock c) :
    c.EffectiveCreditFits :=
  (effectiveCreditFits_iff c).2 ⟨h.prepaid, h.effective⟩

theorem inBounds_new (clock : UInt64) : InBounds clock PeerCredit.new where
  challenges := by decide
  prepaid := by decide
  effective := by decide
  low := by decide
  high := by decide
  stamp := UInt64.zero_le

/-- The record an update starts from is in bounds. -/
theorem record_prop {Q : PeerCredit → Prop} (h : Records Q st)
    (hnew : Q PeerCredit.new) (p : NodeId) : Q (st.record p) := by
  unfold AccountingState.record
  cases hget : st.peers.get p with
  | none => exact hnew
  | some c => exact h p c hget

theorem Counted.record (h : Counted st) (p : NodeId) :
    (st.record p).bytesServed.toNat ≤ 2 ^ 60 + st.totalBytesServed.toNat
      ∧ (st.record p).bytesReceived.toNat
        ≤ 2 ^ 60 + st.totalBytesReceived.toNat :=
  record_prop (Q := fun c =>
      c.bytesServed.toNat ≤ 2 ^ 60 + st.totalBytesServed.toNat
        ∧ c.bytesReceived.toNat ≤ 2 ^ 60 + st.totalBytesReceived.toNat)
    h.each ⟨Nat.zero_le _, Nat.zero_le _⟩ p

theorem recordServedFits_of {p : NodeId} {bytes : UInt64} (hc : Counted st)
    (hb : Records (InBounds clock) st) (hle : bytes ≤ MAX_ACCOUNTING_BYTES) :
    st.RecordServedFits p bytes := by
  have htotal := hc.served
  have hcount := (hc.record p).1
  have hin := record_prop hb (inBounds_new clock) p
  have hlow := hin.low
  have hhigh := hin.high
  obtain ⟨hbytes, hcast⟩ := castFits_of_le hle
  refine ⟨?_, ?_, hcast, ?_⟩
  · unfold AddFits
    omega
  · unfold AddFits
    omega
  · unfold AddFitsInt
    rw [hcast]
    omega

theorem recordReceivedFits_of {p : NodeId} {bytes : UInt64}
    (hc : Counted st) (hb : Records (InBounds clock) st)
    (hle : bytes ≤ MAX_ACCOUNTING_BYTES) :
    st.RecordReceivedFits p bytes := by
  have htotal := hc.received
  have hcount := (hc.record p).2
  have hin := record_prop hb (inBounds_new clock) p
  have hlow := hin.low
  have hhigh := hin.high
  obtain ⟨hbytes, hcast⟩ := castFits_of_le hle
  refine ⟨?_, ?_, hcast, ?_⟩
  · unfold AddFits
    omega
  · unfold AddFits
    omega
  · unfold SubFitsInt
    rw [hcast]
    omega

theorem hasExcessCapacityFits_of {threshold : UInt64} (hc : Counted st)
    (hle : threshold ≤ MAX_ACCOUNTING_BYTES) :
    st.HasExcessCapacityFits threshold := by
  have hs : st.totalBytesServed.toInt64.toInt
      = st.totalBytesServed.toNat :=
    toInt_toInt64_of_lt (by have := hc.served; omega)
  have hr : st.totalBytesReceived.toInt64.toInt
      = st.totalBytesReceived.toNat :=
    toInt_toInt64_of_lt (by have := hc.received; omega)
  refine ⟨hs, hr, (castFits_of_le hle).2, ?_⟩
  have hserved := hc.served
  have hreceived := hc.received
  unfold SubFitsInt
  rw [hs, hr]
  omega

/-- With bounded totals, nothing overflows exactly when each record is in
bounds and the prepaid sum fits. -/
theorem noOverflow_iff (hc : Counted st) :
    NoOverflow st clock
      ↔ Records (InBounds clock) st ∧ st.TotalPrepaidFits := by
  constructor
  · intro h
    refine ⟨fun p c hget => ?_, h.totalPrepaidBytes⟩
    have hrecord : st.record p = c := by
      unfold AccountingState.record
      rw [hget]
      rfl
    have hmax := (castFits_of_le (UInt64.le_refl MAX_ACCOUNTING_BYTES)).2
    rw [toNat_max] at hmax
    obtain ⟨hprepaid, heffective⟩ :=
      (effectiveCreditFits_iff c).1 (h.effectiveCredit p c hget)
    have hserved := (h.recordServed p _ (UInt64.le_refl _)).2.2.2
    have hreceived := (h.recordReceived p _ (UInt64.le_refl _)).2.2.2
    rw [hrecord] at hserved hreceived
    unfold AddFitsInt at hserved
    unfold SubFitsInt at hreceived
    rw [hmax] at hserved hreceived
    exact ⟨h.challengeSuccessRate p c hget, hprepaid, heffective, by omega,
      by omega, h.pruneInactivePeers clock (UInt64.le_refl _) p c hget⟩
  · rintro ⟨hb, hsum⟩
    refine ⟨?_, fun p c hget => (hb p c hget).effectiveCredit,
      fun p c hget => (hb p c hget).challenges, hsum,
      fun threshold hle => hasExcessCapacityFits_of hc hle, ?_,
      fun p bytes hle => recordServedFits_of hc hb hle,
      fun p bytes hle => recordReceivedFits_of hc hb hle⟩
    · intro p requested hle c hget
      have hin := hb p c hget
      exact ⟨hin.challenges, hin.challenges, (castFits_of_le hle).2,
        hin.effectiveCredit⟩
    · intro now hnow p c hget
      exact UInt64.le_trans (hb p c hget).stamp hnow

-- =========== a merge

namespace AccountingState

/-- The peers a batch speaks of. -/
def spokenOf (incoming : List (NodeId × PeerCredit)) : Finset NodeId :=
  (incoming.map Prod.fst).toFinset

/-- The entry of a batch that a merge adopts for a peer. -/
def adopted (st : AccountingState) (incoming : List (NodeId × PeerCredit))
    (now : UInt64) (p : NodeId) : Option PeerCredit :=
  (newest p now incoming).filter fun c => (st.peers.get p).all fun ours =>
    ours.lastInteraction < c.lastInteraction

/-- The prepaid bytes of the entries that are adopted. -/
def prepaidBrought (st : AccountingState)
    (incoming : List (NodeId × PeerCredit)) (now : UInt64) : Nat :=
  (spokenOf incoming).sum fun p =>
    ((st.adopted incoming now p).map fun c => c.prepaidBytes.toNat).getD 0

/-- The prepaid bytes of the records they replace. -/
def prepaidDropped (st : AccountingState)
    (incoming : List (NodeId × PeerCredit)) (now : UInt64) : Nat :=
  (spokenOf incoming).sum fun p =>
    if (st.adopted incoming now p).isSome then
      st.peers.weightAt (fun c => c.prepaidBytes.toNat) p
    else 0

variable {st : AccountingState} {incoming : List (NodeId × PeerCredit)}
  {now : UInt64} {p : NodeId} {c : PeerCredit}

theorem adopted_eq_some_iff :
    st.adopted incoming now p = some c ↔ Adopts st incoming now p c := by
  unfold adopted Adopts
  rw [Option.filter_eq_some_iff]
  refine and_congr_right fun _ => ?_
  cases st.peers.get p with
  | none => exact iff_of_true rfl nofun
  | some ours =>
      exact decide_eq_true_iff.trans
        ⟨fun h _ hget => Option.some.inj hget ▸ h, fun h => h ours rfl⟩

theorem mem_spokenOf (h : st.adopted incoming now p = some c) :
    p ∈ spokenOf incoming := by
  have hmem := (LastWrite.mem_of_latest
    (adopted_eq_some_iff.1 h).1).resolve_right nofun
  obtain ⟨entry, hentry, hsome⟩ := List.mem_filterMap.1 hmem
  split at hsome
  next hp =>
    exact List.mem_toFinset.2 (hp.1 ▸ List.mem_map_of_mem hentry)
  · cases hsome

/-- Where nothing is adopted the record stays. -/
theorem get_reconcile_none (h : st.adopted incoming now p = none) :
    (st.reconcile incoming now).peers.get p = st.peers.get p := by
  have hcases : ∀ c, (st.reconcile incoming now).peers.get p = some c →
      st.peers.get p = some c := fun c hc =>
    (get_reconcile_cases hc).resolve_left fun hadopts => by
      rw [adopted_eq_some_iff.2 hadopts] at h
      cases h
  cases hget : st.peers.get p with
  | none =>
      refine Option.eq_none_iff_forall_not_mem.2 fun c hc => ?_
      have hc := hcases c hc
      rw [hget] at hc
      cases hc
  | some ours =>
      obtain ⟨c, hc, -⟩ := reconcile_monotone st incoming now p hget
      rw [hc, ← hget]
      exact (hcases c hc).symm

/-- A merge changes the prepaid sum by what is adopted. -/
theorem sumBy_reconcile (st : AccountingState)
    (incoming : List (NodeId × PeerCredit)) (now : UInt64) :
    (st.reconcile incoming now).peers.sumBy (fun c => c.prepaidBytes.toNat)
        + st.prepaidDropped incoming now
      = st.peers.sumBy (fun c => c.prepaidBytes.toNat)
        + st.prepaidBrought incoming now := by
  have hspoken : ∀ g : NodeId → Nat,
      (∀ p, st.adopted incoming now p = none → g p = 0) →
      (spokenOf incoming).sum g
        = (st.peers.keys ∪ spokenOf incoming).sum g := by
    intro g hg
    refine Finset.sum_subset Finset.subset_union_right fun p _ hp => ?_
    refine hg p (Option.eq_none_iff_forall_not_mem.2 fun c hc => ?_)
    exact hp (mem_spokenOf hc)
  have hafter : (st.reconcile incoming now).peers.keys
      ⊆ st.peers.keys ∪ spokenOf incoming := by
    intro p hp
    obtain ⟨c, hc⟩ := (FMap.mem_keys_iff _ p).1 hp
    rcases get_reconcile_cases hc with hadopts | hc
    · exact Finset.mem_union_right _
        (mem_spokenOf (adopted_eq_some_iff.2 hadopts))
    · exact Finset.mem_union_left _ (FMap.mem_keys_of_get hc)
  rw [FMap.sumBy_of_subset hafter,
    FMap.sumBy_of_subset Finset.subset_union_left, prepaidDropped,
    prepaidBrought, hspoken _ (fun p hp => by rw [hp]; rfl),
    hspoken _ (fun p hp => by rw [hp]; rfl), ← Finset.sum_add_distrib,
    ← Finset.sum_add_distrib]
  refine Finset.sum_congr rfl fun p _ => ?_
  cases hadopted : st.adopted incoming now p with
  | none =>
      unfold FMap.weightAt
      rw [get_reconcile_none hadopted]
      rfl
  | some c =>
      rw [FMap.weightAt_of_get (get_reconcile_adopts
        (adopted_eq_some_iff.1 hadopted))]
      exact Nat.add_comm _ _

end AccountingState

-- ============== runs

/-- The records with the clock of the last call. -/
structure LedgerRun where
  ledger : SponsorLedger
  clock : UInt64

/-- One call on the accounting state, with the clock it reads. -/
inductive LedgerCall
  | served (peer : NodeId) (bytes now : UInt64)
  | received (peer : NodeId) (bytes now : UInt64)
  | challenge (peer : NodeId) (success : Bool) (now : UInt64)
  | prepayment (p : Prepayment) (order : IterOrder (NodeId × ContentId))
      (now : UInt64)
  | reconcile (incoming : List (NodeId × PeerCredit)) (now : UInt64)

namespace LedgerCall

/-- The clock it reads. -/
def time : LedgerCall → UInt64
  | served _ _ now => now
  | received _ _ now => now
  | challenge _ _ now => now
  | prepayment _ _ now => now
  | reconcile _ now => now

def onLedger (P : Prims) (mode : NodeMode) (l : SponsorLedger) :
    LedgerCall → SponsorLedger
  | served peer bytes now =>
      { l with accounting := l.accounting.recordServed peer bytes now }
  | received peer bytes now =>
      { l with accounting := l.accounting.recordReceived peer bytes now }
  | challenge peer success now =>
      { l with
        accounting :=
          if success then l.accounting.recordChallengeSuccess peer now
          else l.accounting.recordChallengeFailure peer now }
  | prepayment p order now =>
      (handlePrepayment P mode order p.fromNode p now.toNat l).2
  | reconcile incoming now =>
      { l with accounting := l.accounting.reconcile incoming now }

def step (P : Prims) (mode : NodeMode) (s : LedgerRun) (e : LedgerCall) :
    LedgerRun := ⟨e.onLedger P mode s.ledger, e.time⟩

/-- The clock does not go back, an amount is at most the bound, and the
totals stay below `2 ^ 62`. -/
def Allowed (s : LedgerRun) (e : LedgerCall) : Prop :=
  s.clock ≤ e.time ∧
    match e with
    | served _ bytes _ => bytes ≤ MAX_ACCOUNTING_BYTES
        ∧ s.ledger.accounting.totalBytesServed.toNat + bytes.toNat < 2 ^ 62
    | received _ bytes _ => bytes ≤ MAX_ACCOUNTING_BYTES
        ∧ s.ledger.accounting.totalBytesReceived.toNat + bytes.toNat
          < 2 ^ 62
    | _ => True

/-- The message is accepted. -/
def Takes (P : Prims) (mode : NodeMode) (l : SponsorLedger) (p : Prepayment)
    (now : UInt64) : Prop :=
  Eligible P mode l p
    ∧ l.checkPrepayRateLimit p.fromNode p.contentId now.toNat = true

/-- The additions outside the list that the call itself makes: a challenge
counter, a prepaid amount. -/
def OwnFits (P : Prims) (mode : NodeMode) (s : LedgerRun) :
    LedgerCall → Prop
  | challenge peer success _ =>
      let c := s.ledger.accounting.record peer
      AddFits32 (if success then c.successfulChallenges
        else c.failedChallenges) 1
  | prepayment p _ now => Takes P mode s.ledger p now →
      AddFits (s.ledger.accounting.record p.fromNode).prepaidBytes p.bytes
  | _ => True

/-- What a call must find, and bring, for everything to stay in range. -/
def Fits (P : Prims) (mode : NodeMode) (s : LedgerRun) :
    LedgerCall → Prop
  | served peer bytes _ =>
      let c := s.ledger.accounting.record peer
      c.netCredit.toInt + bytes.toNat + c.prepaidBytes.toNat < 2 ^ 63
        ∧ c.netCredit.toInt + bytes.toNat + 2 ^ 60 < 2 ^ 63
  | received peer bytes _ =>
      let c := s.ledger.accounting.record peer
      2 ^ 60 + bytes.toNat ≤ c.netCredit.toInt + 2 ^ 63
  | challenge peer _ _ =>
      let c := s.ledger.accounting.record peer
      c.successfulChallenges.toNat + c.failedChallenges.toNat + 1 < 2 ^ 32
  | prepayment p _ now => Takes P mode s.ledger p now →
      let c := s.ledger.accounting.record p.fromNode
      c.prepaidBytes.toNat + p.bytes.toNat < 2 ^ 63
        ∧ c.netCredit.toInt + c.prepaidBytes.toNat + p.bytes.toNat < 2 ^ 63
        ∧ s.ledger.accounting.peers.sumBy (fun c => c.prepaidBytes.toNat)
          + p.bytes.toNat < 2 ^ 64
  | reconcile incoming now =>
      (∀ peer c, Adopts s.ledger.accounting incoming now peer c →
        InBounds now c)
      ∧ s.ledger.accounting.peers.sumBy (fun c => c.prepaidBytes.toNat)
          + s.ledger.accounting.prepaidBrought incoming now
        < 2 ^ 64 + s.ledger.accounting.prepaidDropped incoming now

end LedgerCall

open LedgerCall

-- ====== what is kept

theorem Records.imp {Q Q' : PeerCredit → Prop} (h : Records Q st)
    (hQ : ∀ c, Q c → Q' c) : Records Q' st :=
  fun p c hc => hQ c (h p c hc)

theorem admitted_of_adopts {batch : List (NodeId × PeerCredit)}
    {p : NodeId} (h : Adopts st batch now p c) : c.admitted now = true := by
  have hmem := (LastWrite.mem_of_latest h.1).resolve_right (by simp)
  obtain ⟨entry, -, hentry⟩ := List.mem_filterMap.1 hmem
  by_cases hok : entry.1 = p ∧ entry.2.admitted now = true
  · rw [if_pos hok] at hentry
    cases hentry
    exact hok.2
  · rw [if_neg hok] at hentry
    cases hentry

/-- An admitted entry's counters are bounded. -/
theorem admitted_counters (h : c.admitted now = true) :
    c.bytesServed.toNat ≤ 2 ^ 60 ∧ c.bytesReceived.toNat ≤ 2 ^ 60 := by
  simp only [PeerCredit.admitted, Bool.and_eq_true, decide_eq_true_eq,
    UInt64.le_iff_toNat_le, toNat_max] at h
  exact ⟨h.1.1.2, h.1.2⟩

/-- The accounting of a prepayment: credited when it is taken. -/
theorem prepayment_accounting (P : Prims) (mode : NodeMode)
    (l : SponsorLedger) (p : Prepayment)
    (order : IterOrder (NodeId × ContentId)) (now : UInt64) :
    (Takes P mode l p now →
      ((LedgerCall.prepayment p order now).onLedger P mode l).accounting
        = l.accounting.recordPrepayment p.fromNode p.bytes)
      ∧ (¬Takes P mode l p now →
        ((LedgerCall.prepayment p order now).onLedger P mode l).accounting
          = l.accounting) :=
  ⟨fun h => (handlePrepayment_accepts order h.1 h.2).2.1,
    fun h => (handlePrepayment_refuses order h).2.1⟩

theorem reconcile_totals (batch : List (NodeId × PeerCredit))
    (now : UInt64) :
    (st.reconcile batch now).totalBytesServed = st.totalBytesServed
      ∧ (st.reconcile batch now).totalBytesReceived
        = st.totalBytesReceived := by
  have hframe := reconcile_frame st batch now
  have hserved := congrArg (fun s : AccountingState => s.totalBytesServed)
    hframe
  have hreceived := congrArg
    (fun s : AccountingState => s.totalBytesReceived) hframe
  exact ⟨hserved, hreceived⟩

/-- An update that leaves the counters alone. -/
theorem Counted.updPeer (h : Counted st) (p : NodeId)
    (f : PeerCredit → PeerCredit)
    (hf : ∀ c, (f c).bytesServed = c.bytesServed
      ∧ (f c).bytesReceived = c.bytesReceived) :
    Counted (st.updPeer p f) where
  served := h.served
  received := h.received
  each := by
    refine (records_updPeer_iff f h.each).2 ?_
    rw [(hf _).1, (hf _).2]
    exact h.record p

theorem Counted.recordServed {bytes : UInt64} (h : Counted st) (p : NodeId)
    (hle : st.totalBytesServed.toNat + bytes.toNat < 2 ^ 62) :
    Counted (st.recordServed p bytes now) := by
  have htotal : (st.totalBytesServed + bytes).toNat
      = st.totalBytesServed.toNat + bytes.toNat :=
    toNat_add_of_fits (by unfold AddFits; omega)
  have hrecord := h.record p
  have hcount : ((st.record p).bytesServed + bytes).toNat
      = (st.record p).bytesServed.toNat + bytes.toNat :=
    toNat_add_of_fits (by unfold AddFits; omega)
  refine ⟨?_, h.received, ?_⟩
  · show (st.totalBytesServed + bytes).toNat < 2 ^ 62
    omega
  · have heach : Records (fun c =>
        c.bytesServed.toNat ≤ 2 ^ 60 + (st.totalBytesServed + bytes).toNat
          ∧ c.bytesReceived.toNat
            ≤ 2 ^ 60 + st.totalBytesReceived.toNat) st :=
      h.each.imp fun c hc => ⟨by omega, hc.2⟩
    refine (records_updPeer_iff (fun c => c.recordServed bytes now)
      heach).2 ⟨?_, hrecord.2⟩
    show ((st.record p).bytesServed + bytes).toNat ≤ _
    omega

theorem Counted.recordReceived {bytes : UInt64} (h : Counted st)
    (p : NodeId)
    (hle : st.totalBytesReceived.toNat + bytes.toNat < 2 ^ 62) :
    Counted (st.recordReceived p bytes now) := by
  have htotal : (st.totalBytesReceived + bytes).toNat
      = st.totalBytesReceived.toNat + bytes.toNat :=
    toNat_add_of_fits (by unfold AddFits; omega)
  have hrecord := h.record p
  have hcount : ((st.record p).bytesReceived + bytes).toNat
      = (st.record p).bytesReceived.toNat + bytes.toNat :=
    toNat_add_of_fits (by unfold AddFits; omega)
  refine ⟨h.served, ?_, ?_⟩
  · show (st.totalBytesReceived + bytes).toNat < 2 ^ 62
    omega
  · have heach : Records (fun c =>
        c.bytesServed.toNat ≤ 2 ^ 60 + st.totalBytesServed.toNat
          ∧ c.bytesReceived.toNat
            ≤ 2 ^ 60 + (st.totalBytesReceived + bytes).toNat) st :=
      h.each.imp fun c hc => ⟨hc.1, by omega⟩
    refine (records_updPeer_iff (fun c => c.recordReceived bytes now)
      heach).2 ⟨hrecord.1, ?_⟩
    show ((st.record p).bytesReceived + bytes).toNat ≤ _
    omega

theorem Counted.reconcile (h : Counted st)
    (batch : List (NodeId × PeerCredit)) (now : UInt64) :
    Counted (st.reconcile batch now) := by
  obtain ⟨hserved, hreceived⟩ := reconcile_totals batch now
  constructor
  · rw [hserved]
    exact h.served
  · rw [hreceived]
    exact h.received
  · rw [hserved, hreceived]
    refine (records_reconcile_iff h.each).2 fun p c hc => ?_
    obtain ⟨hs, hr⟩ := admitted_counters (admitted_of_adopts hc)
    exact ⟨by omega, by omega⟩

/-- The bounds on the counters are kept by every allowed call. -/
theorem Counted.step {P : Prims} {mode : NodeMode} {s : LedgerRun}
    {e : LedgerCall} (h : Counted s.ledger.accounting)
    (hallowed : e.Allowed s) :
    Counted (e.step P mode s).ledger.accounting := by
  cases e with
  | served peer bytes now => exact h.recordServed peer hallowed.2.2
  | received peer bytes now => exact h.recordReceived peer hallowed.2.2
  | challenge peer success now =>
      cases success with
      | true =>
          exact h.updPeer peer (fun c => c.recordChallengeSuccess now)
            fun _ => ⟨rfl, rfl⟩
      | false =>
          exact h.updPeer peer (fun c => c.recordChallengeFailure now)
            fun _ => ⟨rfl, rfl⟩
  | prepayment p order now =>
      obtain ⟨htakes, hnot⟩ :=
        prepayment_accounting P mode s.ledger p order now
      by_cases ht : Takes P mode s.ledger p now
      · have hstep := htakes ht
        simp only [LedgerCall.step]
        rw [hstep]
        exact h.updPeer p.fromNode
          (fun c => { c with prepaidBytes := c.prepaidBytes + p.bytes })
          fun _ => ⟨rfl, rfl⟩
      · have hstep := hnot ht
        simp only [LedgerCall.step]
        rw [hstep]
        exact h
  | reconcile incoming now => exact h.reconcile incoming now

-- ========== one call

/-- Bounds at one time are bounds later. -/
theorem InBounds.later (h : InBounds clock c) (hle : clock ≤ now) :
    InBounds now c :=
  { h with stamp := UInt64.le_trans h.stamp hle }

/-- The prepaid sum after an update of one record. -/
theorem sumBy_updPeer (st : AccountingState) (p : NodeId)
    (f : PeerCredit → PeerCredit) :
    (st.updPeer p f).peers.sumBy (fun c => c.prepaidBytes.toNat)
        + (st.record p).prepaidBytes.toNat
      = st.peers.sumBy (fun c => c.prepaidBytes.toNat)
        + (f (st.record p)).prepaidBytes.toNat := by
  have hsum := st.peers.sumBy_insert (fun c => c.prepaidBytes.toNat) p
    (f (st.record p))
  have hweight : st.peers.weightAt (fun c => c.prepaidBytes.toNat) p
      = (st.record p).prepaidBytes.toNat := by
    unfold AccountingState.record
    cases hget : st.peers.get p with
    | none =>
        rw [FMap.weightAt_of_none hget]
        rfl
    | some c =>
        rw [FMap.weightAt_of_get hget]
        rfl
  rw [hweight] at hsum
  exact hsum

/-- An update that leaves the prepaid amount alone is in range when the
record it makes is. -/
theorem updPeer_inRange_iff (p : NodeId) (f : PeerCredit → PeerCredit)
    (hf : (f (st.record p)).prepaidBytes = (st.record p).prepaidBytes)
    (hb : Records (InBounds clock) st) (hsum : st.TotalPrepaidFits) :
    (Records (InBounds clock) (st.updPeer p f)
        ∧ (st.updPeer p f).TotalPrepaidFits)
      ↔ InBounds clock (f (st.record p)) := by
  have htotal := sumBy_updPeer st p f
  rw [hf] at htotal
  have hfits : (st.updPeer p f).TotalPrepaidFits := by
    unfold AccountingState.TotalPrepaidFits at hsum ⊢
    omega
  rw [records_updPeer_iff f hb]
  exact ⟨And.left, fun h => ⟨h, hfits⟩⟩

theorem inBounds_served_iff {bytes : UInt64} (hin : InBounds now c)
    (hle : bytes ≤ MAX_ACCOUNTING_BYTES) :
    InBounds now (c.recordServed bytes now)
      ↔ c.netCredit.toInt + bytes.toNat + c.prepaidBytes.toNat < 2 ^ 63
        ∧ c.netCredit.toInt + bytes.toNat + 2 ^ 60 < 2 ^ 63 := by
  obtain ⟨hbytes, hcast⟩ := castFits_of_le hle
  have hlow := hin.low
  have hhigh := hin.high
  have hnet : (c.netCredit + bytes.toInt64).toInt
      = c.netCredit.toInt + bytes.toNat := by
    rw [toInt_add_of_range (by omega) (by omega), hcast]
  constructor
  · intro h
    have heffective := h.effective
    have hnew := h.high
    simp only [PeerCredit.recordServed, hnet] at heffective hnew
    exact ⟨heffective, hnew⟩
  · rintro ⟨heffective, hnew⟩
    refine ⟨hin.challenges, hin.prepaid, ?_, ?_, ?_, UInt64.le_refl _⟩
    · simpa only [PeerCredit.recordServed, hnet] using heffective
    · simp only [PeerCredit.recordServed, hnet]
      omega
    · simpa only [PeerCredit.recordServed, hnet] using hnew

theorem inBounds_received_iff {bytes : UInt64} (hin : InBounds now c)
    (hle : bytes ≤ MAX_ACCOUNTING_BYTES) :
    InBounds now (c.recordReceived bytes now)
      ↔ 2 ^ 60 + bytes.toNat ≤ c.netCredit.toInt + 2 ^ 63 := by
  obtain ⟨hbytes, hcast⟩ := castFits_of_le hle
  have hlow := hin.low
  have hhigh := hin.high
  have heffective := hin.effective
  have hnet : (c.netCredit - bytes.toInt64).toInt
      = c.netCredit.toInt - bytes.toNat := by
    rw [toInt_sub_of_range (by omega) (by omega), hcast]
  constructor
  · intro h
    have hnew := h.low
    simp only [PeerCredit.recordReceived, hnet] at hnew
    omega
  · intro hnew
    refine ⟨hin.challenges, hin.prepaid, ?_, ?_, ?_, UInt64.le_refl _⟩
    · simp only [PeerCredit.recordReceived, hnet]
      omega
    · simp only [PeerCredit.recordReceived, hnet]
      omega
    · simp only [PeerCredit.recordReceived, hnet]
      omega

theorem toNat_succ32 {a : UInt32} (h : AddFits32 a 1) :
    (a + 1).toNat = a.toNat + 1 := by
  rw [UInt32.toNat_add]
  exact Nat.mod_eq_of_lt h

/-- Of the counts of challenges only the sum is bounded. -/
theorem inBounds_challenges_iff (hin : InBounds now c) (won lost : UInt32) :
    InBounds now { c with
        successfulChallenges := won
        failedChallenges := lost
        lastInteraction := now }
      ↔ won.toNat + lost.toNat < 2 ^ 32 :=
  ⟨InBounds.challenges, fun h =>
    { hin with challenges := h, stamp := UInt64.le_refl _ }⟩

theorem inBounds_success_iff (hin : InBounds now c)
    (hown : AddFits32 c.successfulChallenges 1) :
    InBounds now (c.recordChallengeSuccess now)
      ↔ c.successfulChallenges.toNat + c.failedChallenges.toNat + 1
        < 2 ^ 32 := by
  have hcount := toNat_succ32 hown
  refine (inBounds_challenges_iff hin _ _).trans ?_
  omega

theorem inBounds_failure_iff (hin : InBounds now c)
    (hown : AddFits32 c.failedChallenges 1) :
    InBounds now (c.recordChallengeFailure now)
      ↔ c.successfulChallenges.toNat + c.failedChallenges.toNat + 1
        < 2 ^ 32 := by
  have hcount := toNat_succ32 hown
  refine (inBounds_challenges_iff hin _ _).trans ?_
  omega

/-- A credited prepayment. -/
theorem prepaid_inRange_iff {bytes : UInt64} (p : NodeId)
    (hb : Records (InBounds clock) st)
    (hown : AddFits (st.record p).prepaidBytes bytes) :
    (Records (InBounds clock) (st.recordPrepayment p bytes)
        ∧ (st.recordPrepayment p bytes).TotalPrepaidFits)
      ↔ (st.record p).prepaidBytes.toNat + bytes.toNat < 2 ^ 63
        ∧ (st.record p).netCredit.toInt + (st.record p).prepaidBytes.toNat
          + bytes.toNat < 2 ^ 63
        ∧ st.peers.sumBy (fun c => c.prepaidBytes.toNat) + bytes.toNat
          < 2 ^ 64 := by
  have hin := record_prop hb (inBounds_new clock) p
  have hprepaid : ((st.record p).prepaidBytes + bytes).toNat
      = (st.record p).prepaidBytes.toNat + bytes.toNat :=
    toNat_add_of_fits hown
  have htotal := sumBy_updPeer st p
    fun c => { c with prepaidBytes := c.prepaidBytes + bytes }
  have hrecords := records_updPeer_iff (p := p)
    (fun c => { c with prepaidBytes := c.prepaidBytes + bytes }) hb
  rw [AccountingState.recordPrepayment, hrecords]
  unfold AccountingState.TotalPrepaidFits
  simp only [hprepaid] at htotal
  constructor
  · rintro ⟨hnew, hsum⟩
    have hbound := hnew.prepaid
    have heffective := hnew.effective
    simp only [hprepaid] at hbound heffective
    refine ⟨hbound, ?_, by omega⟩
    push_cast at heffective
    omega
  · rintro ⟨hbound, heffective, hsum⟩
    refine ⟨⟨hin.challenges, ?_, ?_, hin.low, hin.high, hin.stamp⟩,
      by omega⟩
    · simp only [hprepaid]
      exact hbound
    · simp only [hprepaid]
      push_cast
      omega

/-- Nothing overflows in a state of the run. -/
def LedgerRun.Safe (s : LedgerRun) : Prop :=
  NoOverflow s.ledger.accounting s.clock

/-- From a safe state, an allowed call whose own additions fit leads to a
safe state exactly when it fits. -/
theorem safe_step_iff {P : Prims} {mode : NodeMode} {s : LedgerRun}
    {e : LedgerCall} (hallowed : e.Allowed s) (hown : e.OwnFits P mode s)
    (hcounted : Counted s.ledger.accounting) (hsafe : s.Safe) :
    (e.step P mode s).Safe ↔ e.Fits P mode s := by
  obtain ⟨hb, hsum⟩ := (noOverflow_iff hcounted).1 hsafe
  have hlater : Records (InBounds e.time) s.ledger.accounting :=
    hb.imp fun c hc => hc.later hallowed.1
  unfold LedgerRun.Safe
  rw [noOverflow_iff (hcounted.step hallowed)]
  cases e with
  | served peer bytes now =>
      have hin := record_prop hlater (inBounds_new now) peer
      exact (updPeer_inRange_iff peer (fun c => c.recordServed bytes now)
        rfl hlater hsum).trans (inBounds_served_iff hin hallowed.2.1)
  | received peer bytes now =>
      have hin := record_prop hlater (inBounds_new now) peer
      exact (updPeer_inRange_iff peer (fun c => c.recordReceived bytes now)
        rfl hlater hsum).trans (inBounds_received_iff hin hallowed.2.1)
  | challenge peer success now =>
      have hin := record_prop hlater (inBounds_new now) peer
      cases success with
      | true =>
          exact (updPeer_inRange_iff peer
            (fun c => c.recordChallengeSuccess now) rfl hlater hsum).trans
            (inBounds_success_iff hin hown)
      | false =>
          exact (updPeer_inRange_iff peer
            (fun c => c.recordChallengeFailure now) rfl hlater hsum).trans
            (inBounds_failure_iff hin hown)
  | prepayment p order now =>
      obtain ⟨htakes, hnot⟩ :=
        prepayment_accounting P mode s.ledger p order now
      by_cases ht : Takes P mode s.ledger p now
      · have hiff := prepaid_inRange_iff p.fromNode hlater (hown ht)
        simp only [LedgerCall.step, htakes ht]
        exact hiff.trans ⟨fun h _ => h, fun h => h ht⟩
      · simp only [LedgerCall.step, hnot ht]
        exact ⟨fun _ h => absurd h ht, fun _ => ⟨hlater, hsum⟩⟩
  | reconcile incoming now =>
      have hsums := sumBy_reconcile s.ledger.accounting incoming now
      refine and_congr (records_reconcile_iff hlater) ?_
      show (s.ledger.accounting.reconcile incoming now).peers.sumBy _ < _
        ↔ _
      omega

/-- A call that fits makes no addition of its own that overflows. -/
theorem ownFits_of_fits {P : Prims} {mode : NodeMode} {s : LedgerRun}
    {e : LedgerCall} (h : e.Fits P mode s) : e.OwnFits P mode s := by
  cases e with
  | served peer bytes now => trivial
  | received peer bytes now => trivial
  | challenge peer success now =>
      have hone : (1 : UInt32).toNat = 1 := rfl
      cases success with
      | true =>
          simp only [LedgerCall.Fits] at h
          simp only [LedgerCall.OwnFits, AddFits32, if_true]
          omega
      | false =>
          simp only [LedgerCall.Fits] at h
          simp only [LedgerCall.OwnFits, AddFits32, Bool.false_eq_true,
            if_false]
          omega
  | prepayment p order now =>
      intro ht
      have hbound := (h ht).1
      unfold AddFits
      omega
  | reconcile incoming now => trivial

/-- A node with empty records at some time. -/
def LedgerRun.start (clock : UInt64) : LedgerRun :=
  ⟨⟨AccountingState.new, ∅, ∅⟩, clock⟩

theorem counted_new : Counted AccountingState.new where
  served := by decide
  received := by decide
  each := records_new _

theorem safe_start (clock : UInt64) : (LedgerRun.start clock).Safe :=
  (noOverflow_iff counted_new).2
    ⟨records_new _, by unfold AccountingState.TotalPrepaidFits; decide⟩

/-- In a run with bounded amounts and totals nothing overflows, neither in
its calls nor in what is computed from any state, exactly when every call
fits the record it finds. -/
theorem arithmetic_fits_iff (P : Prims) (mode : NodeMode) (clock : UInt64)
    (calls : List LedgerCall)
    (hallowed : Along (LedgerCall.step P mode) (fun s e => e.Allowed s)
      (LedgerRun.start clock) calls) :
    (Always (LedgerCall.step P mode) LedgerRun.Safe (LedgerRun.start clock)
          calls
        ∧ Along (LedgerCall.step P mode) (fun s e => e.OwnFits P mode s)
          (LedgerRun.start clock) calls)
      ↔ Along (LedgerCall.step P mode) (fun s e => e.Fits P mode s)
        (LedgerRun.start clock) calls := by
  have hexact : Along (LedgerCall.step P mode)
      (fun s e => e.OwnFits P mode s) (LedgerRun.start clock) calls →
      (Always (LedgerCall.step P mode) LedgerRun.Safe
          (LedgerRun.start clock) calls
        ↔ Along (LedgerCall.step P mode) (fun s e => e.Fits P mode s)
          (LedgerRun.start clock) calls) := by
    intro hown
    exact always_iff_along_given
      (J := fun s => Counted s.ledger.accounting)
      (fun s e hW hJ _ _ => hJ.step hW.1)
      (fun s e hW hJ hI => safe_step_iff hW.1 hW.2 hJ hI)
      (hallowed.and hown) counted_new (safe_start clock)
  constructor
  · rintro ⟨hsafe, hown⟩
    exact (hexact hown).1 hsafe
  · intro hfits
    have hown := hfits.imp fun s e h => ownFits_of_fits h
    exact ⟨(hexact hown).2 hfits, hown⟩

/-- A neighbour's view of a peer, with ten bytes prepaid. -/
def prepaidEntry : NodeId × PeerCredit :=
  (freeloader,
    { PeerCredit.new with
      bytesServed := 9
      netCredit := 9
      prepaidBytes := 10
      lastInteraction := 2 })

/-- A peer is served, its record is overwritten by a merge, a seed pays in
advance, and the peer is received from. -/
def ledgerDay : List LedgerCall :=
  [.served freeloader 5 1, .reconcile [prepaidEntry] 3,
    .prepayment onePrepayment attemptOrder 4, .received freeloader 3 5]

theorem arithmetic_fits_day :
    Always (LedgerCall.step Prims.plain .full) LedgerRun.Safe
        (LedgerRun.start 0) ledgerDay
      ∧ (ledgerDay.foldl (LedgerCall.step Prims.plain .full)
          (LedgerRun.start 0)).ledger.accounting.peers.sumBy
            (fun c => c.prepaidBytes.toNat) = 20 := by
  have hallowed : Along (LedgerCall.step Prims.plain .full)
      (fun s e => e.Allowed s) (LedgerRun.start 0) ledgerDay :=
    ⟨⟨by decide, by decide, by decide⟩, ⟨by decide, trivial⟩,
      ⟨by decide, trivial⟩,
      ⟨by decide +kernel, by decide, by decide +kernel⟩, trivial⟩
  have hiff := arithmetic_fits_iff Prims.plain .full 0 ledgerDay hallowed
  refine ⟨(hiff.2 ⟨⟨by decide, by decide⟩, ⟨fun p c hadopts => ?_, ?_⟩,
    fun _ => ⟨?_, ?_, ?_⟩, (?_ : (2 : Int) ^ 60 + _ ≤ _), trivial⟩).1,
    by decide +kernel⟩
  · obtain ⟨entry, hmem, rfl⟩ := mem_of_newest hadopts.1
    obtain rfl := List.mem_singleton.1 hmem
    refine ⟨?_, ?_, ?_, ?_, ?_, ?_⟩ <;> decide +kernel
  all_goals decide +kernel

/-- An entry dated a second ahead of our clock. -/
def aheadEntry : NodeId × PeerCredit :=
  (freeloader, { PeerCredit.new with lastInteraction := 1 })

/-- The merge takes it, and the age of its record is below zero. -/
theorem arithmetic_overflows :
    Along (LedgerCall.step Prims.plain .full) (fun s e => e.Allowed s)
        (LedgerRun.start 0) [.reconcile [aheadEntry] 0]
      ∧ ¬Always (LedgerCall.step Prims.plain .full) LedgerRun.Safe
        (LedgerRun.start 0) [.reconcile [aheadEntry] 0] := by
  refine ⟨⟨⟨by decide, trivial⟩, trivial⟩, ?_⟩
  rintro ⟨-, h⟩
  have hadopts : Adopts AccountingState.new [aheadEntry] 0 freeloader
      aheadEntry.2 :=
    ⟨by decide, fun ours hours => by cases hours⟩
  have hprune := h.pruneInactivePeers 0 (UInt64.le_refl _) freeloader _
    (get_reconcile_adopts hadopts)
  exact absurd hprune (by
    unfold SubFits
    decide)

end StaticNet
