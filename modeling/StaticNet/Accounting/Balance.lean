/-
The balance of a peer's record (`static-accounting/src/lib.rs`), and what
a reconciliation message does to it (`process_reconciliation` in
`static-node/src/runner.rs`, `AccountingReconciliation` in
`static-mesh/src/wire.rs`).

# What a merge adopts

A batch is one write of its newest admitted entry for each peer, so what
holds of every record before holds after exactly when it holds of the
entries that are adopted (`reconcile_records_iff`).

# The balance

`net_credit` is kept beside the counters it is the difference of. Local
updates change both sides; a merge takes all three numbers from the entry
and compares none of them with the others (`balance_kept_iff`).
-/
import StaticNet.Accounting.DeltaSync
import StaticNet.Accounting.Freeloader
import StaticNet.Lib.Exact
import StaticNet.Routing.Basic

namespace StaticNet

open AccountingState LastWrite Exact

variable {st : AccountingState} {p q : NodeId} {now : UInt64}
  {c : PeerCredit} {batch : List (NodeId × PeerCredit)}
  {Q : PeerCredit → Prop}

-- ============ adopts

/-- Every record has the property. -/
def Records (Q : PeerCredit → Prop) (st : AccountingState) : Prop :=
  ∀ p c, st.peers.get p = some c → Q c

/-- The record an update of a peer starts from. -/
def AccountingState.record (st : AccountingState) (p : NodeId) :
    PeerCredit :=
  (st.peers.get p).getD PeerCredit.new

/-- The newest admitted entry for a peer, where it is newer than the
record. -/
def Adopts (st : AccountingState) (batch : List (NodeId × PeerCredit))
    (now : UInt64) (p : NodeId) (c : PeerCredit) : Prop :=
  newest p now batch = some c
    ∧ ∀ ours, st.peers.get p = some ours →
      ours.lastInteraction < c.lastInteraction

theorem records_updPeer_iff (f : PeerCredit → PeerCredit)
    (h : Records Q st) :
    Records Q (st.updPeer p f) ↔ Q (f (st.record p)) := by
  constructor
  · intro hall
    apply hall p
    rw [get_updPeer, if_pos rfl]
    rfl
  · intro hnew q c hc
    rw [get_updPeer] at hc
    by_cases hq : q = p
    · rw [if_pos hq] at hc
      cases hc
      exact hnew
    · rw [if_neg hq] at hc
      exact h q c hc

/-- A record after a merge was adopted or was there before. -/
theorem get_reconcile_cases (h : (st.reconcile batch now).peers.get p
    = some c) : Adopts st batch now p c ∨ st.peers.get p = some c := by
  rw [get_reconcile] at h
  cases hours : st.peers.get p with
  | none =>
      rw [hours, none_later] at h
      exact Or.inl ⟨h, fun ours hget => by rw [hours] at hget; cases hget⟩
  | some ours =>
      rw [hours] at h
      cases hnew : newest p now batch with
      | none =>
          rw [hnew, later_none] at h
          exact Or.inr h
      | some remote =>
          rw [hnew] at h
          by_cases hlt : ours.lastInteraction < remote.lastInteraction
          · rw [later_adopts hlt] at h
            cases h
            refine Or.inl ⟨hnew, fun ours' hget => ?_⟩
            rw [hours] at hget
            cases hget
            exact hlt
          · rw [keepsOurs (UInt64.not_lt.1 hlt)] at h
            exact Or.inr h

theorem get_reconcile_adopts (h : Adopts st batch now p c) :
    (st.reconcile batch now).peers.get p = some c := by
  rw [get_reconcile, h.1]
  cases hours : st.peers.get p with
  | none => exact none_later
  | some ours => exact later_adopts (h.2 ours hours)

theorem records_reconcile_iff (h : Records Q st) :
    Records Q (st.reconcile batch now)
      ↔ ∀ p c, Adopts st batch now p c → Q c := by
  constructor
  · exact fun hall p c hc => hall p c (get_reconcile_adopts hc)
  · intro hall p c hc
    exact (get_reconcile_cases hc).elim (hall p c) (h p c)

-- ======= the message

/-- One peer's credit on the wire. -/
structure ReconciliationEntry where
  peerId : NodeId
  bytesServed : UInt64
  bytesReceived : UInt64
  netCredit : Int64
  lastInteraction : UInt64
  prepaidBytes : UInt64
  successfulChallenges : UInt32
  failedChallenges : UInt32
deriving DecidableEq

/-- The conversion `process_reconciliation` makes. -/
def ReconciliationEntry.toIncoming (e : ReconciliationEntry) :
    NodeId × PeerCredit :=
  (e.peerId,
    { bytesServed := e.bytesServed
      bytesReceived := e.bytesReceived
      netCredit := e.netCredit
      lastInteraction := e.lastInteraction
      successfulChallenges := e.successfulChallenges
      failedChallenges := e.failedChallenges
      prepaidBytes := e.prepaidBytes })

structure AccountingReconciliation where
  fromNode : NodeId
  peerCredits : List ReconciliationEntry
  totalBytesServed : UInt64
  totalBytesReceived : UInt64
  timestamp : UInt64
  identityPublicKey : Bytes 32
  signature : List UInt8
deriving DecidableEq

namespace AccountingReconciliation

/-- The bytes covered by the signature; the entries as JSON. -/
def signingBytes (P : Prims) (json : List ReconciliationEntry → List UInt8)
    (recon : AccountingReconciliation) : List UInt8 :=
  recon.fromNode.toList
    ++ (beBytes 8 recon.timestamp.toNat
    ++ (P.blake3 (json recon.peerCredits)).toList)

def sign (P : Prims) (json : List ReconciliationEntry → List UInt8)
    (signingKey : SigningKey) (recon : AccountingReconciliation) :
    AccountingReconciliation :=
  let keyed := { recon with identityPublicKey := P.edPublic signingKey }
  { keyed with
    signature := (P.edSign signingKey (keyed.signingBytes P json)).toList }

def verify (P : Prims) (json : List ReconciliationEntry → List UInt8)
    (recon : AccountingReconciliation) (nowSecs : UInt64) : Bool :=
  if MAX_RECONCILIATION_ENTRIES < recon.peerCredits.length then false
  else if saturatingAdd nowSecs 300 < recon.timestamp then false
  else if recon.peerCredits.any fun e =>
      MAX_ACCOUNTING_BYTES < e.bytesServed
        || MAX_ACCOUNTING_BYTES < e.bytesReceived
        || MAX_ACCOUNTING_BYTES < e.prepaidBytes then false
  else P.edCheck recon.identityPublicKey (recon.signingBytes P json)
    recon.signature

/-- The table pins the sender to another key. -/
def keyMismatch (table : RoutingTable) (recon : AccountingReconciliation) :
    Bool :=
  match table.getNode recon.fromNode with
  | none => false
  | some known =>
      match known.identityPublicKey with
      | none => false
      | some stored => stored ≠ recon.identityPublicKey

end AccountingReconciliation

/-- `process_reconciliation`, with the clock as it verifies and as it
merges. -/
def processReconciliation (P : Prims)
    (json : List ReconciliationEntry → List UInt8) (table : RoutingTable)
    (recon : AccountingReconciliation) (now now' : UInt64)
    (st : AccountingState) : Except String AccountingState :=
  if !recon.verify P json now then
    .error "Invalid reconciliation signature/timestamp"
  else if recon.keyMismatch table then
    .error "Reconciliation identity key mismatch"
  else
    .ok (st.reconcile
      (recon.peerCredits.map ReconciliationEntry.toIncoming) now')

-- ============== runs

/-- One call on the accounting state. -/
inductive CreditCall
  | served (peer : NodeId) (bytes now : UInt64)
  | received (peer : NodeId) (bytes now : UInt64)
  | challengeSuccess (peer : NodeId) (now : UInt64)
  | challengeFailure (peer : NodeId) (now : UInt64)
  | prepayment (peer : NodeId) (bytes : UInt64)
  | reconciliation (table : RoutingTable)
      (recon : AccountingReconciliation) (now now' : UInt64)

namespace CreditCall

def step (P : Prims) (json : List ReconciliationEntry → List UInt8)
    (st : AccountingState) : CreditCall → AccountingState
  | served peer bytes now => st.recordServed peer bytes now
  | received peer bytes now => st.recordReceived peer bytes now
  | challengeSuccess peer now => st.recordChallengeSuccess peer now
  | challengeFailure peer now => st.recordChallengeFailure peer now
  | prepayment peer bytes => st.recordPrepayment peer bytes
  | reconciliation table recon now now' =>
      match processReconciliation P json table recon now now' st with
      | .ok st' => st'
      | .error _ => st

/-- The additions and the subtraction of a local update stay in range. -/
def InRange (st : AccountingState) : CreditCall → Prop
  | served peer bytes _ =>
      (st.record peer).bytesServed.toNat + bytes.toNat < 2 ^ 64
        ∧ bytes.toNat < 2 ^ 63
        ∧ (st.record peer).netCredit.toInt + bytes.toNat < 2 ^ 63
  | received peer bytes _ =>
      (st.record peer).bytesReceived.toNat + bytes.toNat < 2 ^ 64
        ∧ bytes.toNat < 2 ^ 63
        ∧ -2 ^ 63 ≤ (st.record peer).netCredit.toInt - bytes.toNat
  | _ => True

end CreditCall

/-- The balance is the difference of the counters. -/
def PeerCredit.Balanced (c : PeerCredit) : Prop :=
  c.netCredit.toInt = c.bytesServed.toNat - c.bytesReceived.toNat

/-- What a message that is processed has adopted is balanced. -/
def CreditCall.Honest (P : Prims)
    (json : List ReconciliationEntry → List UInt8) (st : AccountingState) :
    CreditCall → Prop
  | reconciliation table recon now now' =>
      recon.verify P json now = true → recon.keyMismatch table = false →
        ∀ p c, Adopts st (recon.peerCredits.map
          ReconciliationEntry.toIncoming) now' p c → c.Balanced
  | _ => True

-- =========== balance

theorem balanced_new : PeerCredit.new.Balanced := rfl

theorem balanced_record (h : Records PeerCredit.Balanced st) (p : NodeId) :
    (st.record p).Balanced := by
  unfold AccountingState.record
  cases hget : st.peers.get p with
  | none => exact balanced_new
  | some c => exact h p c hget

/-- A sum in range. -/
theorem toInt_add_of_range {a b : Int64} (hlow : -2 ^ 63 ≤ a.toInt + b.toInt)
    (hhigh : a.toInt + b.toInt < 2 ^ 63) :
    (a + b).toInt = a.toInt + b.toInt := by
  rw [Int64.toInt_add]
  exact Int.bmod_eq_of_le (by omega) (by omega)

theorem toInt_sub_of_range {a b : Int64} (hlow : -2 ^ 63 ≤ a.toInt - b.toInt)
    (hhigh : a.toInt - b.toInt < 2 ^ 63) :
    (a - b).toInt = a.toInt - b.toInt := by
  rw [Int64.toInt_sub]
  exact Int.bmod_eq_of_le (by omega) (by omega)

theorem PeerCredit.Balanced.served {bytes : UInt64} (h : c.Balanced)
    (hcount : c.bytesServed.toNat + bytes.toNat < 2 ^ 64)
    (hcast : bytes.toNat < 2 ^ 63)
    (hnet : c.netCredit.toInt + bytes.toNat < 2 ^ 63) :
    (c.recordServed bytes now).Balanced := by
  have hbytes := toInt_toInt64_of_lt hcast
  have hlow := c.netCredit.le_toInt
  have hsum : (c.netCredit + bytes.toInt64).toInt
      = c.netCredit.toInt + bytes.toNat := by
    rw [toInt_add_of_range (by omega) (by omega), hbytes]
  have hserved : (c.bytesServed + bytes).toNat
      = c.bytesServed.toNat + bytes.toNat := by
    rw [UInt64.toNat_add, Nat.mod_eq_of_lt hcount]
  unfold PeerCredit.Balanced at h ⊢
  simp only [PeerCredit.recordServed]
  rw [hsum, hserved, h]
  omega

theorem PeerCredit.Balanced.received {bytes : UInt64} (h : c.Balanced)
    (hcount : c.bytesReceived.toNat + bytes.toNat < 2 ^ 64)
    (hcast : bytes.toNat < 2 ^ 63)
    (hnet : -2 ^ 63 ≤ c.netCredit.toInt - bytes.toNat) :
    (c.recordReceived bytes now).Balanced := by
  have hbytes := toInt_toInt64_of_lt hcast
  have hhigh := c.netCredit.toInt_lt
  have hdiff : (c.netCredit - bytes.toInt64).toInt
      = c.netCredit.toInt - bytes.toNat := by
    rw [toInt_sub_of_range (by omega) (by omega), hbytes]
  have hreceived : (c.bytesReceived + bytes).toNat
      = c.bytesReceived.toNat + bytes.toNat := by
    rw [UInt64.toNat_add, Nat.mod_eq_of_lt hcount]
  unfold PeerCredit.Balanced at h ⊢
  simp only [PeerCredit.recordReceived]
  rw [hdiff, hreceived, h]
  omega

/-- What a call that is processed does, and that any other does
nothing. -/
theorem step_reconciliation (P : Prims)
    (json : List ReconciliationEntry → List UInt8) (table : RoutingTable)
    (recon : AccountingReconciliation) (now now' : UInt64) :
    CreditCall.step P json st (.reconciliation table recon now now')
      = if recon.verify P json now = true
          ∧ recon.keyMismatch table = false then
        st.reconcile (recon.peerCredits.map ReconciliationEntry.toIncoming)
          now'
      else st := by
  simp only [CreditCall.step, processReconciliation]
  cases hverify : recon.verify P json now with
  | false => simp
  | true =>
      cases hkey : recon.keyMismatch table with
      | true => simp
      | false => simp

/-- One call keeps the balances exactly when what it adopts is
balanced. -/
theorem balanced_step_iff (P : Prims)
    (json : List ReconciliationEntry → List UInt8) (e : CreditCall)
    (hrange : e.InRange st) (h : Records PeerCredit.Balanced st) :
    Records PeerCredit.Balanced (e.step P json st)
      ↔ e.Honest P json st := by
  have hp := balanced_record h
  cases e with
  | served peer bytes now =>
      obtain ⟨hcount, hcast, hnet⟩ := hrange
      have hnew : ((st.record peer).recordServed bytes now).Balanced :=
        (hp peer).served hcount hcast hnet
      exact ⟨fun _ => trivial, fun _ => (records_updPeer_iff
        (fun c => c.recordServed bytes now) h).2 hnew⟩
  | received peer bytes now =>
      obtain ⟨hcount, hcast, hnet⟩ := hrange
      have hnew : ((st.record peer).recordReceived bytes now).Balanced :=
        (hp peer).received hcount hcast hnet
      exact ⟨fun _ => trivial, fun _ => (records_updPeer_iff
        (fun c => c.recordReceived bytes now) h).2 hnew⟩
  | challengeSuccess peer now =>
      exact ⟨fun _ => trivial, fun _ => (records_updPeer_iff
        (fun c => c.recordChallengeSuccess now) h).2 (hp peer)⟩
  | challengeFailure peer now =>
      exact ⟨fun _ => trivial, fun _ => (records_updPeer_iff
        (fun c => c.recordChallengeFailure now) h).2 (hp peer)⟩
  | prepayment peer bytes =>
      exact ⟨fun _ => trivial, fun _ => (records_updPeer_iff
        (fun c => { c with prepaidBytes := c.prepaidBytes + bytes })
        h).2 (hp peer)⟩
  | reconciliation table recon now now' =>
      rw [step_reconciliation]
      by_cases hgo : recon.verify P json now = true
          ∧ recon.keyMismatch table = false
      · rw [if_pos hgo, records_reconcile_iff h]
        exact ⟨fun hall _ _ => hall, fun hall => hall hgo.1 hgo.2⟩
      · rw [if_neg hgo]
        exact ⟨fun _ hv hk => absurd ⟨hv, hk⟩ hgo, fun _ => h⟩

theorem records_new (Q : PeerCredit → Prop) :
    Records Q AccountingState.new := by
  intro p c hc
  cases hc

/-- The balances of a node that starts empty are the differences of its
counters throughout a run, as long as the local updates stay in range,
exactly when every entry its merges adopt is balanced. -/
theorem balance_kept_iff (P : Prims)
    (json : List ReconciliationEntry → List UInt8) (calls : List CreditCall)
    (hrange : Along (CreditCall.step P json) (fun st e => e.InRange st)
      AccountingState.new calls) :
    Always (CreditCall.step P json) (Records PeerCredit.Balanced)
        AccountingState.new calls
      ↔ Along (CreditCall.step P json) (fun st e => e.Honest P json st)
        AccountingState.new calls :=
  always_iff_along_given (J := fun _ => True) (fun _ _ _ _ _ _ => trivial)
    (fun _ e hW _ hI => balanced_step_iff P json e hW hI) hrange trivial
    (records_new _)

-- ======= one message

/-- An entry that claims a balance over empty counters. -/
def unbackedEntry : ReconciliationEntry where
  peerId := freeloader
  bytesServed := 0
  bytesReceived := 0
  netCredit := 1
  lastInteraction := 0
  prepaidBytes := 0
  successfulChallenges := 0
  failedChallenges := 0

/-- The signed message that carries it. -/
def unbackedMessage : AccountingReconciliation :=
  .sign Prims.plain (fun _ => []) (Bytes.fill 32 2)
    { fromNode := Bytes.zero 16
      peerCredits := [unbackedEntry]
      totalBytesServed := 0
      totalBytesReceived := 0
      timestamp := 0
      identityPublicKey := Bytes.zero 32
      signature := [] }

def unbackedCall : CreditCall :=
  .reconciliation (RoutingTable.new (Bytes.zero 16)) unbackedMessage 0 0

theorem newest_unbacked :
    newest freeloader 0
      (unbackedMessage.peerCredits.map ReconciliationEntry.toIncoming)
      = some unbackedEntry.toIncoming.2 := by
  decide

/-- A verified message sets a balance of one byte over empty counters. -/
theorem balance_not_kept :
    ¬Always (CreditCall.step Prims.plain fun _ => [])
      (Records PeerCredit.Balanced) AccountingState.new [unbackedCall] := by
  rintro ⟨-, h⟩
  have hverify : unbackedMessage.verify Prims.plain (fun _ => []) 0
      = true := by decide
  have hkey : unbackedMessage.keyMismatch
      (RoutingTable.new (Bytes.zero 16)) = false := by decide
  have hstep : CreditCall.step Prims.plain (fun _ => []) AccountingState.new
      unbackedCall
      = AccountingState.new.reconcile
        (unbackedMessage.peerCredits.map ReconciliationEntry.toIncoming)
        0 := by
    rw [unbackedCall, step_reconciliation, if_pos ⟨hverify, hkey⟩]
  have hadopts : Adopts AccountingState.new
      (unbackedMessage.peerCredits.map ReconciliationEntry.toIncoming) 0
      freeloader unbackedEntry.toIncoming.2 :=
    ⟨newest_unbacked, fun ours hours => by cases hours⟩
  have hrecord := get_reconcile_adopts hadopts
  rw [← hstep] at hrecord
  exact absurd (h freeloader _ hrecord) (by
    unfold PeerCredit.Balanced
    decide)

/-- What is adopted was in the batch. -/
theorem mem_of_newest (h : newest p now batch = some c) :
    ∃ entry ∈ batch, entry.2 = c := by
  have hmem := (mem_of_latest h).resolve_right nofun
  obtain ⟨entry, hentry, hsome⟩ := List.mem_filterMap.1 hmem
  split at hsome
  · exact ⟨entry, hentry, Option.some.inj hsome⟩
  · cases hsome

/-- Its neighbour's view of the same peer, balanced and newer. -/
def backedEntry : ReconciliationEntry :=
  { unbackedEntry with
    bytesServed := 9
    bytesReceived := 4
    netCredit := 5
    lastInteraction := 10 }

def backedMessage : AccountingReconciliation :=
  .sign Prims.plain (fun _ => []) (Bytes.fill 32 2)
    { unbackedMessage with peerCredits := [backedEntry] }

/-- A peer is served, a message overwrites its record, and it is received
from. -/
def backedRun : List CreditCall :=
  [.served freeloader 5 0,
    .reconciliation (RoutingTable.new (Bytes.zero 16)) backedMessage 20 20,
    .received freeloader 3 30]

theorem balance_kept_once :
    Always (CreditCall.step Prims.plain fun _ => [])
        (Records PeerCredit.Balanced) AccountingState.new backedRun
      ∧ (backedRun.foldl (CreditCall.step Prims.plain fun _ => [])
          AccountingState.new).peers.get freeloader
        = some { backedEntry.toIncoming.2 with
            bytesReceived := 7
            netCredit := 2
            lastInteraction := 30 } := by
  have hrange : Along (CreditCall.step Prims.plain fun _ => [])
      (fun st e => e.InRange st) AccountingState.new backedRun :=
    ⟨⟨by decide, by decide, by decide⟩, trivial,
      ⟨by decide +kernel, by decide, by decide +kernel⟩, trivial⟩
  refine ⟨(balance_kept_iff Prims.plain (fun _ => []) backedRun hrange).2
    ⟨trivial, fun _ _ p c hadopts => ?_, trivial, trivial⟩,
    by decide +kernel⟩
  obtain ⟨entry, hmem, rfl⟩ := mem_of_newest hadopts.1
  obtain rfl := List.mem_singleton.1 hmem
  show backedEntry.toIncoming.2.Balanced
  unfold PeerCredit.Balanced
  decide

end StaticNet
