/-
Local accounting (`static-accounting/src/lib.rs`): what a node has
served to and received from each peer, and the decision whether to serve
a peer once more.

The counters are the source's machine integers, with their wrap-around.
Ratios are exact: a quotient of two counters is a rational number, and
the ratio of a peer nothing was received from is infinite. Every
operation that reads the clock takes the time as an argument.
-/
import Mathlib.Algebra.Order.Field.Rat
import Mathlib.Order.WithBot
import StaticNet.Crypto
import StaticNet.Lib.FMap

namespace StaticNet

/-- Clock skew tolerated in reconciled time stamps: 5 minutes. -/
def RECONCILE_FUTURE_SKEW_SECS : UInt64 := 300

/-- Bound on reconciled byte counters: 2^60. -/
def MAX_ACCOUNTING_BYTES : UInt64 := 1152921504606846976

/-- `saturating_add` on `u64`. -/
def saturatingAdd (a b : UInt64) : UInt64 :=
  if a.toNat + b.toNat < UInt64.size then a + b
  else UInt64.ofNat (UInt64.size - 1)

/-- `saturating_sub` on `u64`. -/
def saturatingSub (a b : UInt64) : UInt64 := if b ≤ a then a - b else 0

-- ========== one peer

structure PeerCredit where
  bytesServed : UInt64
  bytesReceived : UInt64
  netCredit : Int64
  lastInteraction : UInt64
  successfulChallenges : UInt32
  failedChallenges : UInt32
  prepaidBytes : UInt64
deriving DecidableEq

namespace PeerCredit

def new : PeerCredit := ⟨0, 0, 0, 0, 0, 0, 0⟩

/-- The contribution ratio, served over received. -/
def ratio (c : PeerCredit) : WithTop ℚ :=
  if c.bytesReceived = 0 then ⊤
  else ((c.bytesServed.toNat / c.bytesReceived.toNat : ℚ) : WithTop ℚ)

def hasCredit (c : PeerCredit) (needed : UInt64) : Bool :=
  needed.toInt64 ≤ c.netCredit

def recordServed (c : PeerCredit) (bytes timestamp : UInt64) :
    PeerCredit :=
  { c with
    bytesServed := c.bytesServed + bytes
    netCredit := c.netCredit + bytes.toInt64
    lastInteraction := timestamp }

def recordReceived (c : PeerCredit) (bytes timestamp : UInt64) :
    PeerCredit :=
  { c with
    bytesReceived := c.bytesReceived + bytes
    netCredit := c.netCredit - bytes.toInt64
    lastInteraction := timestamp }

def recordChallengeSuccess (c : PeerCredit) (timestamp : UInt64) :
    PeerCredit :=
  { c with
    successfulChallenges := c.successfulChallenges + 1
    lastInteraction := timestamp }

def recordChallengeFailure (c : PeerCredit) (timestamp : UInt64) :
    PeerCredit :=
  { c with
    failedChallenges := c.failedChallenges + 1
    lastInteraction := timestamp }

def totalChallenges (c : PeerCredit) : UInt32 :=
  c.successfulChallenges + c.failedChallenges

def challengeSuccessRate (c : PeerCredit) : ℚ :=
  if c.totalChallenges = 0 then 1
  else c.successfulChallenges.toNat / c.totalChallenges.toNat

def hasPrepaid (c : PeerCredit) (needed : UInt64) : Bool :=
  needed ≤ c.prepaidBytes

def effectiveCredit (c : PeerCredit) : Int64 :=
  c.netCredit + c.prepaidBytes.toInt64

/-- The challenge gate: a meaningful history of failures. -/
def denied (c : PeerCredit) : Bool :=
  10 < c.totalChallenges && c.challengeSuccessRate < 1 / 2

/-- Never served, and within the base credit plus what was prepaid. -/
def goodwill (c : PeerCredit) (initialCredit requested : UInt64) : Bool :=
  c.bytesServed == 0
    && saturatingAdd c.bytesReceived requested
      ≤ saturatingAdd initialCredit c.prepaidBytes

/-- The credit gate's three tests apart from goodwill. -/
def creditTest (c : PeerCredit) (requested : UInt64) : Bool :=
  c.hasCredit requested || c.hasPrepaid requested
    || 0 < c.effectiveCredit

/-- The ratio gate's test apart from goodwill. -/
def ratioTest (c : PeerCredit) (minRatio : ℚ) : Bool :=
  (minRatio : WithTop ℚ) ≤ c.ratio

end PeerCredit

-- ========= all peers

/-- The part of `AccountingState` that the peer records live in. -/
structure AccountingState where
  totalBytesServed : UInt64
  totalBytesReceived : UInt64
  peers : FMap NodeId PeerCredit
  minRatio : ℚ
  initialCredit : UInt64
  peerSyncTimes : FMap NodeId UInt64

namespace AccountingState

/-- The default settings: half, and 1 MiB of goodwill. -/
def new : AccountingState where
  totalBytesServed := 0
  totalBytesReceived := 0
  peers := ∅
  minRatio := 1 / 2
  initialCredit := 1048576
  peerSyncTimes := ∅

/-- `get_or_create_peer`, with the update its callers make. -/
def updPeer (st : AccountingState) (peer : NodeId)
    (f : PeerCredit → PeerCredit) : AccountingState :=
  { st with
    peers := st.peers.insert peer
      (f ((st.peers.get peer).getD PeerCredit.new)) }

theorem get_updPeer {st : AccountingState} {p q : NodeId}
    (f : PeerCredit → PeerCredit) :
    (st.updPeer q f).peers.get p
      = if p = q then some (f ((st.peers.get q).getD PeerCredit.new))
        else st.peers.get p := FMap.get_insert _ _ _ _

def recordServed (st : AccountingState) (peer : NodeId)
    (bytes now : UInt64) : AccountingState :=
  { st.updPeer peer (·.recordServed bytes now) with
    totalBytesServed := st.totalBytesServed + bytes }

def recordReceived (st : AccountingState) (peer : NodeId)
    (bytes now : UInt64) : AccountingState :=
  { st.updPeer peer (·.recordReceived bytes now) with
    totalBytesReceived := st.totalBytesReceived + bytes }

def recordChallengeSuccess (st : AccountingState) (peer : NodeId)
    (now : UInt64) : AccountingState :=
  st.updPeer peer (·.recordChallengeSuccess now)

def recordChallengeFailure (st : AccountingState) (peer : NodeId)
    (now : UInt64) : AccountingState :=
  st.updPeer peer (·.recordChallengeFailure now)

def recordPrepayment (st : AccountingState) (peer : NodeId)
    (bytes : UInt64) : AccountingState :=
  st.updPeer peer fun c => { c with prepaidBytes := c.prepaidBytes + bytes }

/-- `should_serve`: the challenge gate, then credit and ratio, where
goodwill satisfies both. -/
def shouldServe (st : AccountingState) (peer : NodeId)
    (requested : UInt64) : Bool :=
  match st.peers.get peer with
  | none => requested ≤ st.initialCredit
  | some c =>
      if c.denied then false
      else
        let goodwill := c.goodwill st.initialCredit requested
        (c.creditTest requested || goodwill)
          && (c.ratioTest st.minRatio || goodwill)

/-- `prune_inactive_peers`: the age is a plain subtraction. -/
def pruneInactivePeers (st : AccountingState) (maxAge now : UInt64) :
    AccountingState :=
  { st with
    peers := st.peers.retain fun _ c => now - c.lastInteraction < maxAge }

def pruneInactivePeersWithGrace (st : AccountingState)
    (maxAge partitionThreshold grace now : UInt64) : AccountingState :=
  { st with
    peers := st.peers.retain fun _ c =>
      let age := saturatingSub now c.lastInteraction
      if partitionThreshold < age then age < saturatingAdd maxAge grace
      else age < maxAge }

/-- One entry of `reconcile`: bounds, then last write wins. -/
def reconcileEntry (now : UInt64) (st : AccountingState)
    (entry : NodeId × PeerCredit) : AccountingState :=
  let remote := entry.2
  if saturatingAdd now RECONCILE_FUTURE_SKEW_SECS
      < remote.lastInteraction then st
  else if MAX_ACCOUNTING_BYTES < remote.bytesServed
      || MAX_ACCOUNTING_BYTES < remote.bytesReceived
      || MAX_ACCOUNTING_BYTES < remote.prepaidBytes then st
  else
    match st.peers.get entry.1 with
    | some ours =>
        if ours.lastInteraction < remote.lastInteraction then
          { st with peers := st.peers.insert entry.1 remote }
        else st
    | none => { st with peers := st.peers.insert entry.1 remote }

def reconcile (st : AccountingState)
    (incoming : List (NodeId × PeerCredit)) (now : UInt64) :
    AccountingState := incoming.foldl (reconcileEntry now) st

/-- The entries of a table, as iteration yields them. -/
def entriesOf (order : IterOrder NodeId)
    (peers : FMap NodeId PeerCredit) : List (NodeId × PeerCredit) :=
  (order.iter peers.keys).filterMap fun p =>
    (peers.get p).map fun c => (p, c)

def exportForReconciliation (order : IterOrder NodeId)
    (st : AccountingState) : List (NodeId × PeerCredit) :=
  entriesOf order st.peers

/-- The entries whose last interaction is not before the last sync. -/
def exportReconciliationDelta (order : IterOrder NodeId)
    (st : AccountingState) (lastSyncTime : UInt64) :
    List (NodeId × PeerCredit) :=
  (entriesOf order st.peers).filter fun e =>
    lastSyncTime ≤ e.2.lastInteraction

def markReconciled (st : AccountingState) (peer : NodeId)
    (nowSecs : UInt64) : AccountingState :=
  { st with peerSyncTimes := st.peerSyncTimes.insert peer nowSecs }

def lastSyncTime (st : AccountingState) (peer : NodeId) : UInt64 :=
  (st.peerSyncTimes.get peer).getD 0

end AccountingState

end StaticNet
