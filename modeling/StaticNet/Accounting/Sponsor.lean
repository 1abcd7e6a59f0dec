/-
Sponsoring seed-only nodes: the sponsor's records
(`static-accounting/src/lib.rs`), the signed prepayment
(`static-mesh/src/wire.rs`) and what a sponsor does with one
(`handle_prepayment` in `static-node/src/runner.rs`).

The table of attempts is pruned by age and, at its cap, loses the entry the
hash table yields first; the order it yields them in is a parameter.
-/
import StaticNet.Accounting.Basic
import StaticNet.Node.Basic

namespace StaticNet

/-- Seed-only nodes one sponsor takes. -/
def MAX_SPONSORED_SEEDS : Nat := 5

/-- Time between two prepayments for one content: an hour. -/
def PREPAY_RATE_LIMIT_SECS : Nat := 3600

/-- Entries of the attempts' table. -/
def MAX_PREPAY_ATTEMPTS : Nat := 1024

-- ======= prepayments

structure Prepayment where
  fromNode : NodeId
  bytes : UInt64
  contentId : ContentId
  identityPublicKey : Bytes 32
  signature : List UInt8
deriving DecidableEq

namespace Prepayment

/-- The seed and the content the rate limit is about. -/
def key (p : Prepayment) : NodeId × ContentId := (p.fromNode, p.contentId)

/-- The bytes covered by the signature. -/
def signingBytes (p : Prepayment) : List UInt8 :=
  p.fromNode.toList ++ (beBytes 8 p.bytes.toNat ++ p.contentId.toList)

def sign (P : Prims) (fromNode : NodeId) (bytes : UInt64)
    (contentId : ContentId) (signingKey : SigningKey) : Prepayment :=
  let proto : Prepayment :=
    ⟨fromNode, bytes, contentId, P.edPublic signingKey, []⟩
  { proto with
    signature := (P.edSign signingKey proto.signingBytes).toList }

/-- The message verifies under the key it carries. -/
def validate (P : Prims) (p : Prepayment) : Bool :=
  p.bytes != 0 && P.edCheck p.identityPublicKey p.signingBytes p.signature

end Prepayment

-- =========== records

structure SponsoredSeedInfo where
  nodeId : NodeId
  contentIds : List ContentId
  totalPrepaid : UInt64
  heartbeatsReceived : UInt64
  prepaymentRenewals : UInt32
  rateViolations : UInt32
  lastSeen : Nat
  misbehaving : Bool
deriving DecidableEq

namespace SponsoredSeedInfo

def new (nodeId : NodeId) (contentId : ContentId) (prepaid : UInt64)
    (now : Nat) : SponsoredSeedInfo :=
  ⟨nodeId, [contentId], prepaid, 0, 0, 0, now, false⟩

def renew (info : SponsoredSeedInfo) (contentId : ContentId)
    (prepaidBytes : UInt64) (now : Nat) : SponsoredSeedInfo :=
  { info with
    contentIds :=
      if info.contentIds.contains contentId then info.contentIds
      else info.contentIds ++ [contentId]
    totalPrepaid := info.totalPrepaid + prepaidBytes
    prepaymentRenewals := info.prepaymentRenewals + 1
    lastSeen := now }

/-- Three strikes flag the seed. -/
def violate (info : SponsoredSeedInfo) : SponsoredSeedInfo :=
  let rateViolations := info.rateViolations + 1
  { info with
    rateViolations := rateViolations
    misbehaving := 3 ≤ rateViolations || info.misbehaving }

end SponsoredSeedInfo

/-- The accounting state with the fields a sponsor keeps in it. -/
structure SponsorLedger where
  accounting : AccountingState
  sponsoredSeeds : FMap NodeId SponsoredSeedInfo
  prepaymentAttempts : FMap (NodeId × ContentId) Nat

namespace SponsorLedger

/-- `has_excess_capacity`: the difference is one of `i64`. -/
def hasExcessCapacity (l : SponsorLedger) (threshold : UInt64) : Bool :=
  threshold.toInt64
    < l.accounting.totalBytesServed.toInt64
      - l.accounting.totalBytesReceived.toInt64

def checkPrepayRateLimit (l : SponsorLedger) (seed : NodeId)
    (contentId : ContentId) (now : Nat) : Bool :=
  match l.prepaymentAttempts.get (seed, contentId) with
  | none => true
  | some last => PREPAY_RATE_LIMIT_SECS ≤ now - last

/-- Prune by age, make room at the cap, insert. -/
def recordPrepayAttempt (order : IterOrder (NodeId × ContentId))
    (seed : NodeId) (contentId : ContentId) (now : Nat)
    (l : SponsorLedger) : SponsorLedger :=
  let pruned := l.prepaymentAttempts.retain fun _ ts => now - ts ≤ 86400
  let room :=
    if MAX_PREPAY_ATTEMPTS ≤ pruned.len then
      match (order.iter pruned.keys).head? with
      | some k => pruned.erase k
      | none => pruned
    else pruned
  { l with prepaymentAttempts := room.insert (seed, contentId) now }

def sponsorSeedCount (l : SponsorLedger) : Nat :=
  (l.sponsoredSeeds.retain fun _ s => !s.misbehaving).len

def canSponsor (l : SponsorLedger) : Bool :=
  l.sponsorSeedCount < MAX_SPONSORED_SEEDS

def isSponsored (l : SponsorLedger) (seed : NodeId) : Bool :=
  l.sponsoredSeeds.contains seed

/-- `register_sponsored_seed`; nothing when the sponsor is at capacity. -/
def registerSponsoredSeed (seed : NodeId) (contentId : ContentId)
    (prepaidBytes : UInt64) (now : Nat) (l : SponsorLedger) :
    Option SponsorLedger :=
  match l.sponsoredSeeds.get seed with
  | some info =>
      some { l with
        sponsoredSeeds := l.sponsoredSeeds.insert seed
          (info.renew contentId prepaidBytes now) }
  | none =>
      if l.canSponsor then
        some { l with
          sponsoredSeeds := l.sponsoredSeeds.insert seed
            (SponsoredSeedInfo.new seed contentId prepaidBytes now) }
      else none

def recordSeedViolation (seed : NodeId) (l : SponsorLedger) :
    SponsorLedger :=
  { l with
    sponsoredSeeds :=
      l.sponsoredSeeds.modify seed SponsoredSeedInfo.violate }

def isSeedMisbehaving (l : SponsorLedger) (seed : NodeId) : Bool :=
  ((l.sponsoredSeeds.get seed).map SponsoredSeedInfo.misbehaving).getD false

def recordPrepayment (seed : NodeId) (bytes : UInt64) (l : SponsorLedger) :
    SponsorLedger :=
  { l with accounting := l.accounting.recordPrepayment seed bytes }

/-- Surplus, or the very first sponsorship of a fresh node. -/
def mayTakeOn (l : SponsorLedger) : Bool :=
  l.hasExcessCapacity 0
    || (l.accounting.totalBytesServed == 0
      && l.accounting.totalBytesReceived == 0 && l.sponsorSeedCount == 0)

end SponsorLedger

open SponsorLedger

-- ======= the handler

/-- `handle_prepayment`, with its answer. -/
def handlePrepayment (P : Prims) (mode : NodeMode)
    (order : IterOrder (NodeId × ContentId)) (seed : NodeId)
    (p : Prepayment) (now : Nat) (l : SponsorLedger) :
    Bool × SponsorLedger :=
  if mode = .backupOnly then (false, l)
  else if !p.validate P then (false, l)
  else if l.isSeedMisbehaving seed then (false, l)
  else if !l.checkPrepayRateLimit seed p.contentId now then
    (false, l.recordSeedViolation seed)
  else
    let l := l.recordPrepayAttempt order seed p.contentId now
    if !l.mayTakeOn then (false, l)
    else if !l.isSponsored seed && !l.canSponsor then (false, l)
    else
      let l := l.recordPrepayment seed p.bytes
      match l.registerSponsoredSeed seed p.contentId p.bytes now with
      | some l' => (true, l')
      | none => (false, l)

end StaticNet
