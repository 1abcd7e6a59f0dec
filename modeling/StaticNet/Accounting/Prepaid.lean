/-
What a sponsor credits, and for whom.

# Once

A prepayment carries nothing that makes it new: what stands between a
captured message and a second credit is the hourly limit on its seed and
content. The limit ends after an hour, and its entry can be the one that
makes room at the cap. `credited_once_iff` says that these are the ways to
credit a message again or to accept two within an hour.

# By whom

`validate` checks a signature under the key the message itself carries, and
nothing compares that key with what is known of the claimed sender
(`seed_untouched_iff`).
-/
import Mathlib.Data.List.Dedup
import StaticNet.Accounting.Sponsor
import StaticNet.Lib.Exact
import StaticNet.Routing.Basic

namespace StaticNet

open Exact SponsorLedger

variable {P : Prims} {mode : NodeMode}
  {order : IterOrder (NodeId × ContentId)} {seed n : NodeId}
  {p : Prepayment} {now : Nat} {l : SponsorLedger}

-- =========== records

/-- The record of an attempt takes no room. -/
theorem mayTakeOn_recordPrepayAttempt {contentId : ContentId} :
    (l.recordPrepayAttempt order seed contentId now).mayTakeOn
      = l.mayTakeOn := rfl

theorem isSponsored_recordPrepayAttempt {contentId : ContentId} :
    (l.recordPrepayAttempt order seed contentId now).isSponsored n
      = l.isSponsored n := rfl

theorem canSponsor_recordPrepayAttempt {contentId : ContentId} :
    (l.recordPrepayAttempt order seed contentId now).canSponsor
      = l.canSponsor := rfl

/-- An entry of the attempts is a new one or was there before. -/
theorem get_recordPrepayAttempt {contentId : ContentId}
    {k : NodeId × ContentId} {t : Nat}
    (h : (l.recordPrepayAttempt order seed contentId
      now).prepaymentAttempts.get k = some t) :
    k = (seed, contentId) ∧ t = now
      ∨ l.prepaymentAttempts.get k = some t := by
  unfold recordPrepayAttempt at h
  dsimp only at h
  by_cases hk : k = (seed, contentId)
  · rw [hk, FMap.get_insert_self] at h
    exact .inl ⟨hk, (Option.some.inj h).symm⟩
  · rw [FMap.get_insert_ne _ _ hk] at h
    have hpruned : ∀ {t' : Nat}, (l.prepaymentAttempts.retain
        fun _ ts => decide (now - ts ≤ 86400)).get k = some t' →
          l.prepaymentAttempts.get k = some t' := by
      intro t' ht'
      rw [FMap.get_retain] at ht'
      exact (Option.filter_eq_some_iff.1 ht').1
    right
    split at h
    · split at h
      next k' _ =>
        by_cases hk' : k = k'
        · rw [hk', FMap.get_erase_self] at h
          cases h
        · rw [FMap.get_erase_ne _ hk'] at h
          exact hpruned h
      next => exact hpruned h
    · exact hpruned h

theorem get_recordPrepayAttempt_self (order : IterOrder (NodeId × ContentId))
    (seed : NodeId) (contentId : ContentId) (now : Nat) (l : SponsorLedger) :
    (l.recordPrepayAttempt order seed contentId
      now).prepaymentAttempts.get (seed, contentId) = some now :=
  FMap.get_insert_self _ _ _

/-- A seed that is sponsored or can be is registered. -/
theorem registerSponsoredSeed_some (contentId : ContentId) (bytes : UInt64)
    (now : Nat) (h : l.isSponsored seed = true ∨ l.canSponsor = true) :
    ∃ info, l.registerSponsoredSeed seed contentId bytes now
      = some { l with
          sponsoredSeeds := l.sponsoredSeeds.insert seed info } := by
  unfold registerSponsoredSeed
  cases hget : l.sponsoredSeeds.get seed with
  | some info => exact ⟨_, rfl⟩
  | none =>
      have hcan : l.canSponsor = true := by
        refine h.resolve_left fun hs => ?_
        simp [isSponsored, FMap.contains, hget] at hs
      simp only [hcan, if_true]
      exact ⟨_, rfl⟩

-- ====== the outcomes

/-- The checks before the limit pass. -/
def Heard (P : Prims) (mode : NodeMode) (l : SponsorLedger) (seed : NodeId)
    (p : Prepayment) : Prop :=
  mode ≠ .backupOnly ∧ p.validate P = true
    ∧ l.isSeedMisbehaving seed = false

/-- No surplus, or no room for another seed. -/
def Unable (l : SponsorLedger) (seed : NodeId) : Prop :=
  l.mayTakeOn = false
    ∨ l.isSponsored seed = false ∧ l.canSponsor = false

theorem able_iff : ¬Unable l seed
    ↔ l.mayTakeOn = true ∧ (l.isSponsored seed = true
      ∨ l.canSponsor = true) := by
  unfold Unable
  rw [not_or, Bool.not_eq_false, not_and_or, Bool.not_eq_false,
    Bool.not_eq_false]

theorem handlePrepayment_unheard (h : ¬Heard P mode l seed p) :
    handlePrepayment P mode order seed p now l = (false, l) := by
  unfold handlePrepayment
  by_cases hmode : mode = .backupOnly
  · rw [if_pos hmode]
  cases hvalid : p.validate P with
  | false => rw [if_neg hmode, if_pos (by simp)]
  | true =>
      cases hmis : l.isSeedMisbehaving seed with
      | true => rw [if_neg hmode, if_neg (by simp), if_pos rfl]
      | false => exact absurd ⟨hmode, hvalid, hmis⟩ h

theorem handlePrepayment_limited (h : Heard P mode l seed p)
    (hlimit : l.checkPrepayRateLimit seed p.contentId now = false) :
    handlePrepayment P mode order seed p now l
      = (false, l.recordSeedViolation seed) := by
  obtain ⟨hmode, hvalid, hmis⟩ := h
  unfold handlePrepayment
  rw [if_neg hmode, if_neg (by simp [hvalid]), if_neg (by simp [hmis]),
    if_pos (by simp [hlimit])]

theorem handlePrepayment_unable (order : IterOrder (NodeId × ContentId))
    (h : Heard P mode l seed p)
    (hlimit : l.checkPrepayRateLimit seed p.contentId now = true)
    (hunable : Unable l seed) :
    handlePrepayment P mode order seed p now l
      = (false, l.recordPrepayAttempt order seed p.contentId now) := by
  obtain ⟨hmode, hvalid, hmis⟩ := h
  unfold handlePrepayment
  rw [if_neg hmode, if_neg (by simp [hvalid]), if_neg (by simp [hmis]),
    if_neg (by simp [hlimit])]
  dsimp only
  cases htake : l.mayTakeOn with
  | false => rw [if_pos (by simp [mayTakeOn_recordPrepayAttempt, htake])]
  | true =>
      obtain ⟨hnew, hfull⟩ := hunable.resolve_left (by simp [htake])
      rw [if_neg (by simp [mayTakeOn_recordPrepayAttempt, htake]),
        if_pos (by simp [isSponsored_recordPrepayAttempt,
          canSponsor_recordPrepayAttempt, hnew, hfull])]

theorem handlePrepayment_able (order : IterOrder (NodeId × ContentId))
    (h : Heard P mode l seed p)
    (hlimit : l.checkPrepayRateLimit seed p.contentId now = true)
    (hable : ¬Unable l seed) :
    ∃ l', (((l.recordPrepayAttempt order seed p.contentId
          now).recordPrepayment seed p.bytes).registerSponsoredSeed seed
          p.contentId p.bytes now) = some l'
      ∧ handlePrepayment P mode order seed p now l = (true, l') := by
  obtain ⟨hmode, hvalid, hmis⟩ := h
  obtain ⟨htake, hroom⟩ := able_iff.1 hable
  have hpass : ¬(!l.isSponsored seed && !l.canSponsor) = true := by
    rcases hroom with h | h <;> simp [h]
  obtain ⟨info, hreg⟩ := registerSponsoredSeed_some
    (l := (l.recordPrepayAttempt order seed p.contentId
      now).recordPrepayment seed p.bytes) p.contentId p.bytes now hroom
  refine ⟨_, hreg, ?_⟩
  unfold handlePrepayment
  rw [if_neg hmode, if_neg (by simp [hvalid]), if_neg (by simp [hmis]),
    if_neg (by simp [hlimit])]
  dsimp only
  rw [if_neg (by simp [mayTakeOn_recordPrepayAttempt, htake]),
    if_neg (by simpa [isSponsored_recordPrepayAttempt,
      canSponsor_recordPrepayAttempt] using hpass), hreg]

-- ======= the handler

/-- What is asked of a prepayment apart from the rate limit. -/
def Eligible (P : Prims) (mode : NodeMode) (l : SponsorLedger)
    (p : Prepayment) : Prop :=
  mode ≠ .backupOnly ∧ p.validate P = true
    ∧ l.isSeedMisbehaving p.fromNode = false ∧ l.mayTakeOn = true
    ∧ (l.isSponsored p.fromNode = true ∨ l.canSponsor = true)

theorem Eligible.heard (h : Eligible P mode l p) :
    Heard P mode l p.fromNode p :=
  ⟨h.1, h.2.1, h.2.2.1⟩

theorem Eligible.able (h : Eligible P mode l p) :
    ¬Unable l p.fromNode :=
  able_iff.2 ⟨h.2.2.2.1, h.2.2.2.2⟩

theorem eligible_of_able (hheard : Heard P mode l p.fromNode p)
    (hable : ¬Unable l p.fromNode) : Eligible P mode l p := by
  obtain ⟨htake, hroom⟩ := able_iff.1 hable
  exact ⟨hheard.1, hheard.2.1, hheard.2.2, htake, hroom⟩

/-- An accepted prepayment is credited, and its attempt is the newest. -/
theorem handlePrepayment_accepts
    (order : IterOrder (NodeId × ContentId)) (he : Eligible P mode l p)
    (hlimit : l.checkPrepayRateLimit p.fromNode p.contentId now = true) :
    (handlePrepayment P mode order p.fromNode p now l).1 = true
      ∧ (handlePrepayment P mode order p.fromNode p now l).2.accounting
        = l.accounting.recordPrepayment p.fromNode p.bytes
      ∧ (handlePrepayment P mode order p.fromNode p now
          l).2.prepaymentAttempts
        = (l.recordPrepayAttempt order p.fromNode p.contentId
            now).prepaymentAttempts := by
  obtain ⟨l', hreg, hok⟩ :=
    handlePrepayment_able order he.heard hlimit he.able
  obtain ⟨info, hsome⟩ := registerSponsoredSeed_some
    (l := (l.recordPrepayAttempt order p.fromNode p.contentId
      now).recordPrepayment p.fromNode p.bytes) p.contentId p.bytes now
    he.2.2.2.2
  rw [hsome] at hreg
  obtain rfl := Option.some.inj hreg
  rw [hok]
  exact ⟨rfl, rfl, rfl⟩

/-- A prepayment that is not accepted is not credited, and the attempts are
as they were or have this one. -/
theorem handlePrepayment_refuses
    (order : IterOrder (NodeId × ContentId)) (h : ¬ (Eligible P mode l p
      ∧ l.checkPrepayRateLimit p.fromNode p.contentId now = true)) :
    (handlePrepayment P mode order p.fromNode p now l).1 = false
      ∧ (handlePrepayment P mode order p.fromNode p now l).2.accounting
        = l.accounting
      ∧ ((handlePrepayment P mode order p.fromNode p now
            l).2.prepaymentAttempts = l.prepaymentAttempts
        ∨ (handlePrepayment P mode order p.fromNode p now
            l).2.prepaymentAttempts
          = (l.recordPrepayAttempt order p.fromNode p.contentId
              now).prepaymentAttempts) := by
  by_cases hheard : Heard P mode l p.fromNode p
  swap
  · rw [handlePrepayment_unheard hheard]
    exact ⟨rfl, rfl, .inl rfl⟩
  cases hlimit : l.checkPrepayRateLimit p.fromNode p.contentId now with
  | false =>
      rw [handlePrepayment_limited hheard hlimit]
      exact ⟨rfl, rfl, .inl rfl⟩
  | true =>
      have hunable : Unable l p.fromNode := by
        by_contra hable
        exact h ⟨eligible_of_able hheard hable, hlimit⟩
      rw [handlePrepayment_unable order hheard hlimit hunable]
      exact ⟨rfl, rfl, .inr rfl⟩

-- ============== runs

/-- A sponsor with its clock and a record of what it accepted, and when. -/
structure CreditRun where
  ledger : SponsorLedger
  now : Nat
  accepted : List (Prepayment × Nat)

/-- A prepayment arrives some time after the one before. -/
structure PrepayEvent where
  elapsed : Nat
  message : Prepayment
  order : IterOrder (NodeId × ContentId)

namespace CreditRun

def start (l : SponsorLedger) (now : Nat) : CreditRun := ⟨l, now, []⟩

def step (P : Prims) (mode : NodeMode) (s : CreditRun) (e : PrepayEvent) :
    CreditRun :=
  let now := s.now + e.elapsed
  let r := handlePrepayment P mode e.order e.message.fromNode e.message now
    s.ledger
  { ledger := r.2
    now := now
    accepted := s.accepted ++ (if r.1 then [(e.message, now)] else []) }

/-- The distinct messages accepted. -/
def distinct (s : CreditRun) : Finset Prepayment :=
  (s.accepted.map Prod.fst).toFinset

end CreditRun

open CreditRun

/-- What a seed has in prepaid bytes. -/
def prepaidOf (acc : AccountingState) (seed : NodeId) : UInt64 :=
  ((acc.peers.get seed).map PeerCredit.prepaidBytes).getD 0

/-- The bytes of the distinct messages accepted from a seed. -/
def creditOf (s : CreditRun) (seed : NodeId) : Nat :=
  (s.distinct.filter fun p => p.fromNode = seed).sum fun p => p.bytes.toNat

/-- Every seed is credited its distinct messages once, beyond what it had,
and two acceptances for one seed and content are an hour apart. -/
structure CreditedOnce (base : AccountingState) (s : CreditRun) : Prop where
  credit : ∀ seed, (prepaidOf s.ledger.accounting seed).toNat
    = ((prepaidOf base seed).toNat + creditOf s seed) % 2 ^ 64
  spaced : s.accepted.Pairwise fun a b =>
    a.1.key = b.1.key → PREPAY_RATE_LIMIT_SECS ≤ b.2 - a.2

/-- A message that the other checks let through, and that was accepted
before, finds its limit running; one whose seed and content were accepted
within the hour finds an entry for them. -/
def OnceOnly (P : Prims) (mode : NodeMode) (s : CreditRun)
    (e : PrepayEvent) : Prop :=
  Eligible P mode s.ledger e.message →
    (e.message ∈ s.distinct →
      ∃ last, s.ledger.prepaymentAttempts.get e.message.key = some last
        ∧ s.now + e.elapsed - last < PREPAY_RATE_LIMIT_SECS)
    ∧ ((∃ a ∈ s.accepted, a.1.key = e.message.key
          ∧ s.now + e.elapsed - a.2 < PREPAY_RATE_LIMIT_SECS) →
        ∃ last, s.ledger.prepaymentAttempts.get e.message.key = some last)

/-- An attempt is no older than an acceptance it stands for. -/
structure RecentInv (s : CreditRun) : Prop where
  past : ∀ a ∈ s.accepted, a.2 ≤ s.now
  recorded : ∀ a ∈ s.accepted, ∀ last,
    s.ledger.prepaymentAttempts.get a.1.key = some last → a.2 ≤ last

-- ========== one step

variable {s : CreditRun} {e : PrepayEvent} {base : AccountingState}

/-- The message is accepted. -/
def Accepts (P : Prims) (mode : NodeMode) (s : CreditRun)
    (e : PrepayEvent) : Prop :=
  Eligible P mode s.ledger e.message
    ∧ s.ledger.checkPrepayRateLimit e.message.fromNode e.message.contentId
        (s.now + e.elapsed) = true

theorem step_accepts (h : Accepts P mode s e) :
    (step P mode s e).accepted
        = s.accepted ++ [(e.message, s.now + e.elapsed)]
      ∧ (step P mode s e).ledger.accounting
        = s.ledger.accounting.recordPrepayment e.message.fromNode
            e.message.bytes := by
  obtain ⟨hok, hacc, -⟩ := handlePrepayment_accepts e.order h.1 h.2
  unfold CreditRun.step
  dsimp only
  rw [if_pos hok]
  exact ⟨rfl, hacc⟩

theorem step_refuses (h : ¬ Accepts P mode s e) :
    (step P mode s e).accepted = s.accepted
      ∧ (step P mode s e).ledger.accounting = s.ledger.accounting := by
  obtain ⟨hno, hacc, -⟩ := handlePrepayment_refuses e.order h
  unfold CreditRun.step
  dsimp only
  rw [if_neg (by simp [hno]), List.append_nil]
  exact ⟨rfl, hacc⟩

/-- Whatever the answer, an attempt afterwards is new or was there. -/
theorem attempts_step {k : NodeId × ContentId} {t : Nat}
    (h : (step P mode s e).ledger.prepaymentAttempts.get k = some t) :
    t = s.now + e.elapsed ∨ s.ledger.prepaymentAttempts.get k = some t := by
  have hnew : (s.ledger.recordPrepayAttempt e.order e.message.fromNode
        e.message.contentId (s.now + e.elapsed)).prepaymentAttempts.get k
          = some t →
      t = s.now + e.elapsed
        ∨ s.ledger.prepaymentAttempts.get k = some t :=
    fun h => (get_recordPrepayAttempt h).imp And.right id
  unfold CreditRun.step at h
  dsimp only at h
  by_cases ha : Accepts P mode s e
  · rw [(handlePrepayment_accepts _ ha.1 ha.2).2.2] at h
    exact hnew h
  · rcases (handlePrepayment_refuses e.order ha).2.2 with heq | heq
    · rw [heq] at h
      exact .inr h
    · rw [heq] at h
      exact hnew h

/-- After an acceptance the attempt of its seed and content is now. -/
theorem attempts_accepts (h : Accepts P mode s e) :
    (step P mode s e).ledger.prepaymentAttempts.get e.message.key
      = some (s.now + e.elapsed) := by
  unfold CreditRun.step
  dsimp only
  rw [(handlePrepayment_accepts _ h.1 h.2).2.2]
  exact get_recordPrepayAttempt_self _ _ _ _ _

theorem recentInv_step (h : RecentInv s) :
    RecentInv (step P mode s e) := by
  have hmem : ∀ a ∈ (step P mode s e).accepted,
      a ∈ s.accepted
        ∨ Accepts P mode s e ∧ a = (e.message, s.now + e.elapsed) := by
    intro a ha
    by_cases hacc : Accepts P mode s e
    · rw [(step_accepts hacc).1, List.mem_append, List.mem_singleton] at ha
      exact ha.imp id fun heq => ⟨hacc, heq⟩
    · rw [(step_refuses hacc).1] at ha
      exact .inl ha
  have hpast : ∀ a ∈ s.accepted, a.2 ≤ s.now + e.elapsed :=
    fun a ha => (h.past a ha).trans (Nat.le_add_right _ _)
  constructor
  · intro a ha
    rcases hmem a ha with hold | ⟨-, heq⟩
    · exact hpast a hold
    · rw [heq]
      exact le_rfl
  · intro a ha last hlast
    rcases hmem a ha with hold | ⟨hacc, heq⟩
    · rcases attempts_step hlast with hnew | hwas
      · rw [hnew]
        exact hpast a hold
      · exact h.recorded a hold last hwas
    · rw [heq, attempts_accepts hacc] at hlast
      rw [heq, ← Option.some.inj hlast]

-- ======== the credit

theorem prepaidOf_recordPrepayment {acc : AccountingState} {bytes : UInt64} :
    prepaidOf (acc.recordPrepayment seed bytes) n
      = if n = seed then prepaidOf acc seed + bytes else prepaidOf acc n := by
  unfold prepaidOf AccountingState.recordPrepayment
  rw [AccountingState.get_updPeer]
  by_cases hn : n = seed
  · rw [if_pos hn, if_pos hn]
    cases acc.peers.get seed with
    | none => simp [PeerCredit.new]
    | some c => rfl
  · rw [if_neg hn, if_neg hn]

theorem distinct_accepts (h : Accepts P mode s e) :
    (step P mode s e).distinct = insert e.message s.distinct := by
  unfold distinct
  rw [(step_accepts h).1]
  ext x
  simp

/-- A message that is new adds its bytes to its seed's, one that is not adds
nothing. -/
theorem creditOf_accepts (h : Accepts P mode s e) :
    creditOf (step P mode s e) n
      = if e.message ∉ s.distinct ∧ e.message.fromNode = n
        then creditOf s n + e.message.bytes.toNat else creditOf s n := by
  unfold creditOf
  rw [distinct_accepts h, Finset.filter_insert]
  by_cases hn : e.message.fromNode = n
  · rw [if_pos hn]
    by_cases hmem : e.message ∈ s.distinct
    · have hin : e.message ∈ s.distinct.filter fun p => p.fromNode = n :=
        Finset.mem_filter.2 ⟨hmem, hn⟩
      rw [if_neg fun hand => hand.1 hmem, Finset.insert_eq_of_mem hin]
    · have hout : e.message ∉ s.distinct.filter fun p => p.fromNode = n :=
        fun hin => hmem (Finset.mem_filter.1 hin).1
      rw [if_pos ⟨hmem, hn⟩, Finset.sum_insert hout, Nat.add_comm]
  · rw [if_neg hn, if_neg fun hand => hn hand.2]

/-- An acceptance credits right exactly when the message is new. -/
theorem credit_accepts_iff (ha : Accepts P mode s e)
    (h : ∀ seed, (prepaidOf s.ledger.accounting seed).toNat
      = ((prepaidOf base seed).toNat + creditOf s seed) % 2 ^ 64) :
    (∀ seed, (prepaidOf (step P mode s e).ledger.accounting seed).toNat
        = ((prepaidOf base seed).toNat + creditOf (step P mode s e) seed)
          % 2 ^ 64)
      ↔ e.message ∉ s.distinct := by
  have hbytes : e.message.bytes.toNat ≠ 0 := by
    have hvalid := ha.1.2.1
    unfold Prepayment.validate at hvalid
    intro hzero
    have heq : e.message.bytes = 0 := UInt64.toNat_inj.1 hzero
    simp [heq] at hvalid
  have hlt := e.message.bytes.toNat_lt
  simp only [(step_accepts ha).2, prepaidOf_recordPrepayment,
    creditOf_accepts ha]
  constructor
  · intro hall hmem
    have hseed := hall e.message.fromNode
    have hwas := h e.message.fromNode
    rw [if_pos rfl, if_neg fun hand => hand.1 hmem, UInt64.toNat_add] at hseed
    omega
  · intro hmem seed
    have hwas := h seed
    by_cases hn : seed = e.message.fromNode
    · rw [if_pos hn, if_pos ⟨hmem, hn.symm⟩, UInt64.toNat_add]
      rw [hn] at hwas ⊢
      omega
    · rw [if_neg hn, if_neg fun hand => hn hand.2.symm]
      exact hwas

-- ========= exactness

theorem checkPrepayRateLimit_iff {contentId : ContentId} :
    l.checkPrepayRateLimit seed contentId now = true
      ↔ ∀ last, l.prepaymentAttempts.get (seed, contentId) = some last →
        PREPAY_RATE_LIMIT_SECS ≤ now - last := by
  unfold checkPrepayRateLimit
  cases l.prepaymentAttempts.get (seed, contentId) <;> simp

/-- A step keeps what is meant exactly when it meets the condition. -/
theorem creditedOnce_step_iff (hinv : RecentInv s)
    (h : CreditedOnce base s) :
    CreditedOnce base (step P mode s e) ↔ OnceOnly P mode s e := by
  by_cases ha : Accepts P mode s e
  · have hlimit := checkPrepayRateLimit_iff.1 ha.2
    have hspaced : (step P mode s e).accepted.Pairwise (fun a b =>
          a.1.key = b.1.key → PREPAY_RATE_LIMIT_SECS ≤ b.2 - a.2)
        ↔ ∀ a ∈ s.accepted, a.1.key = e.message.key →
            PREPAY_RATE_LIMIT_SECS ≤ s.now + e.elapsed - a.2 := by
      rw [(step_accepts ha).1, List.pairwise_append]
      simp [h.spaced]
    have hsplit : CreditedOnce base (step P mode s e)
        ↔ e.message ∉ s.distinct ∧ ∀ a ∈ s.accepted,
            a.1.key = e.message.key →
              PREPAY_RATE_LIMIT_SECS ≤ s.now + e.elapsed - a.2 := by
      rw [← credit_accepts_iff ha h.credit, ← hspaced]
      exact ⟨fun hc => ⟨hc.1, hc.2⟩, fun hc => ⟨hc.1, hc.2⟩⟩
    rw [hsplit]
    constructor
    · intro hc _
      refine ⟨fun hmem => absurd hmem hc.1, fun hrecent => ?_⟩
      obtain ⟨a, hmem, hkey, hlt⟩ := hrecent
      have hfar := hc.2 a hmem hkey
      omega
    · intro hc
      obtain ⟨hreplay, hmissing⟩ := hc ha.1
      refine ⟨fun hmem => ?_, fun a hmem hkey => ?_⟩
      · obtain ⟨last, hlast, hlt⟩ := hreplay hmem
        have hfar := hlimit last hlast
        omega
      · by_contra hnear
        obtain ⟨last, hlast⟩ :=
          hmissing ⟨a, hmem, hkey, Nat.lt_of_not_le hnear⟩
        have hfar := hlimit last hlast
        have hle := hinv.recorded a hmem last (by rw [hkey]; exact hlast)
        omega
  · have hkeep : CreditedOnce base (step P mode s e) := by
      obtain ⟨hsame, hacc⟩ := step_refuses ha
      have hcredit : ∀ seed,
          creditOf (step P mode s e) seed = creditOf s seed := by
        intro seed
        unfold creditOf distinct
        rw [hsame]
      constructor
      · intro seed
        rw [hacc, hcredit]
        exact h.credit seed
      · rw [hsame]
        exact h.spaced
    refine iff_of_true hkeep fun he => ?_
    have hrunning : ∃ last,
        s.ledger.prepaymentAttempts.get e.message.key = some last
          ∧ s.now + e.elapsed - last < PREPAY_RATE_LIMIT_SECS := by
      by_contra hno
      refine ha ⟨he, checkPrepayRateLimit_iff.2 fun last hlast => ?_⟩
      by_contra hlt
      exact hno ⟨last, hlast, Nat.lt_of_not_le hlt⟩
    obtain ⟨last, hlast, hlt⟩ := hrunning
    exact ⟨fun _ => ⟨last, hlast, hlt⟩, fun _ => ⟨last, hlast⟩⟩

/-- In every run of prepayments, on any ledger: every seed is credited its
distinct messages once, with an hour between two for one content, if and
only if every step meets the condition. -/
theorem credited_once_iff (P : Prims) (mode : NodeMode) (l : SponsorLedger)
    (now : Nat) (es : List PrepayEvent) :
    Always (step P mode) (CreditedOnce l.accounting) (start l now) es
      ↔ Along (step P mode) (OnceOnly P mode) (start l now) es := by
  refine always_iff_along (J := RecentInv) (fun _ _ => recentInv_step)
    (fun _ _ => creditedOnce_step_iff) ⟨by simp [start], by simp [start]⟩ ?_
  refine ⟨fun seed => ?_, List.Pairwise.nil⟩
  have hlt := (prepaidOf l.accounting seed).toNat_lt
  have hnone : creditOf (start l now) seed = 0 := rfl
  rw [hnone, Nat.add_zero, Nat.mod_eq_of_lt hlt]
  rfl

/-- The attempts in the order of the bytes of seed and content. -/
def attemptOrder : IterOrder (NodeId × ContentId) :=
  IterOrder.sortedBy (fun k => ofBeBytes (k.1.toList ++ k.2.toList)) (by
    intro k k' h
    have hlists := ofBeBytes_inj (by simp) h
    obtain ⟨h1, h2⟩ := List.append_inj hlists (by simp)
    exact Prod.ext (Bytes.ext h1) (Bytes.ext h2))

/-- A sponsor that has served more than it took. -/
def surplusLedger : SponsorLedger :=
  ⟨{ AccountingState.new with totalBytesServed := 1 }, ∅, ∅⟩

def onePrepayment : Prepayment :=
  Prepayment.sign Prims.plain (Bytes.fill 16 1) 10 (Bytes.zero 32)
    (Bytes.fill 32 2)

/-- A message, and the same message an hour later. -/
def capturedOnce : List PrepayEvent :=
  [⟨0, onePrepayment, attemptOrder⟩, ⟨3600, onePrepayment, attemptOrder⟩]

theorem credited_again :
    ¬ Always (step Prims.plain .full)
        (CreditedOnce surplusLedger.accounting) (start surplusLedger 0)
        capturedOnce := by
  intro h
  obtain ⟨-, h₁, h₂⟩ := h
  have hfirst : Accepts Prims.plain .full (start surplusLedger 0)
      ⟨0, onePrepayment, attemptOrder⟩ := by
    refine ⟨⟨by decide, by decide, by decide, by decide, by decide⟩, by decide⟩
  have hagain : Accepts Prims.plain .full
      (step Prims.plain .full (start surplusLedger 0)
        ⟨0, onePrepayment, attemptOrder⟩)
      ⟨3600, onePrepayment, attemptOrder⟩ := by
    refine ⟨⟨by decide, by decide, by decide, by decide, by decide⟩, by decide⟩
  refine (credit_accepts_iff hagain h₁.credit).1 (CreditedOnce.credit h₂) ?_
  rw [distinct_accepts hfirst]
  exact Finset.mem_insert_self _ _

-- ============= whose

/-- Nothing of the seed's was changed: its credit, its record, its
attempts. -/
structure SeedUntouched (seed : NodeId) (l l' : SponsorLedger) : Prop where
  credit : l'.accounting.peers.get seed = l.accounting.peers.get seed
  record : l'.sponsoredSeeds.get seed = l.sponsoredSeeds.get seed
  attempts : ∀ contentId, l'.prepaymentAttempts.get (seed, contentId)
    = l.prepaymentAttempts.get (seed, contentId)

theorem SeedUntouched.refl (seed : NodeId) (l : SponsorLedger) :
    SeedUntouched seed l l := ⟨rfl, rfl, fun _ => rfl⟩

/-- A message whose claimed sender the table pins to another key than the
one that verifies it. -/
def Forged (P : Prims) (table : RoutingTable) (p : Prepayment) : Prop :=
  ∃ node key, table.getNode p.fromNode = some node
    ∧ node.identityPublicKey = some key
    ∧ P.edCheck key p.signingBytes p.signature = false

/-- Past the rate limit the attempt is recorded, whatever comes of it. -/
theorem handlePrepayment_records (hmode : mode ≠ .backupOnly)
    (hvalid : p.validate P = true)
    (hmis : l.isSeedMisbehaving p.fromNode = false)
    (hlimit : l.checkPrepayRateLimit p.fromNode p.contentId now = true) :
    (handlePrepayment P mode order p.fromNode p now
      l).2.prepaymentAttempts.get (p.fromNode, p.contentId) = some now := by
  have hself :=
    get_recordPrepayAttempt_self order p.fromNode p.contentId now l
  unfold handlePrepayment
  rw [if_neg hmode, if_neg (by simp [hvalid]), if_neg (by simp [hmis]),
    if_neg (by simp [hlimit])]
  dsimp only
  split
  · exact hself
  split
  · exact hself
  cases hreg : registerSponsoredSeed p.fromNode p.contentId p.bytes now
      ((l.recordPrepayAttempt order p.fromNode p.contentId
        now).recordPrepayment p.fromNode p.bytes) with
  | none => exact hself
  | some l' =>
      have hsame : l'.prepaymentAttempts = (l.recordPrepayAttempt order
          p.fromNode p.contentId now).prepaymentAttempts := by
        unfold registerSponsoredSeed at hreg
        split at hreg
        · cases hreg
          rfl
        · split at hreg
          · cases hreg
            rfl
          · cases hreg
      dsimp only
      rw [hsame]
      exact hself

/-- A violation shows in the record of a sponsored seed. -/
theorem violate_ne (info : SponsoredSeedInfo) : info.violate ≠ info := by
  intro h
  have hcount : info.rateViolations + 1 = info.rateViolations :=
    congrArg SponsoredSeedInfo.rateViolations h
  have hval := congrArg UInt32.toNat hcount
  rw [UInt32.toNat_add] at hval
  have hlt := info.rateViolations.toNat_lt
  have hone : (1 : UInt32).toNat = 1 := rfl
  omega

/-- A prepayment leaves the seed it names alone exactly when the node is
dormant, the message does not verify under its own key, the seed is flagged,
or it is not sponsored and its limit is running. No key that the seed is
known by comes in. -/
theorem seed_untouched_iff (P : Prims) (mode : NodeMode)
    (order : IterOrder (NodeId × ContentId)) (l : SponsorLedger)
    (p : Prepayment) (now : Nat) :
    SeedUntouched p.fromNode l
        (handlePrepayment P mode order p.fromNode p now l).2
      ↔ mode = .backupOnly ∨ p.validate P = false
        ∨ l.isSeedMisbehaving p.fromNode = true
        ∨ (l.checkPrepayRateLimit p.fromNode p.contentId now = false
          ∧ l.isSponsored p.fromNode = false) := by
  by_cases hmode : mode = .backupOnly
  · refine iff_of_true ?_ (.inl hmode)
    rw [handlePrepayment, if_pos hmode]
    exact .refl _ _
  cases hvalid : p.validate P with
  | false =>
      refine iff_of_true ?_ (.inr (.inl rfl))
      rw [handlePrepayment, if_neg hmode, if_pos (by simp [hvalid])]
      exact .refl _ _
  | true =>
      cases hmis : l.isSeedMisbehaving p.fromNode with
      | true =>
          refine iff_of_true ?_ (.inr (.inr (.inl rfl)))
          rw [handlePrepayment, if_neg hmode, if_neg (by simp [hvalid]),
            if_pos hmis]
          exact .refl _ _
      | false =>
          cases hlimit : l.checkPrepayRateLimit p.fromNode p.contentId
              now with
          | true =>
              -- the attempt is new, or an hour younger than the old one
              refine iff_of_false (fun h => ?_) (by simp [hmode])
              have hnow := h.attempts p.contentId
              rw [handlePrepayment_records hmode hvalid hmis hlimit] at hnow
              have hfar := checkPrepayRateLimit_iff.1 hlimit now hnow.symm
              rw [Nat.sub_self] at hfar
              exact absurd hfar (by decide)
          | false =>
              have hstep : (handlePrepayment P mode order p.fromNode p now
                  l).2 = l.recordSeedViolation p.fromNode := by
                rw [handlePrepayment, if_neg hmode,
                  if_neg (by simp [hvalid]), if_neg (by simp [hmis]),
                  if_pos (by simp [hlimit])]
              rw [hstep]
              cases hget : l.sponsoredSeeds.get p.fromNode with
              | none =>
                  refine iff_of_true ⟨rfl, ?_, fun _ => rfl⟩
                    (.inr (.inr (.inr ⟨rfl, ?_⟩)))
                  · unfold recordSeedViolation
                    rw [FMap.modify_of_get_none hget]
                  · simp [isSponsored, FMap.contains, hget]
              | some info =>
                  refine iff_of_false (fun h => ?_) ?_
                  · have hrecord := h.record
                    unfold recordSeedViolation at hrecord
                    rw [FMap.get_modify_self, hget, Option.map_some]
                      at hrecord
                    exact violate_ne info (Option.some.inj hrecord)
                  · simp [hmode, isSponsored, FMap.contains, hget]

/-- A seed that is known by its key. -/
def knownSeed : KnownNode where
  nodeId := Bytes.fill 16 1
  publicKey := Bytes.zero 32
  address := ""
  kemPublicKey := none
  computeEnabled := false
  computeCapacity := 0
  identityPublicKey := some (Bytes.fill 32 9)

def seedTable : RoutingTable :=
  (RoutingTable.new (Bytes.zero 16)).addNode knownSeed

/-- Another key signs for the seed, and the seed's credit grows. -/
theorem forged_credit :
    Forged Prims.plain seedTable onePrepayment
      ∧ ¬ SeedUntouched onePrepayment.fromNode surplusLedger
          (handlePrepayment Prims.plain .full attemptOrder
            onePrepayment.fromNode onePrepayment 0 surplusLedger).2 := by
  refine ⟨⟨knownSeed, Bytes.fill 32 9, ?_, rfl, by decide⟩, fun h => ?_⟩
  · exact RoutingTable.getNode_addNode_self (by decide)
  · have heligible : Eligible Prims.plain .full surplusLedger
        onePrepayment :=
      ⟨by decide, by decide, by decide, by decide, by decide⟩
    have hlimit : surplusLedger.checkPrepayRateLimit onePrepayment.fromNode
        onePrepayment.contentId 0 = true := by decide
    have hpeers := h.credit
    rw [(handlePrepayment_accepts attemptOrder heligible hlimit).2.1]
      at hpeers
    exact absurd hpeers (by decide)

end StaticNet
