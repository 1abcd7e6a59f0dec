/-
What each section of the provider can do, outcome by outcome.

One inductive family per task: a constructor is one outcome, with the
guards that lead to it and the state it leaves. Every fact about a step is
read off these, and no proof past this file unfolds a section.
-/
import StaticNet.Compute.Provider

namespace StaticNet

namespace Provider

variable {cfg : ComputeConfig} {s : Provider}

/-- The requests that hold a slot. -/
def occupied (s : Provider) : Nat :=
  s.state.activeExecutions.len + s.state.paymentPending.len

-- ======= the updates

/-- A spawned run is no part of the state. -/
@[simp] theorem spawn_state (s : Provider) (r : ComputeRequest) :
    (s.spawn r).state = s.state := rfl

@[simp] theorem spawn_tick (s : Provider) (r : ComputeRequest) :
    (s.spawn r).tick = s.tick := rfl

@[simp] theorem spawn_runs (s : Provider) (r : ComputeRequest) :
    (s.spawn r).runs = s.runs ++ [⟨r, .obtaining⟩] := rfl

/-- Nor is a run that moves on. -/
@[simp] theorem setRun_state (s : Provider) (i : Nat) (t : RunTask) :
    (s.setRun i t).state = s.state := rfl

@[simp] theorem setRun_tick (s : Provider) (i : Nat) (t : RunTask) :
    (s.setRun i t).tick = s.tick := rfl

@[simp] theorem setRun_log (s : Provider) (i : Nat) (t : RunTask) :
    (s.setRun i t).log = s.log := rfl

/-- A run moves on in its place. -/
@[simp] theorem setRun_runs (s : Provider) (i : Nat) (t : RunTask) :
    (s.setRun i t).runs = s.runs.set i t := rfl

/-- The slot of a request, until its quote is there. -/
def reserved (s : Provider) (r : ComputeRequest) : PendingPayment :=
  ⟨r.requestId, r, placeholder r, s.now, none⟩

/-- A staged entry with its quote. -/
def quoted (cfg : ComputeConfig) (s : Provider) (r : ComputeRequest)
    (currency : Currency) (address : String) (entry : PendingPayment) :
    PendingPayment :=
  { entry with payment := quote cfg r currency address, sentAt := s.now }

/-- An entry whose requester claims to have paid. -/
def claimed (c : PaymentConfirmation) (entry : PendingPayment) :
    PendingPayment :=
  if entry.payment.currency ≠ c.currency then entry
  else { entry with claimedTxHash := some c.txHash }

/-- A claim touches nothing but the hash. -/
theorem claimed_eq (c : PaymentConfirmation) (entry : PendingPayment) :
    ∃ hash, claimed c entry = { entry with claimedTxHash := hash } := by
  unfold claimed
  by_cases hc : entry.payment.currency ≠ c.currency
  · rw [if_pos hc]
    exact ⟨entry.claimedTxHash, rfl⟩
  · rw [if_neg hc]
    exact ⟨some c.txHash, rfl⟩

/-- A retrieval that returned, on the record. -/
def noteRetrieved (s : Provider) (r : ComputeRequest)
    (bytes : List UInt8) : Provider :=
  { s with log := { s.log with
      retrieved := s.log.retrieved ++ [(r.moduleContentPubKey, bytes)] } }

/-- An answer for a copy, on the record. -/
def noteSeen (s : Provider) (entry : PendingPayment) (n : Nat) :
    Provider :=
  { s with log := { s.log with
      seen := s.log.seen ++ [(entry.payment.currency,
        entry.payment.address, entry.payment.amount, n)] } }

/-- The staged entries without one of them. -/
def unstage (s : Provider) (id : RequestId) : Provider :=
  { s with state := { s.state with
      paymentPending := s.state.paymentPending.erase id } }

/-- The staged entries with one more. -/
def stage (s : Provider) (entry : PendingPayment) : Provider :=
  { s with state := { s.state with
      paymentPending :=
        s.state.paymentPending.insert entry.requestId entry } }

/-- The execution that starts for a staged entry. -/
def startStaged (s : Provider) (staged : PendingPayment) : Provider :=
  { s with state := { s.state with
      activeExecutions := s.state.activeExecutions.insert staged.requestId
        { s.execution staged.request with requestId := staged.requestId } }
    }.spawn staged.request

-- ====== the requests

/-- What handling a request can do. -/
inductive Admits (cfg : ComputeConfig) (s : Provider) (r : ComputeRequest) :
    Provider → Prop
  | refused (full : cfg.enabled = true → cfg.pricing.isFree = true →
        s.state.activeExecutions.contains r.requestId = false
          ∧ cfg.capacity ≤ s.state.activeExecutions.len) :
      Admits cfg s r s
  | repeated (enabled : cfg.enabled = true)
      (free : cfg.pricing.isFree = true)
      (known : s.state.activeExecutions.contains r.requestId = true) :
      Admits cfg s r (s.spawn r)
  | activated (enabled : cfg.enabled = true)
      (free : cfg.pricing.isFree = true)
      (fresh : s.state.activeExecutions.contains r.requestId = false)
      (room : s.state.activeExecutions.len < cfg.capacity) :
      Admits cfg s r (s.activate r)
  | reserves (paid : cfg.pricing.isFree = false)
      (fresh : s.state.activeExecutions.contains r.requestId = false)
      (unstaged : s.state.paymentPending.contains r.requestId = false)
      (room : s.occupied < cfg.capacity) :
      Admits cfg s r
        { s.stage (s.reserved r) with quoting := s.quoting ++ [r] }

/-- A priced request is staged, or refused for want of room. -/
theorem reservePaymentSlot_admits (hpaid : cfg.pricing.isFree = false)
    (s : Provider) (r : ComputeRequest) :
    Admits cfg s r (reservePaymentSlot cfg s r) := by
  have hrefused : Admits cfg s r s := by
    refine .refused fun _ hfree => ?_
    rw [hpaid] at hfree
    cases hfree
  unfold reservePaymentSlot
  by_cases hk : (s.state.activeExecutions.contains r.requestId
      || s.state.paymentPending.contains r.requestId) = true
  · rw [if_pos hk]
    exact hrefused
  · by_cases hroom : cfg.capacity
        ≤ s.state.activeExecutions.len + s.state.paymentPending.len
    · rw [if_neg hk, if_pos hroom]
      exact hrefused
    · rw [if_neg hk, if_neg hroom]
      rw [Bool.not_eq_true, Bool.or_eq_false_iff] at hk
      exact .reserves hpaid hk.1 hk.2 (Nat.lt_of_not_le hroom)

/-- A free request is started, or refused for want of room. -/
theorem acceptComputeRequest_admits (henabled : cfg.enabled = true)
    (hfree : cfg.pricing.isFree = true) (s : Provider)
    (r : ComputeRequest) :
    Admits cfg s r (acceptComputeRequest cfg s r) := by
  unfold acceptComputeRequest
  by_cases hk : s.state.activeExecutions.contains r.requestId = true
  · rw [if_pos hk]
    exact .repeated henabled hfree hk
  · rw [if_neg hk]
    rw [Bool.not_eq_true] at hk
    by_cases hroom : cfg.capacity ≤ s.state.activeExecutions.len
    · rw [if_pos hroom]
      exact .refused fun _ _ => ⟨hk, hroom⟩
    · rw [if_neg hroom]
      exact .activated henabled hfree hk (Nat.lt_of_not_le hroom)

/-- Nothing else is done with a request. -/
theorem handleComputeRequest_admits (cfg : ComputeConfig) (s : Provider)
    (r : ComputeRequest) :
    Admits cfg s r (handleComputeRequest cfg s r) := by
  unfold handleComputeRequest
  cases henabled : cfg.enabled with
  | false =>
      refine .refused fun h => ?_
      rw [henabled] at h
      cases h
  | true =>
      cases hfree : cfg.pricing.isFree with
      | true => exact acceptComputeRequest_admits henabled hfree s r
      | false =>
          cases watched cfg r with
          | none =>
              refine .refused fun _ h => ?_
              rw [hfree] at h
              cases h
          | some currency => exact reservePaymentSlot_admits hfree s r

-- ======== the quotes

/-- What a quoting task does with the address it gets, or does not get. -/
inductive Addresses (cfg : ComputeConfig) (s : Provider) (i : Nat) :
    Option String → Provider → Prop
  | absent (address : Option String) (h : s.quoting[i]? = none) :
      Addresses cfg s i address s
  | unwatched (address : Option String) (r : ComputeRequest)
      (h : s.quoting[i]? = some r) :
      Addresses cfg s i address { s with quoting := s.quoting.eraseIdx i }
  | failed (r : ComputeRequest) (h : s.quoting[i]? = some r) :
      Addresses cfg s i none
        { s.unstage r.requestId with quoting := s.quoting.eraseIdx i }
  | quotes (r : ComputeRequest) (currency : Currency) (address : String)
      (h : s.quoting[i]? = some r) (hw : watched cfg r = some currency) :
      Addresses cfg s i (some address)
        { s with
          quoting := s.quoting.eraseIdx i
          state := { s.state with
            paymentPending := s.state.paymentPending.modify r.requestId
              (quoted cfg s r currency address) }
          log := { s.log with
            generated := s.log.generated ++ [(r, currency, address)] } }

/-- Nothing else is done with an address. -/
theorem addressed_addresses (cfg : ComputeConfig) (s : Provider) (i : Nat)
    (address : Option String) :
    Addresses cfg s i address (addressed cfg s i address) := by
  unfold addressed
  cases h : s.quoting[i]? with
  | none => exact .absent address h
  | some r =>
      dsimp only
      cases hw : watched cfg r with
      | none => exact .unwatched address r h
      | some currency =>
          cases address with
          | none => exact .failed r h
          | some address => exact .quotes r currency address h hw

-- ========== the tick

/-- What the payment tick can do in one section. -/
inductive Ticks (cfg : ComputeConfig) (s : Provider) :
    ComputeEvent → Provider → Prop
  | idle (e : ComputeEvent)
      (hand : e = .place → ∀ staged rest, s.tick ≠ .holding staged rest) :
      Ticks cfg s e s
  | starts (order : IterOrder RequestId) (h : s.tick = .idle) :
      Ticks cfg s (.tick order)
        { s with tick := .expiring (expired cfg s order) }
  | expires (order : IterOrder RequestId) (id : RequestId)
      (ids : List RequestId) (h : s.tick = .expiring (id :: ids)) :
      Ticks cfg s (.expire order)
        { s.unstage id with tick := .expiring ids }
  | copies (order : IterOrder RequestId) (h : s.tick = .expiring []) :
      Ticks cfg s (.expire order)
        { s with tick := .checking (s.stagedCopies order) }
  | ends (answer : Option Nat) (h : s.tick = .checking []) :
      Ticks cfg s (.check answer) { s with tick := .idle }
  | passes (answer : Option Nat) (entry : PendingPayment)
      (rest : List PendingPayment) (h : s.tick = .checking (entry :: rest)) :
      Ticks cfg s (.check answer) { s with tick := .checking rest }
  | waits (n : Nat) (entry : PendingPayment) (rest : List PendingPayment)
      (h : s.tick = .checking (entry :: rest))
      (hw : cfg.watchers entry.payment.currency = true)
      (hn : ¬ entry.payment.requiredConfirmations.toNat ≤ n) :
      Ticks cfg s (.check (some n))
        { s.noteSeen entry n with tick := .checking rest }
  | confirms (n : Nat) (entry : PendingPayment) (rest : List PendingPayment)
      (h : s.tick = .checking (entry :: rest))
      (hw : cfg.watchers entry.payment.currency = true)
      (hn : entry.payment.requiredConfirmations.toNat ≤ n) :
      Ticks cfg s (.check (some n))
        { s.noteSeen entry n with tick := .paid entry rest }
  | gone (entry : PendingPayment) (rest : List PendingPayment)
      (h : s.tick = .paid entry rest)
      (hn : s.state.paymentPending.get entry.requestId = none) :
      Ticks cfg s .take { s with tick := .checking rest }
  | takes (entry staged : PendingPayment) (rest : List PendingPayment)
      (h : s.tick = .paid entry rest)
      (hs : s.state.paymentPending.get entry.requestId = some staged) :
      Ticks cfg s .take
        { s.unstage entry.requestId with tick := .holding staged rest }
  | putsBack (staged : PendingPayment) (rest : List PendingPayment)
      (h : s.tick = .holding staged rest)
      (hfull : cfg.capacity ≤ s.state.activeExecutions.len) :
      Ticks cfg s .place { s.stage staged with tick := .checking rest }
  | places (staged : PendingPayment) (rest : List PendingPayment)
      (h : s.tick = .holding staged rest)
      (hroom : s.state.activeExecutions.len < cfg.capacity) :
      Ticks cfg s .place
        { s.startStaged staged with tick := .checking rest }

/-- A tick begins when the last one is over. -/
theorem startTick_ticks (cfg : ComputeConfig) (s : Provider)
    (order : IterOrder RequestId) :
    Ticks cfg s (.tick order) (startTick cfg s order) := by
  unfold startTick
  cases h : s.tick with
  | idle => exact .starts order h
  | expiring _ => exact .idle _ fun he => by cases he
  | checking _ => exact .idle _ fun he => by cases he
  | paid _ _ => exact .idle _ fun he => by cases he
  | holding _ _ => exact .idle _ fun he => by cases he

/-- The late payments go one by one. -/
theorem expire_ticks (cfg : ComputeConfig) (s : Provider)
    (order : IterOrder RequestId) :
    Ticks cfg s (.expire order) (s.expire order) := by
  unfold expire
  cases h : s.tick with
  | idle => exact .idle _ fun he => by cases he
  | expiring ids =>
      cases ids with
      | nil => exact .copies order h
      | cons id ids => exact .expires order id ids h
  | checking _ => exact .idle _ fun he => by cases he
  | paid _ _ => exact .idle _ fun he => by cases he
  | holding _ _ => exact .idle _ fun he => by cases he

/-- One copy is looked up on the chain. -/
theorem check_ticks (cfg : ComputeConfig) (s : Provider)
    (answer : Option Nat) :
    Ticks cfg s (.check answer) (check cfg s answer) := by
  unfold check
  cases h : s.tick with
  | idle => exact .idle _ fun he => by cases he
  | expiring _ => exact .idle _ fun he => by cases he
  | checking entries =>
      cases entries with
      | nil => exact .ends answer h
      | cons entry rest =>
          dsimp only
          by_cases hw : (!cfg.watchers entry.payment.currency) = true
          · rw [if_pos hw]
            exact .passes answer entry rest h
          · rw [if_neg hw]
            rw [Bool.not_eq_true, Bool.not_eq_false'] at hw
            cases answer with
            | none => exact .passes none entry rest h
            | some n =>
                dsimp only
                by_cases hn : entry.payment.requiredConfirmations.toNat ≤ n
                · rw [if_pos hn]
                  exact .confirms n entry rest h hw hn
                · rw [if_neg hn]
                  exact .waits n entry rest h hw hn
  | paid _ _ => exact .idle _ fun he => by cases he
  | holding _ _ => exact .idle _ fun he => by cases he

/-- A paid entry is taken, if it is still there. -/
theorem take_ticks (cfg : ComputeConfig) (s : Provider) :
    Ticks cfg s .take s.take := by
  unfold take
  cases h : s.tick with
  | idle => exact .idle _ fun he => by cases he
  | expiring _ => exact .idle _ fun he => by cases he
  | checking _ => exact .idle _ fun he => by cases he
  | paid entry rest =>
      dsimp only
      cases hs : s.state.paymentPending.get entry.requestId with
      | none => exact .gone entry rest h hs
      | some staged => exact .takes entry staged rest h hs
  | holding _ _ => exact .idle _ fun he => by cases he

/-- It is started, or put back where there is no room. -/
theorem place_ticks (cfg : ComputeConfig) (s : Provider) :
    Ticks cfg s .place (place cfg s) := by
  unfold place
  cases h : s.tick with
  | idle => exact .idle _ fun _ _ _ ht => by rw [h] at ht; cases ht
  | expiring _ => exact .idle _ fun _ _ _ ht => by rw [h] at ht; cases ht
  | checking _ => exact .idle _ fun _ _ _ ht => by rw [h] at ht; cases ht
  | paid _ _ => exact .idle _ fun _ _ _ ht => by rw [h] at ht; cases ht
  | holding staged rest =>
      dsimp only
      by_cases hfull : cfg.capacity ≤ s.state.activeExecutions.len
      · rw [if_pos hfull]
        exact .putsBack staged rest h hfull
      · rw [if_neg hfull]
        exact .places staged rest h (Nat.lt_of_not_le hfull)

-- ========== the runs

/-- What a task can do in one section of its run. -/
inductive Runs (s : Provider) (i : Nat) (t : RunTask) : Provider → Prop
  | waits (h : t.phase = .fetching ∨ ∃ bytes, t.phase = .executing bytes) :
      Runs s i t s
  | finds (bytes : List UInt8) (h : t.phase = .obtaining)
      (hc : s.state.cachedModules.get t.request.moduleContentId
        = some bytes) :
      Runs s i t (s.setRun i { t with phase := .cached bytes })
  | misses (h : t.phase = .obtaining) :
      Runs s i t (s.setRun i { t with phase := .fetching })
  | unobtained (h : t.phase = .fetching) : Runs s i t (s.finish i t)
  | empty (bytes : List UInt8) (h : t.phase = .fetching) :
      Runs s i t ((s.noteRetrieved t.request bytes).finish i t)
  | fetches (bytes : List UInt8) (h : t.phase = .fetching) :
      Runs s i t ((s.noteRetrieved t.request bytes).setRun i
        { t with phase := .fetched bytes })
  | caches (bytes : List UInt8)
      (h : t.phase = .cached bytes ∨ t.phase = .fetched bytes) :
      Runs s i t (s.cacheModule i t bytes)
  | trims (order : IterOrder ContentId) (bytes : List UInt8)
      (h : t.phase = .trimming bytes) :
      Runs s i t
        ({ s with state := { s.state with
            cachedModules := trim order s.state.cachedModules.len
              s.state.cachedModules } }.setRun i
          { t with phase := .executing bytes })
  | finishes (bytes : List UInt8) (h : t.phase = .executing bytes) :
      Runs s i t (s.finish i t)
  | returns (h : t.phase = .answering) :
      Runs s i t { s with runs := s.runs.eraseIdx i }

/-- A run takes its next section, and no other. -/
theorem runStep_runs {i : Nat} {t : RunTask} (h : s.runs[i]? = some t)
    (input : RunInput) (order : IterOrder ContentId) :
    Runs s i t (s.runStep i input order) := by
  obtain ⟨r, phase⟩ := t
  unfold runStep
  rw [h]
  dsimp only
  cases phase with
  | obtaining =>
      dsimp only
      cases hc : s.state.cachedModules.get r.moduleContentId with
      | none => exact .misses rfl
      | some bytes => exact .finds bytes rfl hc
  | fetching =>
      cases input with
      | next => exact .waits (.inl rfl)
      | executed => exact .waits (.inl rfl)
      | retrieved bytes =>
          cases bytes with
          | none => exact .unobtained rfl
          | some bytes =>
              dsimp only
              by_cases hb : bytes.isEmpty = true
              · rw [if_pos hb]
                exact .empty bytes rfl
              · rw [if_neg hb]
                exact .fetches bytes rfl
  | cached bytes => exact .caches bytes (.inl rfl)
  | fetched bytes => exact .caches bytes (.inr rfl)
  | trimming bytes => exact .trims order bytes rfl
  | executing bytes =>
      cases input with
      | next => exact .waits (.inr ⟨bytes, rfl⟩)
      | executed => exact .finishes bytes rfl
      | retrieved _ => exact .waits (.inr ⟨bytes, rfl⟩)
  | answering => exact .returns rfl

/-- There is nothing to do for a run that is not there. -/
theorem runStep_none {i : Nat} (h : s.runs[i]? = none) (input : RunInput)
    (order : IterOrder ContentId) : s.runStep i input order = s := by
  unfold runStep
  rw [h]

/-- Nothing in this step concerns a payment. -/
structure SamePayments (s s' : Provider) : Prop where
  pending : s'.state.paymentPending = s.state.paymentPending
  tick : s'.tick = s.tick
  generated : s'.log.generated = s.log.generated
  seen : s'.log.seen = s.log.seen
  started : s'.log.started = s.log.started

/-- A run leaves the payments alone. -/
theorem runStep_payments (s : Provider) (i : Nat) (input : RunInput)
    (order : IterOrder ContentId) :
    SamePayments s (s.runStep i input order) := by
  cases h : s.runs[i]? with
  | none =>
      rw [runStep_none h]
      exact ⟨rfl, rfl, rfl, rfl, rfl⟩
  | some t =>
      have hruns := runStep_runs h input order
      generalize s.runStep i input order = s' at hruns
      cases hruns <;> exact ⟨rfl, rfl, rfl, rfl, rfl⟩

-- ==== providers to run

/-- Room for one request, at five units of Monero and one confirmation. -/
def loneSlot : ComputeConfig where
  enabled := true
  capacity := 1
  maxCpuMs := 1000
  maxMemoryMb := 16
  pricing := ⟨5, 0, 0, [.monero], 1⟩
  paymentTimeoutSecs := 3600
  watchers := fun currency => currency == .monero

/-- The same for free. -/
def freeSlot : ComputeConfig :=
  { loneSlot with pricing := ⟨0, 0, 0, [], 0⟩ }

/-- A request by the first byte of its id, for Monero. -/
def numbered (id : UInt8) : ComputeRequest where
  fromNode := Bytes.zero 16
  moduleContentId := Bytes.zero 32
  moduleContentPubKey := Bytes.zero 32
  currency := 0
  paymentAddress := []
  requestId := Bytes.ofList 32 [id]
  returnRoute := ⟨[], Bytes.zero 16⟩
  inputData := []

end Provider

end StaticNet
