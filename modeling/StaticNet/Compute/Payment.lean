/-
A paid request runs after its payment (`static-node/src/runner.rs`,
`initiate_paid_execution` and the payment tick).

# What ties a payment to a request

The quote a task fetches an address for, the copy the tick asks about and
the entry it takes out are found by request id alone, each in a section of
its own. They are one request's as long as every section finds what the
section before it left, and that is the condition. Without it the late
quote of a request whose slot has timed out lands in the slot of another
request of that id, and one's payment starts the other.

# The placeholder

Until its quote is there, a slot asks for nothing at no address. No watcher
answers for that, unless it has generated an empty address.
-/
import StaticNet.Compute.Steps
import StaticNet.Lib.Exact

namespace StaticNet

open Exact

/-- The copy whose payment is asked for next. -/
def TickPhase.asked : TickPhase → Option PendingPayment
  | .checking (entry :: _) => some entry
  | _ => none

/-- The copies that are still to be looked at, or at hand. -/
def TickPhase.copies : TickPhase → List PendingPayment
  | .checking entries => entries
  | .paid entry rest => entry :: rest
  | .holding _ rest => rest
  | _ => []

/-- The copy that is paid. -/
def TickPhase.confirmed : TickPhase → Option PendingPayment
  | .paid entry _ => some entry
  | _ => none

/-- The entry that has been taken out. -/
def TickPhase.inHand : TickPhase → Option PendingPayment
  | .holding staged _ => some staged
  | _ => none

/-- A watcher has seen the payment. -/
def ComputeEvent.answers : ComputeEvent → Bool
  | .check (some _) => true
  | _ => false

namespace Provider

variable {cfg : ComputeConfig} {s s' : Provider} {e : ComputeEvent}
  {r : ComputeRequest}

/-- A payment of what was quoted for the request, at an address that was
generated for it, has been seen with the confirmations it needs. -/
def Confirmed (cfg : ComputeConfig) (s : Provider)
    (r : ComputeRequest) : Prop :=
  ∃ currency address n, (r, currency, address) ∈ s.log.generated
    ∧ (currency, address, (quote cfg r currency address).amount, n)
        ∈ s.log.seen
    ∧ cfg.pricing.requiredConfirmations.toNat ≤ n

/-- Every execution that has started was paid for before. -/
def PaidFirst (cfg : ComputeConfig) (s : Provider) : Prop :=
  ∀ r ∈ s.log.started, Confirmed cfg s r

/-- The slot a quote is for is its request's own, if it is there. -/
def OwnSlot (s : Provider) (i : Nat) : Prop :=
  ∀ r ∈ s.quoting[i]?,
    ∀ entry ∈ s.state.paymentPending.get r.requestId, entry.request = r

/-- The copy a watcher is asked about has its quote. -/
def AsksQuoted (cfg : ComputeConfig) (s : Provider) : Prop :=
  ∀ entry ∈ s.tick.asked, cfg.watchers entry.payment.currency = true →
    entry.payment ≠ placeholder entry.request

/-- What is taken out for a paid copy is the request that was copied. -/
def TakesCopied (s : Provider) : Prop :=
  ∀ entry ∈ s.tick.confirmed,
    ∀ staged ∈ s.state.paymentPending.get entry.requestId,
      staged.request = entry.request

def OwnQuote (cfg : ComputeConfig) (s : Provider) : ComputeEvent → Prop
  | .address i (some _) => OwnSlot s i
  | .check (some _) => AsksQuoted cfg s
  | .take => TakesCopied s
  | _ => True

/-- A watcher answers only for an address it has generated. -/
def Answered (cfg : ComputeConfig) (s : Provider) (e : ComputeEvent) :
    Prop :=
  e.answers = true → ∀ entry ∈ s.tick.asked,
    cfg.watchers entry.payment.currency = true →
      ∃ generated ∈ s.log.generated,
        generated.2 = (entry.payment.currency, entry.payment.address)

instance (s : Provider) (e : ComputeEvent) :
    Decidable (Answered cfg s e) := by
  unfold Answered
  infer_instance

instance (s : Provider) (i : Nat) : Decidable (OwnSlot s i) := by
  unfold OwnSlot
  infer_instance

instance (s : Provider) : Decidable (AsksQuoted cfg s) := by
  unfold AsksQuoted
  infer_instance

instance (s : Provider) : Decidable (TakesCopied s) := by
  unfold TakesCopied
  infer_instance

instance (s : Provider) : ∀ e, Decidable (OwnQuote cfg s e)
  | .address i (some _) => inferInstanceAs (Decidable (OwnSlot s i))
  | .check (some _) => inferInstanceAs (Decidable (AsksQuoted cfg s))
  | .take => inferInstanceAs (Decidable (TakesCopied s))
  | .address _ none => .isTrue trivial
  | .check none => .isTrue trivial
  | .request _ => .isTrue trivial
  | .confirmation _ => .isTrue trivial
  | .tick _ => .isTrue trivial
  | .expire _ => .isTrue trivial
  | .place => .isTrue trivial
  | .run _ _ _ => .isTrue trivial
  | .wait _ => .isTrue trivial

-- ===== the invariant

/-- An entry asks for what was quoted for its request, or has no quote. -/
def Quoted (cfg : ComputeConfig) (s : Provider)
    (entry : PendingPayment) : Prop :=
  entry.payment = placeholder entry.request
    ∨ ∃ currency address,
        (entry.request, currency, address) ∈ s.log.generated
          ∧ entry.payment = quote cfg entry.request currency address

structure PaidState (cfg : ComputeConfig) (s : Provider) : Prop where
  staged : ∀ k, ∀ entry ∈ s.state.paymentPending.get k, Quoted cfg s entry
  copies : ∀ entry ∈ s.tick.copies, Quoted cfg s entry
  confirmed : ∀ entry ∈ s.tick.confirmed, Confirmed cfg s entry.request
  inHand : ∀ entry ∈ s.tick.inHand,
    Quoted cfg s entry ∧ Confirmed cfg s entry.request
  started : PaidFirst cfg s

/-- The record only grows. -/
structure Records (l l' : ComputeLog) : Prop where
  generated : l.generated ⊆ l'.generated
  seen : l.seen ⊆ l'.seen

/-- Nothing new is recorded. -/
theorem Records.refl (l : ComputeLog) : Records l l :=
  ⟨fun _ h => h, fun _ h => h⟩

/-- What is confirmed stays so, -/
theorem Confirmed.mono (h : Records s.log s'.log) (hc : Confirmed cfg s r) :
    Confirmed cfg s' r := by
  obtain ⟨currency, address, n, hg, hs, hn⟩ := hc
  exact ⟨currency, address, n, h.generated hg, h.seen hs, hn⟩

/-- and so does what is quoted. -/
theorem Quoted.mono (h : Records s.log s'.log) {entry : PendingPayment}
    (hq : Quoted cfg s entry) : Quoted cfg s' entry := by
  rcases hq with hq | ⟨currency, address, hg, hq⟩
  · exact .inl hq
  · exact .inr ⟨currency, address, h.generated hg, hq⟩

/-- At the start nothing is paid or quoted. -/
theorem paidState_start : PaidState cfg start := by
  constructor
  · intro k entry h
    cases h
  · intro entry h
    cases h
  · intro entry h
    cases h
  · intro entry h
    cases h
  · intro r h
    cases h

/-- What stays of the staged entries and the tick stays paid. -/
theorem PaidState.shrink (hs : PaidState cfg s) (hlog : Records s.log s'.log)
    (hstarted : s'.log.started = s.log.started)
    (hstaged : ∀ k, ∀ entry ∈ s'.state.paymentPending.get k,
      ∃ old ∈ s.state.paymentPending.get k,
        old.request = entry.request ∧ old.payment = entry.payment)
    (hcopies : s'.tick.copies ⊆ s.tick.copies)
    (hconfirmed : ∀ entry ∈ s'.tick.confirmed,
      entry ∈ s.tick.confirmed)
    (hhand : ∀ entry ∈ s'.tick.inHand, entry ∈ s.tick.inHand) :
    PaidState cfg s' := by
  constructor
  · intro k entry h
    obtain ⟨old, hold, hrequest, hpayment⟩ := hstaged k entry h
    have hq := (hs.staged k old hold).mono hlog
    rw [Quoted, hrequest, hpayment] at hq
    exact hq
  · intro entry h
    exact (hs.copies entry (hcopies h)).mono hlog
  · intro entry h
    exact (hs.confirmed entry (hconfirmed entry h)).mono hlog
  · intro entry h
    have h := hs.inHand entry (hhand entry h)
    exact ⟨h.1.mono hlog, h.2.mono hlog⟩
  · intro r h
    rw [hstarted] at h
    exact (hs.started r h).mono hlog

/-- A step that leaves staged entries, tick and record. -/
theorem PaidState.congr (hs : PaidState cfg s)
    (hpending : s'.state.paymentPending = s.state.paymentPending)
    (htick : s'.tick = s.tick) (hlog : Records s.log s'.log)
    (hstarted : s'.log.started = s.log.started) : PaidState cfg s' := by
  apply hs.shrink hlog hstarted
  · intro k entry h
    rw [hpending] at h
    exact ⟨entry, h, rfl, rfl⟩
  · rw [htick]
    exact fun _ h => h
  · rw [htick]
    exact fun _ h => h
  · rw [htick]
    exact fun _ h => h

/-- Erasing brings no entry. -/
theorem mem_get_erase {m : FMap RequestId PendingPayment}
    {id k : RequestId} {entry : PendingPayment}
    (h : entry ∈ (m.erase id).get k) : entry ∈ m.get k := by
  rw [FMap.get_erase] at h
  by_cases hk : k = id
  · rw [if_pos hk] at h
    cases h
  · rwa [if_neg hk] at h

/-- An insertion brings one. -/
theorem mem_get_insert {m : FMap RequestId PendingPayment}
    {id k : RequestId} {entry new : PendingPayment}
    (h : entry ∈ (m.insert id new).get k) :
    entry = new ∨ entry ∈ m.get k := by
  rw [FMap.get_insert] at h
  by_cases hk : k = id
  · rw [if_pos hk] at h
    exact .inl (Option.some.inj h).symm
  · rw [if_neg hk] at h
    exact .inr h

/-- A change brings the changed one. -/
theorem mem_get_modify {m : FMap RequestId PendingPayment}
    {id k : RequestId} {f : PendingPayment → PendingPayment}
    {entry : PendingPayment} (h : entry ∈ (m.modify id f).get k) :
    entry ∈ m.get k ∨ (k = id ∧ ∃ old ∈ m.get k, f old = entry) := by
  rw [FMap.get_modify] at h
  by_cases hk : k = id
  · rw [if_pos hk] at h
    obtain ⟨old, hold, hf⟩ := Option.map_eq_some_iff.1 h
    exact .inr ⟨hk, old, hold, hf⟩
  · rw [if_neg hk] at h
    exact .inl h

-- ========= the steps

/-- Where payment is asked for, a request is staged at most. -/
theorem Admits.paidState (h : Admits cfg s r s')
    (hpaid : cfg.pricing.isFree = false) (hs : PaidState cfg s) :
    PaidState cfg s' := by
  have hfree : ¬ cfg.pricing.isFree = true := by simp [hpaid]
  cases h with
  | refused _ => exact hs
  | repeated _ h _ => exact absurd h hfree
  | activated _ h _ _ => exact absurd h hfree
  | reserves _ _ _ _ =>
      refine ⟨fun k entry hget => ?_, hs.copies, hs.confirmed, hs.inHand,
        hs.started⟩
      rcases mem_get_insert hget with rfl | hget
      · exact .inl rfl
      · exact hs.staged k entry hget

/-- A quote is recorded with its address. -/
theorem Addresses.paidState {i : Nat} {address : Option String}
    (h : Addresses cfg s i address s')
    (hc : OwnQuote cfg s (.address i address)) (hs : PaidState cfg s) :
    PaidState cfg s' := by
  cases h with
  | absent _ _ => exact hs
  | unwatched _ _ _ => exact hs.congr rfl rfl (.refl _) rfl
  | failed r _ =>
      exact ⟨fun k entry hget => hs.staged k entry (mem_get_erase hget),
        hs.copies, hs.confirmed, hs.inHand, hs.started⟩
  | quotes r currency address hi _ =>
      have hlog : Records s.log { s.log with
          generated := s.log.generated ++ [(r, currency, address)] } :=
        ⟨fun _ h => List.mem_append_left _ h, fun _ h => h⟩
      refine ⟨fun k entry hget => ?_, fun entry h => ?_, fun entry h => ?_,
        fun entry h => ?_, fun r' h => ?_⟩
      · rcases mem_get_modify hget with hget | ⟨rfl, old, hold, rfl⟩
        · exact (hs.staged k entry hget).mono hlog
        · have hown : old.request = r := hc r hi old hold
          refine .inr ⟨currency, address, ?_, ?_⟩
          · show (old.request, currency, address) ∈ _ ++ _
            rw [hown]
            exact List.mem_append_right _ List.mem_cons_self
          · show quote cfg r currency address
              = quote cfg old.request currency address
            rw [hown]
      · exact (hs.copies entry h).mono hlog
      · exact (hs.confirmed entry h).mono hlog
      · exact ⟨(hs.inHand entry h).1.mono hlog,
          (hs.inHand entry h).2.mono hlog⟩
      · exact (hs.started r' h).mono hlog

/-- What is seen on the chain is recorded. -/
theorem records_noteSeen (s : Provider) (entry : PendingPayment)
    (n : Nat) : Records s.log (s.noteSeen entry n).log :=
  ⟨fun _ h => h, fun _ h => List.mem_append_left _ h⟩

/-- A copy with its quote that is seen paid is a confirmed request. -/
theorem confirmed_noteSeen {entry : PendingPayment} {n : Nat}
    (hq : Quoted cfg s entry)
    (hne : entry.payment ≠ placeholder entry.request)
    (hn : entry.payment.requiredConfirmations.toNat ≤ n) :
    Confirmed cfg (s.noteSeen entry n) entry.request := by
  rcases hq with hq | ⟨currency, address, hg, hq⟩
  · exact absurd hq hne
  · refine ⟨currency, address, n, hg, ?_, ?_⟩
    · show _ ∈ s.log.seen ++ [_]
      rw [hq]
      exact List.mem_append_right _ List.mem_cons_self
    · rw [hq] at hn
      exact hn

/-- The tick starts what is confirmed. -/
theorem Ticks.paidState (h : Ticks cfg s e s') (hc : OwnQuote cfg s e)
    (hs : PaidState cfg s) : PaidState cfg s' := by
  have hsame : ∀ k, ∀ entry ∈ s.state.paymentPending.get k,
      ∃ old ∈ s.state.paymentPending.get k,
        old.request = entry.request ∧ old.payment = entry.payment :=
    fun k entry h => ⟨entry, h, rfl, rfl⟩
  have hnone : ∀ {phase : TickPhase}, phase.confirmed = none →
      ∀ entry ∈ phase.confirmed, entry ∈ s.tick.confirmed := by
    intro phase h entry he
    rw [h] at he
    cases he
  have hempty : ∀ {phase : TickPhase}, phase.inHand = none →
      ∀ entry ∈ phase.inHand, entry ∈ s.tick.inHand := by
    intro phase h entry he
    rw [h] at he
    cases he
  cases h with
  | idle _ _ => exact hs
  | starts _ _ =>
      exact hs.shrink (.refl _) rfl hsame (List.nil_subset _)
        (hnone rfl) (hempty rfl)
  | expires _ id ids _ =>
      exact hs.shrink (.refl _) rfl
        (fun k entry h => ⟨entry, mem_get_erase h, rfl, rfl⟩)
        (List.nil_subset _) (hnone rfl) (hempty rfl)
  | copies order _ =>
      refine ⟨hs.staged, fun entry h => ?_, fun _ h => (by cases h),
        fun _ h => (by cases h), hs.started⟩
      obtain ⟨k, _, hget⟩ := List.mem_filterMap.1 h
      exact hs.staged k entry hget
  | ends _ ht =>
      exact hs.shrink (.refl _) rfl hsame (List.nil_subset _)
        (hnone rfl) (hempty rfl)
  | passes _ entry rest ht =>
      refine hs.shrink (.refl _) rfl hsame ?_ (hnone rfl) (hempty rfl)
      rw [ht]
      exact List.subset_cons_self entry rest
  | waits n entry rest ht _ _ =>
      refine hs.shrink (records_noteSeen s entry n) rfl hsame ?_ (hnone rfl)
        (hempty rfl)
      rw [ht]
      exact List.subset_cons_self entry rest
  | confirms n entry rest ht hw hn =>
      have hlog := records_noteSeen s entry n
      have hcopies := hs.copies
      rw [ht] at hcopies
      have hasked : s.tick.asked = some entry := by rw [ht]; rfl
      have hne := hc entry hasked hw
      refine ⟨fun k e h => (hs.staged k e h).mono hlog,
        fun e h => (hcopies e h).mono hlog, fun e h => ?_,
        fun _ h => (by cases h), fun r h => (hs.started r h).mono hlog⟩
      cases h
      exact confirmed_noteSeen (hcopies entry List.mem_cons_self) hne hn
  | gone entry rest ht _ =>
      refine hs.shrink (.refl _) rfl hsame ?_ (hnone rfl) (hempty rfl)
      rw [ht]
      exact List.subset_cons_self entry rest
  | takes entry staged rest ht hget =>
      have hcopies := hs.copies
      have hpaid := hs.confirmed
      rw [ht] at hcopies hpaid
      have hconfirmed : s.tick.confirmed = some entry := by rw [ht]; rfl
      have hown := hc entry hconfirmed staged hget
      refine ⟨fun k e h => hs.staged k e (mem_get_erase h),
        fun e h => hcopies e (List.mem_cons_of_mem _ h),
        fun _ h => (by cases h), fun e h => ?_, hs.started⟩
      cases h
      refine ⟨hs.staged _ staged hget, ?_⟩
      rw [hown]
      exact hpaid entry rfl
  | putsBack staged rest ht _ =>
      have hcopies := hs.copies
      have hhand := hs.inHand
      rw [ht] at hcopies hhand
      refine ⟨fun k e h => ?_, hcopies, fun _ h => (by cases h),
        fun _ h => (by cases h), hs.started⟩
      rcases mem_get_insert h with rfl | h
      · exact (hhand _ rfl).1
      · exact hs.staged k e h
  | places staged rest ht _ =>
      have hcopies := hs.copies
      have hhand := hs.inHand
      rw [ht] at hcopies hhand
      refine ⟨hs.staged, hcopies, fun _ h => (by cases h),
        fun _ h => (by cases h), fun r h => ?_⟩
      rcases List.mem_append.1 h with h | h
      · exact hs.started r h
      · rw [List.mem_singleton.1 h]
        exact (hhand staged rfl).2

/-- What is started is paid for, step by step. -/
theorem step_paidState (hpaid : cfg.pricing.isFree = false) (s : Provider)
    (e : ComputeEvent) (hc : OwnQuote cfg s e) (hs : PaidState cfg s) :
    PaidState cfg (step cfg s e) := by
  cases e with
  | request r =>
      exact (handleComputeRequest_admits cfg s r).paidState hpaid hs
  | address i address =>
      exact (addressed_addresses cfg s i address).paidState hc hs
  | confirmation c =>
      refine hs.shrink (.refl _) rfl (fun k entry h => ?_) (fun _ h => h)
        (fun _ h => h) (fun _ h => h)
      rcases mem_get_modify h with h | ⟨rfl, old, hold, rfl⟩
      · exact ⟨entry, h, rfl, rfl⟩
      · obtain ⟨hash, hclaimed⟩ := claimed_eq c old
        refine ⟨old, hold, ?_⟩
        show old.request = (claimed c old).request
          ∧ old.payment = (claimed c old).payment
        rw [hclaimed]
        exact ⟨rfl, rfl⟩
  | tick order => exact (startTick_ticks cfg s order).paidState hc hs
  | expire order => exact (expire_ticks cfg s order).paidState hc hs
  | check answer => exact (check_ticks cfg s answer).paidState hc hs
  | take => exact (take_ticks cfg s).paidState hc hs
  | place => exact (place_ticks cfg s).paidState hc hs
  | run i input order =>
      have hsame := runStep_payments s i input order
      refine hs.congr hsame.pending hsame.tick ⟨?_, ?_⟩ hsame.started
      · exact fun _ h => hsame.generated.symm ▸ h
      · exact fun _ h => hsame.seen.symm ▸ h
  | wait secs => exact hs.congr rfl rfl (.refl _) rfl

/-- Where payment is asked for, every execution that starts was paid for
before, in the runs in which every section finds its own request. -/
theorem paid_before_run (cfg : ComputeConfig)
    (hpaid : cfg.pricing.isFree = false) (es : List ComputeEvent)
    (h : Along (step cfg) (OwnQuote cfg) start es) :
    Always (step cfg) (PaidFirst cfg) start es :=
  (always_of_along (fun s e => step_paidState hpaid s e) h
    paidState_start).mono fun _ hs => hs.started

/-- A request that is quoted, seen paid, taken out and started. -/
def settled : List ComputeEvent :=
  [.request (numbered 1), .address 0 (some "a"), .tick .bytewise,
    .expire .bytewise, .check (some 1), .take, .place]

/-- A request that is quoted, paid and started. -/
theorem settled_paid : (settled.foldl (step loneSlot) start).log.started
      = [numbered 1]
    ∧ Always (step loneSlot) (PaidFirst loneSlot) start settled :=
  ⟨by decide +kernel,
    paid_before_run loneSlot rfl settled (by decide +kernel)⟩

/-- Another request of the same id. -/
def other : ComputeRequest := { numbered 1 with inputData := [1] }

/-- The slot of the first request times out while its address is being
generated, and its quote lands in the slot of the second. -/
def lateQuote : List ComputeEvent :=
  [.request (numbered 1), .wait 3601, .tick .bytewise, .expire .bytewise,
    .expire .bytewise, .check none, .request other, .address 0 (some "a"),
    .tick .bytewise, .expire .bytewise, .check (some 1), .take, .place]

/-- One that is started for another's payment. -/
theorem lateQuote_unpaid : ¬ ∀ (cfg : ComputeConfig)
    (es : List ComputeEvent), cfg.pricing.isFree = false →
    Along (step cfg) (Answered cfg) start es →
    Always (step cfg) (PaidFirst cfg) start es := by
  intro h
  have hanswered : Along (step loneSlot) (Answered loneSlot) start
      lateQuote := by
    decide +kernel
  have hstarted : other
      ∈ (lateQuote.foldl (step loneSlot) start).log.started := by
    decide +kernel
  obtain ⟨currency, address, n, hgenerated, _, _⟩ :=
    (h loneSlot lateQuote rfl hanswered).last other hstarted
  have hlog : (lateQuote.foldl (step loneSlot) start).log.generated
      = [(numbered 1, .monero, "a")] := by decide +kernel
  rw [hlog, List.mem_singleton] at hgenerated
  have hrequest : other = numbered 1 := (Prod.mk.inj hgenerated).1
  exact absurd hrequest (by decide +kernel)

end Provider

end StaticNet
