/-
A paid request is not dropped (`static-node/src/runner.rs`,
`run_payment_watch_tick`).

# The deadline

The tick drops what is past the timeout before it asks for any payment. It
reads the timeout off the clock, so a payment that was there in time is
dropped when no tick came between it and the deadline, or when the tick
that came found no room and put the request back.

# What a blockchain would answer

`chain t payment` is what `check_payment` returns for a quote at time `t`.

# The invariant

What the tick has found expired, and not removed yet, was not paid in time.
A sweep is several sections, so nothing may be quoted again under an id
that is still to be removed.
-/
import StaticNet.Compute.Capacity
import StaticNet.Compute.Payment

namespace StaticNet

open Exact

/-- What a staged request has been quoted, and when. -/
structure Stake where
  request : ComputeRequest
  payment : PaymentRequest
  sentAt : Nat
deriving DecidableEq

def PendingPayment.stake (entry : PendingPayment) : Stake :=
  ⟨entry.request, entry.payment, entry.sentAt⟩

/-- The request ids that are still to be removed. -/
def TickPhase.toExpire : TickPhase → List RequestId
  | .expiring ids => ids
  | _ => []

namespace Provider

variable {cfg : ComputeConfig} {chain : Nat → PaymentRequest → Option Nat}
  {s s' : Provider} {e : ComputeEvent} {r : ComputeRequest} {d : Stake}

/-- Staged, or in the hand of the tick between two of its sections. -/
def Staged (s : Provider) (d : Stake) : Prop :=
  (∃ k, ∃ entry ∈ s.state.paymentPending.get k, entry.stake = d)
    ∨ ∃ entry ∈ s.tick.inHand, entry.stake = d

/-- The quote that was sent had its confirmations before the timeout. -/
def InTime (cfg : ComputeConfig) (chain : Nat → PaymentRequest → Option Nat)
    (d : Stake) (t : Nat) : Prop :=
  d.payment ≠ placeholder d.request
    ∧ t ≤ d.sentAt + cfg.paymentTimeoutSecs
    ∧ ∃ n ∈ chain t d.payment, d.payment.requiredConfirmations.toNat ≤ n

/-- So it is by now. -/
def PaidInTime (cfg : ComputeConfig)
    (chain : Nat → PaymentRequest → Option Nat) (now : Nat) (d : Stake) :
    Prop :=
  ∃ t ≤ now, InTime cfg chain d t

def StartedSince (s s' : Provider) (r : ComputeRequest) : Prop :=
  ∃ l, s'.log.started = s.log.started ++ l ∧ r ∈ l

/-- No payment that was there in time is past its timeout. -/
def NoneLate (cfg : ComputeConfig)
    (chain : Nat → PaymentRequest → Option Nat) (s : Provider) : Prop :=
  ∀ k, ∀ entry ∈ s.state.paymentPending.get k,
    cfg.paymentTimeoutSecs < s.now - entry.sentAt →
      ¬ PaidInTime cfg chain s.now entry.stake

/-- The slot of a quoting task has no quote, and is not to be removed. -/
def AwaitsQuote (s : Provider) (i : Nat) : Prop :=
  ∀ r ∈ s.quoting[i]?,
    ∀ entry ∈ s.state.paymentPending.get r.requestId,
      entry.payment = placeholder entry.request
        ∧ r.requestId ∉ s.tick.toExpire

/-- What would be put back finds its slot empty. -/
def BackIsFree (cfg : ComputeConfig) (s : Provider) : Prop :=
  cfg.capacity ≤ s.state.activeExecutions.len →
    ∀ staged ∈ s.tick.inHand,
      s.state.paymentPending.contains staged.requestId = false

/-- A tick starts in time for every payment, and every section finds its
own slot. -/
def InTurn (cfg : ComputeConfig) (chain : Nat → PaymentRequest → Option Nat)
    (s : Provider) : ComputeEvent → Prop
  | .tick _ => NoneLate cfg chain s
  | .address i _ => AwaitsQuote s i
  | .place => BackIsFree cfg s
  | _ => True

/-- Nothing the tick is about to remove was paid in time. -/
def ExpiresUnpaid (cfg : ComputeConfig)
    (chain : Nat → PaymentRequest → Option Nat) (s : Provider) : Prop :=
  ∀ id ∈ s.tick.toExpire, ∀ entry ∈ s.state.paymentPending.get id,
    ∀ t, ¬ InTime cfg chain entry.stake t

-- ===== the invariant

theorem expiresUnpaid_start : ExpiresUnpaid cfg chain start := by
  intro id h
  cases h

theorem ExpiresUnpaid.of_idle (h : s.tick.toExpire = []) :
    ExpiresUnpaid cfg chain s := by
  intro id hid
  rw [h] at hid
  cases hid

/-- Under an id that is to be removed everything stays what it was. -/
theorem ExpiresUnpaid.shrink (hs : ExpiresUnpaid cfg chain s)
    (htick : s'.tick.toExpire ⊆ s.tick.toExpire)
    (hpending : ∀ id ∈ s.tick.toExpire,
      ∀ entry ∈ s'.state.paymentPending.get id,
        entry.payment = placeholder entry.request
          ∨ ∃ old ∈ s.state.paymentPending.get id, old.stake = entry.stake) :
    ExpiresUnpaid cfg chain s' := by
  intro id hid entry hget t ht
  rcases hpending id (htick hid) entry hget with hp | ⟨old, hold, hstake⟩
  · exact ht.1 hp
  · rw [← hstake] at ht
    exact hs id (htick hid) old hold t ht

theorem ExpiresUnpaid.congr (hs : ExpiresUnpaid cfg chain s)
    (htick : s'.tick = s.tick)
    (hpending : s'.state.paymentPending = s.state.paymentPending) :
    ExpiresUnpaid cfg chain s' := by
  apply hs.shrink
  · rw [htick]
    exact fun _ h => h
  · intro id _ entry hget
    rw [hpending] at hget
    exact .inr ⟨entry, hget, rfl⟩

theorem Admits.expiresUnpaid (h : Admits cfg s r s')
    (hs : ExpiresUnpaid cfg chain s) : ExpiresUnpaid cfg chain s' := by
  cases h with
  | refused _ => exact hs
  | repeated _ _ _ => exact hs.congr rfl rfl
  | activated _ _ _ _ => exact hs.congr rfl rfl
  | reserves _ _ _ _ =>
      refine hs.shrink (fun _ h => h) fun id _ entry hget => ?_
      rcases mem_get_insert hget with rfl | hget
      · exact .inl rfl
      · exact .inr ⟨entry, hget, rfl⟩

theorem Addresses.expiresUnpaid {i : Nat} {address : Option String}
    (h : Addresses cfg s i address s')
    (hc : InTurn cfg chain s (.address i address))
    (hs : ExpiresUnpaid cfg chain s) : ExpiresUnpaid cfg chain s' := by
  cases h with
  | absent _ _ => exact hs
  | unwatched _ _ _ => exact hs.congr rfl rfl
  | failed r _ =>
      exact hs.shrink (fun _ h => h) fun id _ entry hget =>
        .inr ⟨entry, mem_get_erase hget, rfl⟩
  | quotes r currency address hi _ =>
      refine hs.shrink (fun _ h => h) fun id hid entry hget => ?_
      rcases mem_get_modify hget with hget | ⟨rfl, old, hold, _⟩
      · exact .inr ⟨entry, hget, rfl⟩
      · exact absurd hid (hc r hi old hold).2

/-- What the sweep finds expired at its start was not paid in time. -/
theorem expired_unpaid {order : IterOrder RequestId}
    (hc : InTurn cfg chain s (.tick order)) {id : RequestId}
    (hid : id ∈ expired cfg s order) {entry : PendingPayment}
    (hget : entry ∈ s.state.paymentPending.get id) (t : Nat) :
    ¬ InTime cfg chain entry.stake t := by
  have hlate : cfg.paymentTimeoutSecs < s.now - entry.sentAt := by
    have hid := (List.mem_filter.1 hid).2
    rw [Option.mem_def.1 hget, Option.any_some] at hid
    exact of_decide_eq_true hid
  intro ht
  have hstake : t ≤ entry.sentAt + cfg.paymentTimeoutSecs := ht.2.1
  exact hc id entry hget hlate ⟨t, by omega, ht⟩

theorem Ticks.expiresUnpaid (h : Ticks cfg s e s')
    (hc : InTurn cfg chain s e) (hs : ExpiresUnpaid cfg chain s) :
    ExpiresUnpaid cfg chain s' := by
  cases h with
  | idle _ _ => exact hs
  | starts order _ =>
      intro id hid entry hget t
      exact expired_unpaid hc hid hget t
  | expires _ id ids ht =>
      refine hs.shrink ?_ fun id' _ entry hget =>
        .inr ⟨entry, mem_get_erase hget, rfl⟩
      rw [ht]
      exact List.subset_cons_self id ids
  | copies _ _ => exact .of_idle rfl
  | ends _ _ => exact .of_idle rfl
  | passes _ _ _ _ => exact .of_idle rfl
  | waits _ _ _ _ _ _ => exact .of_idle rfl
  | confirms _ _ _ _ _ _ => exact .of_idle rfl
  | gone _ _ _ _ => exact .of_idle rfl
  | takes _ _ _ _ _ => exact .of_idle rfl
  | putsBack _ _ _ _ => exact .of_idle rfl
  | places _ _ _ _ => exact .of_idle rfl

theorem claimed_stake (c : PaymentConfirmation) (entry : PendingPayment) :
    (claimed c entry).stake = entry.stake := by
  obtain ⟨hash, hclaimed⟩ := claimed_eq c entry
  rw [hclaimed]
  rfl

theorem step_expiresUnpaid (s : Provider) (e : ComputeEvent)
    (hc : InTurn cfg chain s e) (hs : ExpiresUnpaid cfg chain s) :
    ExpiresUnpaid cfg chain (step cfg s e) := by
  cases e with
  | request r => exact (handleComputeRequest_admits cfg s r).expiresUnpaid hs
  | address i address =>
      exact (addressed_addresses cfg s i address).expiresUnpaid hc hs
  | confirmation c =>
      refine hs.shrink (fun _ h => h) fun id _ entry hget => ?_
      rcases mem_get_modify hget with hget | ⟨rfl, old, hold, rfl⟩
      · exact .inr ⟨entry, hget, rfl⟩
      · exact .inr ⟨old, hold, (claimed_stake c old).symm⟩
  | tick order => exact (startTick_ticks cfg s order).expiresUnpaid hc hs
  | expire order => exact (expire_ticks cfg s order).expiresUnpaid hc hs
  | check answer => exact (check_ticks cfg s answer).expiresUnpaid hc hs
  | take => exact (take_ticks cfg s).expiresUnpaid hc hs
  | place => exact (place_ticks cfg s).expiresUnpaid hc hs
  | run i input order =>
      have hsame := runStep_payments s i input order
      exact hs.congr hsame.tick hsame.pending
  | wait secs => exact hs.congr rfl rfl

-- ==== what is staged

theorem get_of_erase {m : FMap RequestId PendingPayment}
    {id k : RequestId} {entry : PendingPayment} (h : entry ∈ m.get k)
    (hne : k ≠ id) : entry ∈ (m.erase id).get k := by
  rw [FMap.get_erase_ne m hne]
  exact h

theorem get_of_insert {m : FMap RequestId PendingPayment}
    {id k : RequestId} {entry : PendingPayment} (h : entry ∈ m.get k)
    (hnone : m.contains id = false) (new : PendingPayment) :
    entry ∈ (m.insert id new).get k := by
  have hne : k ≠ id := by
    rintro rfl
    rw [FMap.contains, Option.mem_def.1 h] at hnone
    cases hnone
  rw [FMap.get_insert_ne m new hne]
  exact h

/-- An update that keeps the quote keeps it staged. -/
theorem get_of_modify {m : FMap RequestId PendingPayment}
    {id k : RequestId} {f : PendingPayment → PendingPayment}
    {entry : PendingPayment} (h : entry ∈ m.get k)
    (hf : k = id → (f entry).stake = entry.stake) :
    ∃ new ∈ (m.modify id f).get k, new.stake = entry.stake := by
  rw [FMap.get_modify]
  by_cases hk : k = id
  · rw [if_pos hk]
    exact ⟨f entry, Option.mem_map_of_mem f h, hf hk⟩
  · rw [if_neg hk]
    exact ⟨entry, h, rfl⟩

/-- What was paid in time has its quote. -/
theorem PaidInTime.quoted {now : Nat} (h : PaidInTime cfg chain now d) :
    d.payment ≠ placeholder d.request := by
  obtain ⟨t, _, ht⟩ := h
  exact ht.1

theorem PaidInTime.mono {now now' : Nat} (hle : now ≤ now')
    (h : PaidInTime cfg chain now d) : PaidInTime cfg chain now' d := by
  obtain ⟨t, ht, hin⟩ := h
  exact ⟨t, ht.trans hle, hin⟩

theorem Admits.staged (h : Admits cfg s r s') (hd : Staged s d) :
    Staged s' d := by
  cases h with
  | refused _ => exact hd
  | repeated _ _ _ => exact hd
  | activated _ _ _ _ => exact hd
  | reserves _ _ hfresh _ =>
      rcases hd with ⟨k, entry, hget, hstake⟩ | hhand
      · exact .inl ⟨k, entry, get_of_insert hget hfresh _, hstake⟩
      · exact .inr hhand

theorem Addresses.staged {i : Nat} {address : Option String}
    (h : Addresses cfg s i address s')
    (hc : InTurn cfg chain s (.address i address))
    (hq : d.payment ≠ placeholder d.request) (hd : Staged s d) :
    Staged s' d := by
  have hne : ∀ r k entry, s.quoting[i]? = some r →
      entry ∈ s.state.paymentPending.get k → entry.stake = d →
      k ≠ r.requestId := by
    rintro r k entry hi hget rfl rfl
    exact hq (hc r hi entry hget).1
  rcases hd with ⟨k, entry, hget, hstake⟩ | hhand
  · cases h with
    | absent _ _ => exact .inl ⟨k, entry, hget, hstake⟩
    | unwatched _ _ _ => exact .inl ⟨k, entry, hget, hstake⟩
    | failed r hi =>
        exact .inl ⟨k, entry,
          get_of_erase hget (hne r k entry hi hget hstake), hstake⟩
    | quotes r currency address hi _ =>
        have hkept : ∃ new ∈ (s.state.paymentPending.modify r.requestId
            (quoted cfg s r currency address)).get k,
            new.stake = entry.stake :=
          get_of_modify hget fun hk =>
            absurd hk (hne r k entry hi hget hstake)
        obtain ⟨new, hnew, hsame⟩ := hkept
        exact .inl ⟨k, new, hnew, hsame.trans hstake⟩
  · cases h <;> exact .inr hhand

/-- Nothing is in hand in the other phases. -/
theorem not_inHand {phase : TickPhase} (ht : s.tick = phase)
    (hnone : phase.inHand = none) :
    ¬ ∃ entry ∈ s.tick.inHand, entry.stake = d := by
  rintro ⟨entry, h, _⟩
  rw [ht, hnone] at h
  cases h

theorem Ticks.staged (h : Ticks cfg s e s') (hc : InTurn cfg chain s e)
    (hs : ExpiresUnpaid cfg chain s) {now : Nat}
    (hp : PaidInTime cfg chain now d) (hd : Staged s d) :
    Staged s' d ∨ StartedSince s s' d.request := by
  rcases hd with ⟨k, entry, hget, hstake⟩ | hhand
  · have hsame : s'.state.paymentPending = s.state.paymentPending →
        Staged s' d ∨ StartedSince s s' d.request := by
      intro h
      rw [← h] at hget
      exact .inl (.inl ⟨k, entry, hget, hstake⟩)
    cases h with
    | idle _ _ => exact hsame rfl
    | starts _ _ => exact hsame rfl
    | expires _ id ids ht =>
        have hne : k ≠ id := by
          rintro rfl
          obtain ⟨t, _, hin⟩ := hp
          rw [← hstake] at hin
          refine hs k ?_ entry hget t hin
          rw [ht]
          exact List.mem_cons_self
        exact .inl (.inl ⟨k, entry, get_of_erase hget hne, hstake⟩)
    | copies _ _ => exact hsame rfl
    | ends _ _ => exact hsame rfl
    | passes _ _ _ _ => exact hsame rfl
    | waits _ _ _ _ _ _ => exact hsame rfl
    | confirms _ _ _ _ _ _ => exact hsame rfl
    | gone _ _ _ _ => exact hsame rfl
    | takes copy staged rest _ htaken =>
        by_cases hk : k = copy.requestId
        · rw [hk, htaken] at hget
          cases hget
          exact .inl (.inr ⟨entry, rfl, hstake⟩)
        · exact .inl (.inl ⟨k, entry, get_of_erase hget hk, hstake⟩)
    | putsBack staged rest ht hfull =>
        have hhand : s.tick.inHand = some staged := by rw [ht]; rfl
        have hnone := hc hfull staged hhand
        exact .inl (.inl ⟨k, entry, get_of_insert hget hnone _, hstake⟩)
    | places _ _ _ _ => exact hsame rfl
  · cases h with
    | idle _ _ => exact .inl (.inr hhand)
    | starts _ ht => exact absurd hhand (not_inHand ht rfl)
    | expires _ _ _ ht => exact absurd hhand (not_inHand ht rfl)
    | copies _ ht => exact absurd hhand (not_inHand ht rfl)
    | ends _ ht => exact absurd hhand (not_inHand ht rfl)
    | passes _ _ _ ht => exact absurd hhand (not_inHand ht rfl)
    | waits _ _ _ ht _ _ => exact absurd hhand (not_inHand ht rfl)
    | confirms _ _ _ ht _ _ => exact absurd hhand (not_inHand ht rfl)
    | gone _ _ ht _ => exact absurd hhand (not_inHand ht rfl)
    | takes _ _ _ ht _ => exact absurd hhand (not_inHand ht rfl)
    | putsBack staged rest ht _ =>
        obtain ⟨entry, hentry, hstake⟩ := hhand
        rw [ht] at hentry
        cases hentry
        exact .inl (.inl ⟨staged.requestId, staged,
          FMap.get_insert_self _ _ _, hstake⟩)
    | places staged rest ht _ =>
        obtain ⟨entry, hentry, hstake⟩ := hhand
        rw [ht] at hentry
        cases hentry
        refine .inr ⟨[staged.request], rfl, ?_⟩
        rw [← hstake]
        exact List.mem_cons_self

-- ========== the runs

theorem step_now_le (s : Provider) (e : ComputeEvent) :
    s.now ≤ (step cfg s e).now := by
  have hadmits : ∀ {r s'}, Admits cfg s r s' → s'.now = s.now := by
    intro r s' h
    cases h <;> rfl
  have haddresses : ∀ {i address s'}, Addresses cfg s i address s' →
      s'.now = s.now := by
    intro i address s' h
    cases h <;> rfl
  have hticks : ∀ {e s'}, Ticks cfg s e s' → s'.now = s.now := by
    intro e s' h
    cases h <;> rfl
  have hruns : ∀ {i t s'}, Runs s i t s' → s'.now = s.now := by
    intro i t s' h
    cases h <;> rfl
  cases e with
  | request r => exact (hadmits (handleComputeRequest_admits cfg s r)).ge
  | address i address =>
      exact (haddresses (addressed_addresses cfg s i address)).ge
  | confirmation c => exact le_rfl
  | tick order => exact (hticks (startTick_ticks cfg s order)).ge
  | expire order => exact (hticks (expire_ticks cfg s order)).ge
  | check answer => exact (hticks (check_ticks cfg s answer)).ge
  | take => exact (hticks (take_ticks cfg s)).ge
  | place => exact (hticks (place_ticks cfg s)).ge
  | run i input order =>
      cases h : s.runs[i]? with
      | none => exact (congrArg now (runStep_none h input order)).ge
      | some t => exact (hruns (runStep_runs h input order)).ge
  | wait secs => exact Nat.le_add_right _ _

/-- The record of the starts only grows. -/
theorem step_started (s : Provider) (e : ComputeEvent) :
    s.log.started <+: (step cfg s e).log.started := by
  have hadmits : ∀ {r s'}, Admits cfg s r s' →
      s.log.started <+: s'.log.started := by
    intro r s' h
    cases h with
    | repeated _ _ _ => exact List.prefix_append _ _
    | activated _ _ _ _ => exact List.prefix_append _ _
    | _ => exact List.prefix_rfl
  have haddresses : ∀ {i address s'}, Addresses cfg s i address s' →
      s.log.started <+: s'.log.started := by
    intro i address s' h
    cases h <;> exact List.prefix_rfl
  have hticks : ∀ {e s'}, Ticks cfg s e s' →
      s.log.started <+: s'.log.started := by
    intro e s' h
    cases h with
    | places _ _ _ _ => exact List.prefix_append _ _
    | _ => exact List.prefix_rfl
  cases e with
  | request r => exact hadmits (handleComputeRequest_admits cfg s r)
  | address i address => exact haddresses (addressed_addresses cfg s i address)
  | confirmation c => exact List.prefix_rfl
  | tick order => exact hticks (startTick_ticks cfg s order)
  | expire order => exact hticks (expire_ticks cfg s order)
  | check answer => exact hticks (check_ticks cfg s answer)
  | take => exact hticks (take_ticks cfg s)
  | place => exact hticks (place_ticks cfg s)
  | run i input order =>
      show s.log.started <+: (s.runStep i input order).log.started
      rw [(runStep_payments s i input order).started]
  | wait secs => exact List.prefix_rfl

theorem run_started (s : Provider) (es : List ComputeEvent) :
    s.log.started <+: (es.foldl (step cfg) s).log.started := by
  induction es generalizing s with
  | nil => exact List.prefix_rfl
  | cons e es ih => exact (step_started s e).trans (ih (step cfg s e))

theorem StartedSince.later {s'' : Provider} (h : StartedSince s s' r)
    (hlog : s'.log.started <+: s''.log.started) : StartedSince s s'' r := by
  obtain ⟨l, hl, hmem⟩ := h
  obtain ⟨l', hl'⟩ := hlog
  refine ⟨l ++ l', ?_, List.mem_append_left _ hmem⟩
  rw [← hl', hl, List.append_assoc]

theorem StartedSince.earlier {s'' : Provider}
    (hlog : s.log.started <+: s'.log.started)
    (h : StartedSince s' s'' r) : StartedSince s s'' r := by
  obtain ⟨l, hl, hmem⟩ := h
  obtain ⟨l', hl'⟩ := hlog
  refine ⟨l' ++ l, ?_, List.mem_append_right _ hmem⟩
  rw [hl, ← hl', List.append_assoc]

/-- A step leaves what was paid in time staged, or starts it. -/
theorem step_staged (s : Provider) (e : ComputeEvent)
    (hc : InTurn cfg chain s e) (hs : ExpiresUnpaid cfg chain s)
    (hp : PaidInTime cfg chain s.now d) (hd : Staged s d) :
    Staged (step cfg s e) d
      ∨ StartedSince s (step cfg s e) d.request := by
  cases e with
  | request r => exact .inl ((handleComputeRequest_admits cfg s r).staged hd)
  | address i address =>
      exact .inl ((addressed_addresses cfg s i address).staged hc hp.quoted hd)
  | confirmation c =>
      rcases hd with ⟨k, entry, hget, hstake⟩ | hhand
      · have hkept : ∃ new ∈ (s.state.paymentPending.modify c.requestId
            (claimed c)).get k, new.stake = entry.stake :=
          get_of_modify hget fun _ => claimed_stake c entry
        obtain ⟨new, hnew, hsame⟩ := hkept
        exact .inl (.inl ⟨k, new, hnew, hsame.trans hstake⟩)
      · exact .inl (.inr hhand)
  | tick order => exact (startTick_ticks cfg s order).staged hc hs hp hd
  | expire order => exact (expire_ticks cfg s order).staged hc hs hp hd
  | check answer => exact (check_ticks cfg s answer).staged hc hs hp hd
  | take => exact (take_ticks cfg s).staged hc hs hp hd
  | place => exact (place_ticks cfg s).staged hc hs hp hd
  | run i input order =>
      have hsame := runStep_payments s i input order
      show Staged (s.runStep i input order) d ∨ _
      rw [Staged, hsame.pending, hsame.tick]
      exact .inl hd
  | wait secs => exact .inl hd

theorem run_staged (es : List ComputeEvent) (s : Provider)
    (h : Along (step cfg) (InTurn cfg chain) s es)
    (hs : ExpiresUnpaid cfg chain s) (hp : PaidInTime cfg chain s.now d)
    (hd : Staged s d) :
    Staged (es.foldl (step cfg) s) d
      ∨ StartedSince s (es.foldl (step cfg) s) d.request := by
  induction es generalizing s with
  | nil => exact .inl hd
  | cons e es ih =>
      have hgrow : s.log.started <+: (step cfg s e).log.started :=
        step_started s e
      rcases step_staged s e h.1 hs hp hd with hd | hstarted
      · rcases ih (step cfg s e) h.2 (step_expiresUnpaid s e h.1 hs)
            (hp.mono (step_now_le s e)) hd with hd | hstarted
        · exact .inl hd
        · exact .inr (hstarted.earlier hgrow)
      · exact .inr (hstarted.later (run_started (step cfg s e) es))

/-- A request whose payment was there in time stays staged until it starts,
in the runs in which no tick comes too late for it and every section finds
its own slot. -/
theorem paid_kept (cfg : ComputeConfig)
    (chain : Nat → PaymentRequest → Option Nat)
    (es es' : List ComputeEvent) (d : Stake)
    (h : Along (step cfg) (InTurn cfg chain) start (es ++ es'))
    (hd : Staged (es.foldl (step cfg) start) d)
    (hp : PaidInTime cfg chain (es.foldl (step cfg) start).now d) :
    Staged ((es ++ es').foldl (step cfg) start) d
      ∨ StartedSince (es.foldl (step cfg) start)
          ((es ++ es').foldl (step cfg) start) d.request := by
  obtain ⟨hbefore, hafter⟩ := (along_append es').1 h
  have hs := (always_of_along (fun s e => step_expiresUnpaid s e) hbefore
    expiresUnpaid_start).last
  rw [List.foldl_append]
  exact run_staged es' _ hafter hs hp hd

-- ========== two runs

instance (s : Provider) (i : Nat) : Decidable (AwaitsQuote s i) := by
  unfold AwaitsQuote
  infer_instance

instance (s : Provider) : Decidable (BackIsFree cfg s) := by
  unfold BackIsFree
  infer_instance

/-- A request with its quote, by the first byte of its id. -/
def quotedAt (id : UInt8) (address : String) : Stake :=
  ⟨numbered id, quote loneSlot (numbered id) .monero address, 0⟩

/-- A request comes in and gets its quote. -/
def staging : List ComputeEvent :=
  [.request (numbered 1), .address 0 (some "a")]

/-- A tick that finds the payment starts it. -/
def paidTick : List ComputeEvent :=
  [.tick .bytewise, .expire .bytewise, .check (some 1), .take, .place]

theorem staging_kept :
    Staged ((staging ++ paidTick).foldl (step loneSlot) start)
        (quotedAt 1 "a")
      ∨ StartedSince (staging.foldl (step loneSlot) start)
          ((staging ++ paidTick).foldl (step loneSlot) start)
          (quotedAt 1 "a").request := by
  refine paid_kept loneSlot (fun _ _ => some 1) staging paidTick _ ?_ ?_ ?_
  · have haddress : AwaitsQuote ((staging.take 1).foldl (step loneSlot)
        start) 0 := by decide +kernel
    have hplace : BackIsFree loneSlot ((staging ++ paidTick.take 4).foldl
        (step loneSlot) start) := by decide +kernel
    refine ⟨trivial, haddress, ?_, trivial, trivial, trivial, hplace,
      trivial⟩
    intro k entry _ hlate
    have hlate : loneSlot.paymentTimeoutSecs
        < (staging.foldl (step loneSlot) start).now - entry.sentAt := hlate
    have hnow : (staging.foldl (step loneSlot) start).now = 0 := by
      decide +kernel
    rw [hnow, Nat.zero_sub] at hlate
    exact absurd hlate (Nat.not_lt_zero _)
  · refine .inl ⟨(numbered 1).requestId, _, rfl, ?_⟩
    decide +kernel
  · exact ⟨0, Nat.zero_le _, by decide +kernel, Nat.zero_le _, 1, rfl,
      by decide +kernel⟩

/-- The second request reserves while the tick has the first in hand, and
both are let in. -/
def crowded : List ComputeEvent :=
  squeezed ++ [.address 0 (some "b"), .check none, .wait 3600]

/-- The second is paid at its deadline. There is no room, and by the next
tick it is past it. -/
def putBackLate : List ComputeEvent :=
  [.tick .bytewise, .expire .bytewise, .check (some 1), .take, .place,
    .check none, .wait 1, .tick .bytewise, .expire .bytewise]

/-- The chain has the first payment at once, and the second after an
hour. -/
def slowChain (t : Nat) (payment : PaymentRequest) : Option Nat :=
  if payment.address = "a" ∨ 3600 ≤ t then some 1 else none

theorem putBack_dropped : ¬ ∀ (cfg : ComputeConfig)
    (chain : Nat → PaymentRequest → Option Nat)
    (es es' : List ComputeEvent) (d : Stake),
    Staged (es.foldl (step cfg) start) d →
    PaidInTime cfg chain (es.foldl (step cfg) start).now d →
    Staged ((es ++ es').foldl (step cfg) start) d
      ∨ StartedSince (es.foldl (step cfg) start)
          ((es ++ es').foldl (step cfg) start) d.request := by
  intro h
  have hstaged : Staged (crowded.foldl (step loneSlot) start)
      (quotedAt 2 "b") := by
    refine .inl ⟨(numbered 2).requestId, _, rfl, ?_⟩
    decide +kernel
  have hpaid : PaidInTime loneSlot slowChain
      (crowded.foldl (step loneSlot) start).now (quotedAt 2 "b") :=
    ⟨3600, by decide +kernel, by decide +kernel, by decide +kernel, 1, rfl,
      by decide +kernel⟩
  have hpending : ((crowded ++ putBackLate).foldl (step loneSlot)
      start).state.paymentPending.keys = ∅ := by decide +kernel
  have hhand : ((crowded ++ putBackLate).foldl (step loneSlot)
      start).tick.inHand.isNone = true := by decide +kernel
  have hstarted : ((crowded ++ putBackLate).foldl (step loneSlot)
      start).log.started
        = (crowded.foldl (step loneSlot) start).log.started := by
    decide +kernel
  rcases h loneSlot slowChain crowded putBackLate _ hstaged hpaid with
    (⟨k, entry, hget, _⟩ | ⟨entry, hget, _⟩) | ⟨l, hl, hmem⟩
  · have hk := FMap.mem_keys_of_get (Option.mem_def.1 hget)
    rw [hpending] at hk
    exact absurd hk (Finset.notMem_empty k)
  · rw [Option.mem_def.1 hget] at hhand
    cases hhand
  · rw [hstarted] at hl
    rw [List.self_eq_append_right.1 hl] at hmem
    cases hmem

end Provider

end StaticNet
