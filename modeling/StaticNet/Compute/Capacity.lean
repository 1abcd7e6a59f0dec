/-
How many requests a provider holds (`static-node/src/runner.rs`,
`accept_compute_request`, `reserve_payment_slot` and the payment tick).

# The gap in the tick

Active and staged requests share the capacity, and a request is let in
while together they leave room. The tick takes a paid request out of the
staged ones in one section and places it in another. Between the two its
slot counts as free, and the second section looks at the active executions
alone: whoever reserves in between is one too many.
-/
import StaticNet.Compute.Steps
import StaticNet.Lib.Exact

namespace StaticNet

open Exact

namespace Provider

variable {cfg : ComputeConfig} {s s' : Provider} {e : ComputeEvent}

def Fits (cfg : ComputeConfig) (s : Provider) : Prop :=
  s.occupied ≤ cfg.capacity

/-- Placing this entry takes no further slot: the table it goes to has its
request id already. -/
def Replaces (cfg : ComputeConfig) (s : Provider)
    (staged : PendingPayment) : Prop :=
  if cfg.capacity ≤ s.state.activeExecutions.len then
    s.state.paymentPending.contains staged.requestId = true
  else s.state.activeExecutions.contains staged.requestId = true

/-- When the tick places what it has in hand, nobody has taken the slot. -/
def SlotKept (cfg : ComputeConfig) (s : Provider) : ComputeEvent → Prop
  | .place => ∀ staged rest, s.tick = .holding staged rest →
      s.occupied < cfg.capacity ∨ Replaces cfg s staged
  | _ => True

-- ===== the free tier

/-- Nothing is staged, and the tick has nothing in hand. -/
structure Unstaged (s : Provider) : Prop where
  pending : s.state.paymentPending = ∅
  hand : ∀ staged rest, s.tick ≠ .holding staged rest

/-- A provider that charges nothing stages nothing. -/
def FreeUnstaged (cfg : ComputeConfig) (s : Provider) : Prop :=
  cfg.pricing.isFree = true → s.Unstaged

/-- At the start nothing is staged. -/
theorem freeUnstaged_start : FreeUnstaged cfg start := by
  intro _
  exact ⟨rfl, fun _ _ h => by cases h⟩

theorem Unstaged.congr (h : s.Unstaged)
    (hp : s'.state.paymentPending = s.state.paymentPending)
    (ht : s'.tick = s.tick) : s'.Unstaged := by
  constructor
  · rw [hp]
    exact h.pending
  · rw [ht]
    exact h.hand

/-- A free request is not staged, -/
theorem Admits.unstaged {r : ComputeRequest} (h : Admits cfg s r s')
    (hfree : cfg.pricing.isFree = true) (hs : s.Unstaged) :
    s'.Unstaged := by
  cases h with
  | refused _ => exact hs
  | repeated _ _ _ => exact hs.congr rfl rfl
  | activated _ _ _ _ => exact hs.congr rfl rfl
  | reserves hpaid _ _ _ =>
      rw [hfree] at hpaid
      cases hpaid

/-- nor by its address, -/
theorem Addresses.unstaged {i : Nat} {address : Option String}
    (h : Addresses cfg s i address s') (hs : s.Unstaged) :
    s'.Unstaged := by
  cases h with
  | absent _ _ => exact hs
  | unwatched _ _ _ => exact hs.congr rfl rfl
  | failed r _ =>
      refine ⟨?_, hs.hand⟩
      show s.state.paymentPending.erase r.requestId = ∅
      rw [hs.pending, FMap.erase_of_get_none (FMap.get_empty _)]
  | quotes r currency address _ _ =>
      refine ⟨?_, hs.hand⟩
      show s.state.paymentPending.modify r.requestId _ = ∅
      rw [hs.pending, FMap.modify_of_get_none (FMap.get_empty _)]

/-- nor by the tick. -/
theorem Ticks.unstaged (h : Ticks cfg s e s') (hs : s.Unstaged) :
    s'.Unstaged := by
  cases h with
  | idle _ _ => exact hs
  | starts _ _ => exact ⟨hs.pending, fun _ _ h => by cases h⟩
  | expires _ id ids _ =>
      refine ⟨?_, fun _ _ h => by cases h⟩
      show s.state.paymentPending.erase id = ∅
      rw [hs.pending, FMap.erase_of_get_none (FMap.get_empty _)]
  | copies _ _ => exact ⟨hs.pending, fun _ _ h => by cases h⟩
  | ends _ _ => exact ⟨hs.pending, fun _ _ h => by cases h⟩
  | passes _ _ _ _ => exact ⟨hs.pending, fun _ _ h => by cases h⟩
  | waits _ _ _ _ _ _ => exact ⟨hs.pending, fun _ _ h => by cases h⟩
  | confirms _ _ _ _ _ _ => exact ⟨hs.pending, fun _ _ h => by cases h⟩
  | gone _ _ _ _ => exact ⟨hs.pending, fun _ _ h => by cases h⟩
  | takes entry staged rest _ hg =>
      rw [hs.pending] at hg
      cases hg
  | putsBack staged rest ht _ => exact absurd ht (hs.hand staged rest)
  | places staged rest ht _ => exact absurd ht (hs.hand staged rest)

/-- So a free provider stages nothing. -/
theorem step_freeUnstaged (s : Provider) (e : ComputeEvent)
    (hs : FreeUnstaged cfg s) : FreeUnstaged cfg (step cfg s e) := by
  intro hfree
  have hs := hs hfree
  cases e with
  | request r => exact (handleComputeRequest_admits cfg s r).unstaged hfree hs
  | address i address =>
      exact (addressed_addresses cfg s i address).unstaged hs
  | confirmation c =>
      refine ⟨?_, hs.hand⟩
      show s.state.paymentPending.modify c.requestId _ = ∅
      rw [hs.pending, FMap.modify_of_get_none (FMap.get_empty _)]
  | tick order => exact (startTick_ticks cfg s order).unstaged hs
  | expire order => exact (expire_ticks cfg s order).unstaged hs
  | check answer => exact (check_ticks cfg s answer).unstaged hs
  | take => exact (take_ticks cfg s).unstaged hs
  | place => exact (place_ticks cfg s).unstaged hs
  | run i input order =>
      have hsame := runStep_payments s i input order
      exact hs.congr hsame.pending hsame.tick
  | wait secs => exact hs.congr rfl rfl

-- ========= the sizes

/-- A run takes no slot, -/
theorem Runs.occupied_le {i : Nat} {t : RunTask} (h : Runs s i t s') :
    s'.occupied ≤ s.occupied := by
  have hend : ∀ id : RequestId,
      (s.state.activeExecutions.erase id).len + s.state.paymentPending.len
        ≤ s.occupied := fun id =>
    Nat.add_le_add_right (FMap.len_erase_le _ _) _
  cases h with
  | waits _ => exact le_rfl
  | finds _ _ _ => exact le_rfl
  | misses _ => exact le_rfl
  | unobtained _ => exact hend t.request.requestId
  | empty _ _ => exact hend t.request.requestId
  | fetches _ _ => exact le_rfl
  | caches _ _ => exact le_rfl
  | trims _ _ _ => exact le_rfl
  | finishes _ _ => exact hend t.request.requestId
  | returns _ => exact le_rfl

/-- and an address none. -/
theorem Addresses.occupied_le {i : Nat} {address : Option String}
    (h : Addresses cfg s i address s') : s'.occupied ≤ s.occupied := by
  cases h with
  | absent _ _ => exact le_rfl
  | unwatched _ _ _ => exact le_rfl
  | failed r _ => exact Nat.add_le_add_left (FMap.len_erase_le _ _) _
  | quotes _ _ _ _ _ => exact le_rfl

/-- A request that is let in finds room for it. -/
theorem Admits.fits {r : ComputeRequest} (h : Admits cfg s r s')
    (hs : FreeUnstaged cfg s) (hf : Fits cfg s) : Fits cfg s' := by
  cases h with
  | refused _ => exact hf
  | repeated _ _ _ => exact hf
  | activated _ hfree hfresh hroom =>
      show (s.state.activeExecutions.insert r.requestId _).len
        + s.state.paymentPending.len ≤ cfg.capacity
      rw [FMap.len_insert_of_absent _ hfresh, (hs hfree).pending,
        FMap.len_empty]
      exact hroom
  | reserves _ _ hun hroom =>
      show s.state.activeExecutions.len
        + (s.state.paymentPending.insert r.requestId _).len ≤ cfg.capacity
      rw [FMap.len_insert_of_absent _ hun]
      exact hroom

/-- A placement keeps a slot where there is room, or in exchange. -/
theorem slotKept_place {staged : PendingPayment}
    {rest : List PendingPayment} (ht : s.tick = .holding staged rest) :
    SlotKept cfg s .place
      ↔ s.occupied < cfg.capacity ∨ Replaces cfg s staged := by
  constructor
  · intro h
    exact h staged rest ht
  · intro h staged' rest' ht'
    rw [ht] at ht'
    cases ht'
    exact h

/-- An insertion keeps a total within a bound when there is room for one
more, or nothing is added. -/
theorem fits_insert_iff {V : Type} {m : FMap RequestId V} {k : RequestId}
    (v : V) {n bound : Nat} (hf : m.len + n ≤ bound) :
    (m.insert k v).len + n ≤ bound
      ↔ m.len + n < bound ∨ m.contains k = true := by
  cases hc : m.contains k with
  | true =>
      rw [FMap.len_insert_of_contains v hc]
      exact ⟨fun _ => .inr rfl, fun _ => hf⟩
  | false =>
      rw [FMap.len_insert_of_absent v hc]
      simp only [Bool.false_eq_true, or_false]
      omega

/-- A section of the tick keeps within the capacity exactly when the slot
of what it places is still there. -/
theorem Ticks.fits (h : Ticks cfg s e s') (hf : Fits cfg s) :
    Fits cfg s' ↔ SlotKept cfg s e := by
  cases h with
  | idle e hand =>
      refine ⟨fun _ => ?_, fun _ => hf⟩
      cases e with
      | place => exact fun staged rest ht => absurd ht (hand rfl staged rest)
      | _ => trivial
  | starts _ _ => exact ⟨fun _ => trivial, fun _ => hf⟩
  | expires _ id ids _ =>
      refine ⟨fun _ => trivial, fun _ => ?_⟩
      exact le_trans (Nat.add_le_add_left (FMap.len_erase_le _ _) _) hf
  | copies _ _ => exact ⟨fun _ => trivial, fun _ => hf⟩
  | ends _ _ => exact ⟨fun _ => trivial, fun _ => hf⟩
  | passes _ _ _ _ => exact ⟨fun _ => trivial, fun _ => hf⟩
  | waits _ _ _ _ _ _ => exact ⟨fun _ => trivial, fun _ => hf⟩
  | confirms _ _ _ _ _ _ => exact ⟨fun _ => trivial, fun _ => hf⟩
  | gone _ _ _ _ => exact ⟨fun _ => trivial, fun _ => hf⟩
  | takes entry staged rest _ _ =>
      refine ⟨fun _ => trivial, fun _ => ?_⟩
      exact le_trans (Nat.add_le_add_left (FMap.len_erase_le _ _) _) hf
  | putsBack staged rest ht hfull =>
      rw [slotKept_place ht, Replaces, if_pos hfull, occupied,
        Nat.add_comm, ← fits_insert_iff staged ?_, Nat.add_comm]
      · exact Iff.rfl
      · rwa [Nat.add_comm]
  | places staged rest ht hroom =>
      rw [slotKept_place ht, Replaces, if_neg (Nat.not_le.2 hroom),
        occupied, ← fits_insert_iff _ hf]
      exact Iff.rfl

/-- The capacity is kept exactly when the slot is. -/
theorem step_fits (s : Provider) (e : ComputeEvent)
    (hs : FreeUnstaged cfg s) (hf : Fits cfg s) :
    Fits cfg (step cfg s e) ↔ SlotKept cfg s e := by
  cases e with
  | request r =>
      exact ⟨fun _ => trivial,
        fun _ => (handleComputeRequest_admits cfg s r).fits hs hf⟩
  | address i address =>
      exact ⟨fun _ => trivial, fun _ => le_trans
        (addressed_addresses cfg s i address).occupied_le hf⟩
  | confirmation c => exact ⟨fun _ => trivial, fun _ => hf⟩
  | tick order => exact (startTick_ticks cfg s order).fits hf
  | expire order => exact (expire_ticks cfg s order).fits hf
  | check answer => exact (check_ticks cfg s answer).fits hf
  | take => exact (take_ticks cfg s).fits hf
  | place => exact (place_ticks cfg s).fits hf
  | run i input order =>
      refine ⟨fun _ => trivial, fun _ => ?_⟩
      cases h : s.runs[i]? with
      | none =>
          show (s.runStep i input order).occupied ≤ cfg.capacity
          rw [runStep_none h]
          exact hf
      | some t =>
          exact le_trans (runStep_runs h input order).occupied_le hf
  | wait secs => exact ⟨fun _ => trivial, fun _ => hf⟩

/-- The requests a provider holds stay within its capacity exactly in the
runs in which nobody takes the slot of a paid request between the tick's
two sections. -/
theorem capacity_kept_iff (cfg : ComputeConfig) (es : List ComputeEvent) :
    Always (step cfg) (Fits cfg) start es
      ↔ Along (step cfg) (SlotKept cfg) start es :=
  always_iff_along (fun s e => step_freeUnstaged s e)
    (fun s e => step_fits s e) freeUnstaged_start (Nat.zero_le _)

/-- The first request pays, and while the tick has it in hand the second
takes its slot. -/
def squeezed : List ComputeEvent :=
  [.request (numbered 1), .address 0 (some "a"), .tick .bytewise,
    .expire .bytewise, .check (some 1), .take, .request (numbered 2),
    .place]

/-- A run that overfills the provider. -/
theorem squeezed_overfull : ¬ ∀ (cfg : ComputeConfig)
    (es : List ComputeEvent), Always (step cfg) (Fits cfg) start es := by
  intro h
  have hfit := (h loneSlot squeezed).last
  have htwo : (squeezed.foldl (step loneSlot) start).occupied = 2 := by
    decide +kernel
  rw [Fits, htwo] at hfit
  exact absurd hfit (by decide)

end Provider

end StaticNet
