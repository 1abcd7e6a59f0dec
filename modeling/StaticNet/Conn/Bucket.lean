/-
How many bytes the token bucket lets through (`TokenBucket` in
`static-mesh/src/transport.rs`).

A refill brings the rate that is set times the milliseconds since the
last refill. `set_rate` sets another rate and does not refill first, as
`try_consume` does: what has passed since the last refill is brought by
the next one, at the new rate. Against the rates that were in force when
the time passed (`Stretch.allowed`) this is too much where the new rate
is the higher one.
-/
import StaticNet.Conn.Rate

namespace StaticNet

open Exact

variable {b : TokenBucket} {now : Nat}

-- ========= the calls

inductive BucketCall
  | refill
  | tryConsume (bytes : Nat)
  | setRate (refillRate maxTokens : Nat)

/-- A call, and what the clock reads there in milliseconds. -/
structure TimedCall where
  now : Nat
  call : BucketCall

namespace TokenBucket

/-- The bytes a call lets through, and the bucket it leaves. -/
def serve (b : TokenBucket) (e : TimedCall) : Nat × TokenBucket :=
  match e.call with
  | .refill => (0, b.refill e.now)
  | .tryConsume bytes =>
      let r := b.tryConsume e.now bytes
      (if r.1 then bytes else 0, r.2)
  | .setRate refillRate maxTokens => (0, b.setRate refillRate maxTokens)

end TokenBucket

/-- A stretch of calls: the bucket and the clock now, the bytes let
through, and the sum of every rate times the milliseconds for which it was
in force. -/
structure Stretch where
  bucket : TokenBucket
  clock : Nat
  consumed : Nat
  allowed : Nat

namespace Stretch

/-- Right after a refill at `t`. -/
def start (b : TokenBucket) (t : Nat) : Stretch := ⟨b.refill t, t, 0, 0⟩

def step (s : Stretch) (e : TimedCall) : Stretch where
  bucket := (s.bucket.serve e).2
  clock := e.now
  consumed := s.consumed + (s.bucket.serve e).1
  allowed := s.allowed + s.bucket.refillRate * (e.now - s.clock)

/-- The clock does not step back. -/
def Forward (s : Stretch) (e : TimedCall) : Prop := s.clock ≤ e.now

instance (s : Stretch) (e : TimedCall) : Decidable (s.Forward e) :=
  inferInstanceAs (Decidable (_ ≤ _))

/-- A higher rate is set right after a refill only. -/
def Settled (s : Stretch) (e : TimedCall) : Prop :=
  match e.call with
  | .setRate refillRate _ =>
      s.bucket.refillRate < refillRate → e.now ≤ s.bucket.lastRefill
  | _ => True

instance (s : Stretch) : ∀ e : TimedCall, Decidable (s.Settled e)
  | ⟨_, .refill⟩ => .isTrue trivial
  | ⟨_, .tryConsume _⟩ => .isTrue trivial
  | ⟨_, .setRate _ _⟩ => inferInstanceAs (Decidable (_ → _))

/-- No more came through than the tokens at the start and what the rates
allowed, in thousandths. -/
def WithinRate (tokens : Nat) (s : Stretch) : Prop :=
  1000 * s.consumed ≤ 1000 * tokens + s.allowed

instance (tokens : Nat) (s : Stretch) : Decidable (s.WithinRate tokens) :=
  inferInstanceAs (Decidable (_ ≤ _))

/-- The tokens that are left count as well, and what the next refill
brings for the time up to now. -/
def Covered (tokens : Nat) (s : Stretch) : Prop :=
  1000 * (s.consumed + s.bucket.tokens)
      + s.bucket.refillRate * (s.clock - s.bucket.lastRefill)
    ≤ 1000 * tokens + s.allowed

end Stretch

-- ======== the bucket

theorem refill_tokens_le (now : Nat) (b : TokenBucket) :
    1000 * (b.refill now).tokens
      ≤ 1000 * b.tokens + b.refillRate * (now - b.lastRefill) := by
  unfold TokenBucket.refill
  dsimp only
  split
  · have hcap : min (satAdd b.tokens
        (satMul (now - b.lastRefill) b.refillRate / 1000)) b.maxTokens
        ≤ b.tokens + satMul (now - b.lastRefill) b.refillRate / 1000 :=
      (Nat.min_le_left _ _).trans (Nat.min_le_left _ _)
    have hsat : satMul (now - b.lastRefill) b.refillRate
        ≤ b.refillRate * (now - b.lastRefill) := by
      rw [Nat.mul_comm b.refillRate]
      exact Nat.min_le_left _ _
    have hdiv := Nat.mul_div_le
      (satMul (now - b.lastRefill) b.refillRate) 1000
    dsimp only
    omega
  · omega

/-- Nothing is left to bring for the time before a refill. -/
theorem refill_pending : now - (b.refill now).lastRefill = 0 := by
  unfold TokenBucket.refill
  dsimp only
  split
  · exact Nat.sub_self now
  · omega

theorem refill_tokens_cap (h : b.tokens ≤ b.maxTokens) :
    (b.refill now).tokens ≤ (b.refill now).maxTokens := by
  unfold TokenBucket.refill
  dsimp only
  split
  · exact Nat.min_le_right _ _
  · exact h

/-- Asking takes from a refilled bucket what it lets through. -/
theorem tryConsume_eq (b : TokenBucket) (now bytes : Nat) :
    ∃ n, n ≤ (b.refill now).tokens ∧ b.serve ⟨now, .tryConsume bytes⟩
      = (n, { b.refill now with tokens := (b.refill now).tokens - n }) := by
  unfold TokenBucket.serve TokenBucket.tryConsume
  dsimp only
  by_cases h : bytes ≤ (b.refill now).tokens
  · rw [if_pos h]
    exact ⟨bytes, h, rfl⟩
  · rw [if_neg h]
    exact ⟨0, Nat.zero_le _, rfl⟩

/-- No call leaves more tokens than the bucket holds. -/
theorem serve_cap (e : TimedCall) (h : b.tokens ≤ b.maxTokens) :
    (b.serve e).2.tokens ≤ (b.serve e).2.maxTokens := by
  obtain ⟨now, call⟩ := e
  cases call with
  | refill => exact refill_tokens_cap h
  | tryConsume bytes =>
      obtain ⟨n, -, heq⟩ := tryConsume_eq b now bytes
      rw [heq]
      exact (Nat.sub_le _ _).trans (refill_tokens_cap h)
  | setRate refillRate maxTokens => exact Nat.min_le_right _ _

-- ========== one call

namespace Stretch

variable {s : Stretch} {tokens : Nat}

/-- Time passes: the rate that is set allows as much as it may bring. -/
theorem Covered.wait (h : s.Covered tokens) (hnow : s.clock ≤ now) :
    1000 * (s.consumed + s.bucket.tokens)
        + s.bucket.refillRate * (now - s.bucket.lastRefill)
      ≤ 1000 * tokens
        + (s.allowed + s.bucket.refillRate * (now - s.clock)) := by
  have hsplit : now - s.bucket.lastRefill
      ≤ (s.clock - s.bucket.lastRefill) + (now - s.clock) := by omega
  have hmul := Nat.mul_le_mul_left s.bucket.refillRate hsplit
  rw [Nat.mul_add] at hmul
  unfold Covered at h
  omega

/-- A refill turns what is pending into tokens. -/
theorem Covered.refill (h : s.Covered tokens) (hnow : s.clock ≤ now) :
    1000 * (s.consumed + (s.bucket.refill now).tokens)
        + (s.bucket.refill now).refillRate
          * (now - (s.bucket.refill now).lastRefill)
      ≤ 1000 * tokens
        + (s.allowed + s.bucket.refillRate * (now - s.clock)) := by
  have hwait := h.wait hnow
  have htokens := refill_tokens_le now s.bucket
  rw [refill_pending, Nat.mul_zero]
  omega

theorem Covered.step {e : TimedCall} (h : s.Covered tokens)
    (hforward : s.Forward e) (hsettled : s.Settled e) :
    (s.step e).Covered tokens := by
  obtain ⟨now, call⟩ := e
  cases call with
  | refill => exact h.refill hforward
  | tryConsume bytes =>
      have hrefill := h.refill hforward
      obtain ⟨n, hn, heq⟩ := tryConsume_eq s.bucket now bytes
      unfold Covered Stretch.step
      rw [heq]
      dsimp only
      have hsum : s.consumed + n + ((s.bucket.refill now).tokens - n)
          = s.consumed + (s.bucket.refill now).tokens := by omega
      rw [hsum]
      exact hrefill
  | setRate refillRate maxTokens =>
      have hwait := h.wait hforward
      dsimp only at hwait
      have hpending : refillRate * (now - s.bucket.lastRefill)
          ≤ s.bucket.refillRate * (now - s.bucket.lastRefill) := by
        by_cases hup : s.bucket.refillRate < refillRate
        · -- a higher rate finds nothing pending
          have hlast : now ≤ s.bucket.lastRefill := hsettled hup
          rw [Nat.sub_eq_zero_of_le hlast, Nat.mul_zero]
          exact Nat.zero_le _
        · exact Nat.mul_le_mul_right _ (Nat.le_of_not_lt hup)
      have hmin : min s.bucket.tokens maxTokens ≤ s.bucket.tokens :=
        Nat.min_le_left _ _
      show 1000 * (s.consumed + 0 + min s.bucket.tokens maxTokens)
          + refillRate * (now - s.bucket.lastRefill)
        ≤ 1000 * tokens
          + (s.allowed + s.bucket.refillRate * (now - s.clock))
      omega

theorem covered_start (b : TokenBucket) (t : Nat) :
    (start b t).Covered (b.refill t).tokens := by
  unfold Covered start
  dsimp only
  rw [refill_pending, Nat.mul_zero, Nat.zero_add]

theorem Covered.withinRate (h : s.Covered tokens) : s.WithinRate tokens := by
  unfold Covered at h
  unfold WithinRate
  omega

end Stretch

-- ========== the runs

open Stretch

/-- Whatever is called, at whatever readings of the clock, a bucket never
holds more than its capacity. And over every stretch of calls at readings
that do not go back, right after a refill, no more is consumed than the
tokens and the rates in force allow, if a higher rate is only set right
after a refill. -/
theorem bucket_within_rate (maxTokens refillRate nowSecs : Nat)
    (calls : List TimedCall) (b : TokenBucket) (t : Nat)
    (stretch : List TimedCall)
    (hforward : Along Stretch.step Forward (start b t) stretch)
    (hsettled : Along Stretch.step Stretch.Settled (start b t) stretch) :
    Always (fun b e => (TokenBucket.serve b e).2)
        (fun b => b.tokens ≤ b.maxTokens)
        (TokenBucket.new maxTokens refillRate nowSecs) calls
      ∧ Always Stretch.step (WithinRate (b.refill t).tokens) (start b t)
        stretch := by
  constructor
  · exact always_of_step (fun b e h => serve_cap e h) le_rfl
  · exact (always_of_along (fun s e he h => h.step he.1 he.2)
      (hforward.and hsettled) (covered_start b t)).mono
      fun s h => h.withinRate

/-- A bucket that is emptied, raised twice and asked again. -/
def raisedAtOnce : List TimedCall :=
  [⟨0, .tryConsume 1000⟩, ⟨1000, .refill⟩, ⟨1000, .setRate 2000 1000⟩,
    ⟨1500, .tryConsume 1000⟩]

theorem bucket_within_rate_raisedAtOnce :
    Always (fun b e => (TokenBucket.serve b e).2)
        (fun b => b.tokens ≤ b.maxTokens) (TokenBucket.new 1000 0 0)
        raisedAtOnce
      ∧ Always Stretch.step
        (WithinRate ((TokenBucket.new 1000 0 0).refill 0).tokens)
        (start (TokenBucket.new 1000 0 0) 0) raisedAtOnce :=
  bucket_within_rate 1000 0 0 raisedAtOnce (TokenBucket.new 1000 0 0) 0
    raisedAtOnce (by decide) (by decide)

/-- A bucket that is emptied and stands still for a second at rate zero:
with a rate set after that second, it is full again at once. -/
def raisedLate : List TimedCall :=
  [⟨0, .tryConsume 1000⟩, ⟨1000, .setRate 1000 1000⟩,
    ⟨1000, .tryConsume 1000⟩]

theorem bucket_raised_late :
    ¬ ∀ (b : TokenBucket) (t : Nat) (stretch : List TimedCall),
      Along Stretch.step Forward (start b t) stretch →
      Always Stretch.step (WithinRate (b.refill t).tokens) (start b t)
        stretch := by
  intro h
  have hall := h (TokenBucket.new 1000 0 0) 0 raisedLate
    ⟨by decide, by decide, by decide, trivial⟩
  exact absurd hall.last (by decide)

end StaticNet
