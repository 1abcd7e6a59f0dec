/-
How much the connection loops of a node write in a window of time.

# What holds

Real messages are paid for out of the one bucket before they are written,
so they alone are a metered outlet: the log and the bucket are `Metered`,
and every arm of every loop keeps that (`metered_step`).

# Where it breaks

A tick asks the bucket for its cover and writes it whatever the answer is.
A cover message that the bucket does not afford goes out unpaid, and the
outlet is not metered any more. `rate_bounded` is about the runs whose cover
messages are afforded when they are written.
-/
import StaticNet.Conn.Shaper
import StaticNet.Lib.Exact
import StaticNet.Lib.Meter

namespace StaticNet

open Exact Meter Shaper

variable {P : Prims} {cfg : CoverTrafficConfig} {s : Shaper} {conn : Nat}

-- ===== what is meant

namespace Shaper

/-- In every window of `w` milliseconds at most the capacity and what `w`
milliseconds refill are written. -/
def RateBounded (cfg : CoverTrafficConfig) (s : Shaper) : Prop :=
  ∀ a w, within s.log a (a + w) ≤ cfg.cap + cfg.targetRateBps * w / 1000

/-- When the step writes a cover message the bucket affords it. -/
def CoverPaid (P : Prims) (cfg : CoverTrafficConfig) (s : Shaper) :
    ShaperEvent → Prop
  | .cover conn draws _ _ =>
      ∀ target, (s.loops conn).phase = .covering target →
        (s.loops conn).bytesThisInterval < target → cfg.enabled = true →
        (coverMessage P draws).frameSize ≤ (coverMessage P draws).maxSize →
        (coverMessage P draws).frameSize ≤ (s.bucket.refill s.now).tokens
  | _ => True

/-- The bucket is the configuration's, its clock is not ahead, and it meters
the log. -/
structure RateInv (cfg : CoverTrafficConfig) (s : Shaper) : Prop where
  max_eq : s.bucket.maxTokens = cfg.cap
  rate_eq : s.bucket.refillRate = cfg.targetRateBps
  clock : s.bucket.lastRefill ≤ s.now
  metered : Metered cfg.cap cfg.targetRateBps 1000 s.log s.bucket.tokens
    s.bucket.lastRefill

end Shaper

-- ======== the bucket

theorem refill_rate_eq (now : Nat) (b : TokenBucket) :
    (b.refill now).maxTokens = b.maxTokens
      ∧ (b.refill now).refillRate = b.refillRate := by
  unfold TokenBucket.refill
  dsimp only
  split <;> exact ⟨rfl, rfl⟩

/-- A bucket that is not ahead of the clock is refilled up to now. -/
theorem refill_clock {now : Nat} {b : TokenBucket} (h : b.lastRefill ≤ now) :
    (b.refill now).lastRefill = now := by
  unfold TokenBucket.refill
  dsimp only
  split
  · rfl
  · omega

theorem refill_metered {now : Nat} {b : TokenBucket}
    {log : List (Nat × Nat)} (hclock : b.lastRefill ≤ now)
    (h : Metered b.maxTokens b.refillRate 1000 log b.tokens b.lastRefill) :
    Metered b.maxTokens b.refillRate 1000 log (b.refill now).tokens now := by
  unfold TokenBucket.refill
  dsimp only
  split
  · refine h.refill hclock (Nat.min_le_right _ _)
      ((Nat.min_le_left _ _).trans ((Nat.min_le_left _ _).trans ?_))
    refine Nat.add_le_add_left (Nat.div_le_div_right ?_) _
    rw [Nat.mul_comm b.refillRate]
    exact Nat.min_le_left _ _
  · have heq : b.lastRefill = now := by omega
    rw [← heq]
    exact h

/-- Asking the bucket keeps it metered, and a yes pays for that many bytes
going out now. -/
theorem Shaper.RateInv.consume (h : RateInv cfg s) (bytes : Nat) :
    RateInv cfg (s.consume bytes) := by
  have hfull := refill_metered h.clock (by
    rw [h.max_eq, h.rate_eq]
    exact h.metered)
  rw [h.max_eq, h.rate_eq] at hfull
  have hrate := refill_rate_eq s.now s.bucket
  have hclock := refill_clock h.clock
  unfold Shaper.consume TokenBucket.tryConsume
  dsimp only
  split
  · refine ⟨hrate.1.trans h.max_eq, hrate.2.trans h.rate_eq, hclock.le, ?_⟩
    show Metered _ _ _ _ ((s.bucket.refill s.now).tokens - bytes)
      (s.bucket.refill s.now).lastRefill
    rw [hclock]
    exact hfull.lower (Nat.sub_le _ _)
  · refine ⟨hrate.1.trans h.max_eq, hrate.2.trans h.rate_eq, hclock.le, ?_⟩
    show Metered _ _ _ _ (s.bucket.refill s.now).tokens
      (s.bucket.refill s.now).lastRefill
    rw [hclock]
    exact hfull

theorem Shaper.RateInv.pay {bytes out : Nat} (h : RateInv cfg s)
    (hpaid : bytes ≤ (s.bucket.refill s.now).tokens) (hout : out ≤ bytes) :
    RateInv cfg ((s.consume bytes).emit out) := by
  have hfull := refill_metered h.clock (by
    rw [h.max_eq, h.rate_eq]
    exact h.metered)
  rw [h.max_eq, h.rate_eq] at hfull
  have hrate := refill_rate_eq s.now s.bucket
  have hclock := refill_clock h.clock
  unfold Shaper.emit Shaper.consume TokenBucket.tryConsume
  dsimp only
  rw [if_pos hpaid]
  refine ⟨hrate.1.trans h.max_eq, hrate.2.trans h.rate_eq, hclock.le, ?_⟩
  show Metered _ _ _ (s.log ++ [(s.now, out)])
    ((s.bucket.refill s.now).tokens - bytes)
    (s.bucket.refill s.now).lastRefill
  rw [hclock]
  exact hfull.pay hpaid hout

theorem affords_iff {bytes : Nat} :
    s.affords bytes = true ↔ bytes ≤ (s.bucket.refill s.now).tokens := by
  unfold affords TokenBucket.tryConsume
  dsimp only
  split
  · exact iff_of_true rfl ‹_›
  · exact iff_of_false (by simp) ‹_›

theorem out_le (res : WriteResult) (len : Nat) : res.out len ≤ len := by
  cases res with
  | ok => exact le_rfl
  | failed k => exact Nat.min_le_right _ _

-- ========== one step

/-- The loops are not part of the meter. -/
theorem Shaper.RateInv.put {l : ShaperLoop} (h : RateInv cfg s) :
    RateInv cfg (s.put conn l) := ⟨h.max_eq, h.rate_eq, h.clock, h.metered⟩

theorem metered_receive {msg : WireMessage} {pad : Nat → UInt8}
    {res : WriteResult} (h : RateInv cfg s) :
    RateInv cfg (s.receive conn msg pad res) := by
  unfold Shaper.receive
  cases serializeMessage pad msg with
  | error e => exact h.put
  | ok frame =>
      dsimp only
      by_cases hpaid : s.affords frame.length = true
      · rw [if_pos hpaid]
        exact (h.pay (affords_iff.1 hpaid) (out_le _ _)).put
      · rw [if_neg hpaid]
        exact (h.consume _).put

theorem metered_flushNext {target : Nat} {pad pad' : Nat → UInt8}
    {res : WriteResult} (h : RateInv cfg s) :
    RateInv cfg (s.flushNext conn target pad pad' res) := by
  unfold Shaper.flushNext
  dsimp only
  cases (s.loops conn).pendingReal with
  | nil => exact h.put
  | cons front rest =>
      dsimp only
      cases hframe : serializeMessage pad front.2 with
      | error e => exact h.put
      | ok frame =>
          dsimp only
          by_cases hpaid : s.affords frame.length = true
          · rw [if_pos hpaid]
            cases hframe' : serializeMessage pad' front.2 with
            | error e => exact (h.consume _).put
            | ok frame' =>
                -- both framings have the message's size
                have hlen : frame'.length = frame.length :=
                  (length_of_serializeMessage hframe').trans
                    (length_of_serializeMessage hframe).symm
                exact (h.pay (affords_iff.1 hpaid)
                  ((out_le _ _).trans hlen.le)).put
          · rw [if_neg hpaid]
            exact (h.consume _).put

theorem metered_cover {target : Nat} {draws : CoverDraws}
    {pad : Nat → UInt8} {res : WriteResult} (h : RateInv cfg s)
    (hphase : (s.loops conn).phase = .covering target)
    (hpaid : CoverPaid P cfg s (.cover conn draws pad res)) :
    RateInv cfg (cover P cfg s conn target draws pad res) := by
  unfold cover
  dsimp only
  by_cases hgo : 0 < target - (s.loops conn).bytesThisInterval
      ∧ cfg.enabled = true
  · rw [if_pos hgo]
    cases hframe : serializeMessage pad (coverMessage P draws) with
    | error e => exact h.put
    | ok frame =>
        have hlen := length_of_serializeMessage hframe
        have hfits : (coverMessage P draws).frameSize
            ≤ (coverMessage P draws).maxSize := by
          by_contra hlt
          obtain ⟨e, herr⟩ :=
            serializeMessage_of_lt pad (Nat.lt_of_not_le hlt)
          rw [herr] at hframe
          cases hframe
        have htokens := hpaid target hphase (by omega) hgo.2 hfits
        rw [← hlen] at htokens
        exact (h.pay htokens (out_le _ _)).put
  · rw [if_neg hgo]
    exact h.put

theorem metered_tick {peerCount : Nat} (h : RateInv cfg s) :
    RateInv cfg ({ s with
      bucket := s.bucket.setRate cfg.targetRateBps cfg.cap }.put conn
        { s.loops conn with
          phase := .flushing (targetBytes cfg peerCount) }) := by
  have hset : RateInv cfg { s with
      bucket := s.bucket.setRate cfg.targetRateBps cfg.cap } :=
    ⟨rfl, rfl, h.clock, h.metered.lower (Nat.min_le_left _ _)⟩
  exact hset.put

theorem metered_step {e : ShaperEvent} (he : CoverPaid P cfg s e)
    (h : RateInv cfg s) : RateInv cfg (step P cfg s e) := by
  obtain hsame | ⟨c, msg, pad, res, rfl, -, hstep⟩
      | ⟨c, peerCount, rfl, -, hstep⟩
      | ⟨c, target, pad, pad', res, rfl, -, hstep⟩
      | ⟨c, target, draws, pad, res, rfl, hp, hstep⟩
      | ⟨ms, rfl, hstep⟩ := step_cases P cfg s e
  · rw [hsame]
    exact h
  · rw [hstep]
    exact metered_receive h
  · rw [hstep]
    exact metered_tick h
  · rw [hstep]
    exact metered_flushNext h
  · rw [hstep]
    exact metered_cover h hp he
  · rw [hstep]
    exact ⟨h.max_eq, h.rate_eq, h.clock.trans (Nat.le_add_right _ _),
      h.metered⟩

theorem rateInv_start (cfg : CoverTrafficConfig) (now : Nat) :
    RateInv cfg (Shaper.start cfg now) := by
  refine ⟨rfl, rfl, ?_, Metered.start le_rfl⟩
  show satMul (now / 1000) 1000 ≤ now
  exact (Nat.min_le_left _ _).trans (Nat.div_mul_le_self _ _)

-- =========== the run

/-- Any number of loops, in any order of their steps and whatever they
write: when the bucket affords every cover message that is written, no
window of time sees more than the capacity and its refill. -/
theorem rate_bounded (P : Prims) (cfg : CoverTrafficConfig) (now : Nat)
    (es : List ShaperEvent)
    (h : Along (step P cfg) (CoverPaid P cfg) (Shaper.start cfg now) es) :
    Always (step P cfg) (RateBounded cfg) (Shaper.start cfg now) es :=
  (always_of_along (fun _ _ he hs => metered_step he hs) h
    (rateInv_start cfg now)).mono fun _ hs => hs.metered.window

/-- A tick's cover, written whole, is in the log. -/
theorem cover_log {target : Nat} {draws : CoverDraws} {pad : Nat → UInt8}
    (hphase : (s.loops conn).phase = .covering target)
    (htarget : (s.loops conn).bytesThisInterval < target)
    (hon : cfg.enabled = true)
    (hfits : (coverMessage P draws).frameSize
      ≤ (coverMessage P draws).maxSize) :
    (step P cfg s (.cover conn draws pad .ok)).log
      = s.log ++ [(s.now, (coverMessage P draws).frameSize)] := by
  obtain ⟨frame, hframe, hlen⟩ := serializeMessage_of_le pad hfits
  have hgo : 0 < target - (s.loops conn).bytesThisInterval
      ∧ cfg.enabled = true := ⟨by omega, hon⟩
  simp only [step, hphase, cover]
  rw [if_pos hgo, hframe, ← hlen]
  rfl

/-- Cover for a peer that is not in the table: a dummy. -/
def blankCover : CoverDraws where
  peerId := Bytes.zero 16
  table := RoutingTable.new (Bytes.zero 16)
  packet := ⟨Bytes.zero 32, Prims.someKey, fun _ => Bytes.zero 32, fun _ => 0, fun _ => 0⟩
  r1 := ⟨Bytes.zero 16, Bytes.zero 32, []⟩
  r2 := ⟨Bytes.zero 16, Bytes.zero 32, []⟩
  destination := Bytes.zero 16
  body := fun _ => 0
  dummy := fun _ => 0
  sessionId := Bytes.zero 32

theorem frameSize_blankCover (P : Prims) :
    (coverMessage P blankCover).frameSize = 6735
      ∧ (coverMessage P blankCover).frameSize
        ≤ (coverMessage P blankCover).maxSize := by
  have hfits := dummySphinxMessage_fits blankCover.dummy blankCover.sessionId
  exact ⟨frameSize_of_fits hfits, frameSize_le_of_fits hfits⟩

/-- One interval of one loop with nothing to send. -/
def quietInterval : List ShaperEvent :=
  [.tick 0 1, .flushNext 0 (fun _ => 0) (fun _ => 0) .ok,
    .cover 0 blankCover (fun _ => 0) .ok]

/-- A rate at which the bucket affords a packet. -/
def ampleCover : CoverTrafficConfig := ⟨10000, 100, true⟩

theorem rate_bounded_quietInterval :
    Always (step Prims.plain ampleCover) (RateBounded ampleCover)
      (Shaper.start ampleCover 0) quietInterval := by
  refine rate_bounded Prims.plain ampleCover 0 quietInterval
    ⟨trivial, trivial, ?_, trivial⟩
  intro target _ _ _ _
  rw [(frameSize_blankCover Prims.plain).1]
  show 6735 ≤ 20000
  decide

/-- A rate at which it does not. -/
def scantCover : CoverTrafficConfig := ⟨1000, 1000, true⟩

/-- One cover message is more than such a bucket ever holds. -/
theorem scantCover_exceeds (hlog : s.log = [])
    (hphase : (s.loops 0).phase = .covering 1000)
    (hbytes : (s.loops 0).bytesThisInterval = 0) :
    ¬ RateBounded scantCover (step Prims.plain scantCover s
        (.cover 0 blankCover (fun _ => 0) .ok)) := by
  intro h
  have hfits := frameSize_blankCover Prims.plain
  have hwindow := h s.now 0
  rw [cover_log hphase (by rw [hbytes]; decide) rfl hfits.2, hlog, hfits.1,
    within_append_in le_rfl (Nat.le_add_right _ _), within_nil] at hwindow
  exact absurd hwindow (by decide)

theorem cover_unpaid :
    ¬ Always (step Prims.plain scantCover) (RateBounded scantCover)
        (Shaper.start scantCover 0) quietInterval := by
  intro h
  obtain ⟨-, -, -, hlast⟩ := h
  exact scantCover_exceeds rfl rfl rfl hlast

end StaticNet
