/-
A metered outlet: what it let out and when, against a level that is paid
from and refilled with time.

The level never exceeds the burst and grows by `rate` per `per` units of
time, rounded down at every refill. `Metered` ties it to the log: since any
time, what went out and what is left is at most the burst and what time has
brought. Refilling and paying keep it (`Metered.refill`, `Metered.pay`), and
it bounds what any window of time saw (`Metered.window`).
-/
import Mathlib.Order.Nat

namespace StaticNet

namespace Meter

/-- What went out from time `a` to time `b`, both included. -/
def within : List (Nat × Nat) → Nat → Nat → Nat
  | [], _, _ => 0
  | x :: log, a, b =>
      (if a ≤ x.1 ∧ x.1 ≤ b then x.2 else 0) + within log a b

variable {log : List (Nat × Nat)}
  {a b t n m burst rate per level last now : Nat}

@[simp] theorem within_nil : within [] a b = 0 := rfl

theorem within_snoc : within (log ++ [(t, n)]) a b
    = within log a b + if a ≤ t ∧ t ≤ b then n else 0 := by
  induction log with
  | nil => exact Nat.add_comm _ _
  | cons x log ih =>
      rw [List.cons_append, within, within, ih]
      omega

theorem within_append_in (ha : a ≤ t) (hb : t ≤ b) :
    within (log ++ [(t, n)]) a b = within log a b + n := by
  rw [within_snoc, if_pos ⟨ha, hb⟩]

theorem within_append_out (h : ¬ (a ≤ t ∧ t ≤ b)) :
    within (log ++ [(t, n)]) a b = within log a b := by
  rw [within_snoc, if_neg h, Nat.add_zero]

/-- A window that ends after the last entry sees no more for being
longer. -/
theorem within_of_le (hlog : ∀ x ∈ log, x.1 ≤ last) (h : last ≤ b) :
    within log a b = within log a last := by
  induction log with
  | nil => rfl
  | cons x log ih =>
      have hle := hlog x List.mem_cons_self
      have hiff : (a ≤ x.1 ∧ x.1 ≤ b) ↔ a ≤ x.1 ∧ x.1 ≤ last :=
        ⟨fun hx => ⟨hx.1, hle⟩, fun hx => ⟨hx.1, hx.2.trans h⟩⟩
      rw [within, within, ih fun y hy => hlog y (List.mem_cons_of_mem _ hy)]
      simp only [hiff]

/-- Nothing is seen after the last entry. -/
theorem within_after (hlog : ∀ x ∈ log, x.1 ≤ last) (h : last < a) :
    within log a b = 0 := by
  induction log with
  | nil => rfl
  | cons x log ih =>
      have hle := hlog x List.mem_cons_self
      rw [within, ih fun y hy => hlog y (List.mem_cons_of_mem _ hy),
        if_neg (by omega)]

/-- The log against the level. `last` is the time of the last refill. -/
structure Metered (burst rate per : Nat) (log : List (Nat × Nat))
    (level last : Nat) : Prop where
  level_le : level ≤ burst
  log_le : ∀ x ∈ log, x.1 ≤ last
  since_le : ∀ a, a ≤ last →
    within log a last + level ≤ burst + rate * (last - a) / per
  window : ∀ a w, within log a (a + w) ≤ burst + rate * w / per

/-- Before anything went out. -/
theorem Metered.start (h : level ≤ burst) :
    Metered burst rate per [] level last := by
  refine ⟨h, by simp, fun a _ => ?_, by simp⟩
  rw [within_nil, Nat.zero_add]
  exact h.trans (Nat.le_add_right _ _)

/-- Two refills bring no more than one over the whole time. -/
theorem refills_le (rate per : Nat) (ha : a ≤ last) (hnow : last ≤ now) :
    rate * (last - a) / per + rate * (now - last) / per
      ≤ rate * (now - a) / per := by
  have hsum : rate * (now - a) = rate * (last - a) + rate * (now - last) := by
    rw [← Nat.mul_add]
    congr 1
    omega
  rw [hsum]
  exact Nat.div_add_div_le_add_div

/-- A refill up to the burst. -/
theorem Metered.refill
    (h : Metered burst rate per log level last) (hnow : last ≤ now)
    (hburst : n ≤ burst)
    (hn : n ≤ level + rate * (now - last) / per) :
    Metered burst rate per log n now := by
  refine ⟨hburst, fun x hx => (h.log_le x hx).trans hnow, ?_, h.window⟩
  intro a ha
  by_cases hlast : a ≤ last
  · have hsince := h.since_le a hlast
    have hsum := refills_le rate per hlast hnow
    rw [within_of_le h.log_le hnow]
    omega
  · rw [within_after h.log_le (by omega), Nat.zero_add]
    exact hburst.trans (Nat.le_add_right _ _)

/-- Paying at the time of the refill, for no more than goes out. -/
theorem Metered.pay (h : Metered burst rate per log level last)
    (hpaid : n ≤ level) (hout : m ≤ n) :
    Metered burst rate per (log ++ [(last, m)]) (level - n) last := by
  have hlevel := h.level_le
  refine ⟨by omega, ?_, ?_, ?_⟩
  · intro x hx
    rcases List.mem_append.1 hx with hx | hx
    · exact h.log_le x hx
    · rw [List.mem_singleton.1 hx]
  · intro a ha
    have hsince := h.since_le a ha
    rw [within_append_in ha le_rfl]
    omega
  · intro a w
    by_cases hin : a ≤ last ∧ last ≤ a + w
    · have hsince := h.since_le a hin.1
      have hmono : rate * (last - a) / per ≤ rate * w / per :=
        Nat.div_le_div_right (Nat.mul_le_mul_left _ (by omega))
      rw [within_append_in hin.1 hin.2, within_of_le h.log_le hin.2]
      omega
    · rw [within_append_out hin]
      exact h.window a w

/-- Paying without anything going out. -/
theorem Metered.lower (h : Metered burst rate per log level last)
    (hn : n ≤ level) : Metered burst rate per log n last := by
  have hlevel := h.level_le
  refine ⟨by omega, h.log_le, fun a ha => ?_, h.window⟩
  have hsince := h.since_le a ha
  omega

end Meter

end StaticNet
