/-
When a property holds all along a run, exactly.

A run is a list of events folded by a step function. `Along` asks a
condition of every step, in the state the step finds; `Always` asks a
property of every state the run passes through. When a step keeps the
property if and only if it meets the condition, a run that starts in the
property keeps it if and only if all of its steps meet the condition
(`always_iff_along`).
-/
import Mathlib.Logic.Basic

namespace StaticNet

namespace Exact

variable {σ ε : Type}

/-- Every step of the run meets the condition. -/
def Along (step : σ → ε → σ) (C : σ → ε → Prop) : σ → List ε → Prop
  | _, [] => True
  | s, e :: es => C s e ∧ Along step C (step s e) es

/-- Every state of the run has the property. -/
def Always (step : σ → ε → σ) (I : σ → Prop) : σ → List ε → Prop
  | s, [] => I s
  | s, e :: es => I s ∧ Always step I (step s e) es

/-- A run of decidable conditions is decided step by step. -/
instance decidableAlong (step : σ → ε → σ) (C : σ → ε → Prop)
    [h : ∀ s e, Decidable (C s e)] :
    ∀ s es, Decidable (Along step C s es)
  | _, [] => .isTrue trivial
  | s, e :: es =>
      have := decidableAlong step C (step s e) es
      inferInstanceAs (Decidable (C s e ∧ Along step C (step s e) es))

variable {step : σ → ε → σ} {C C' : σ → ε → Prop} {I J : σ → Prop} {s : σ}
  {es : List ε}

theorem Always.start (h : Always step I s es) : I s := by
  cases es with
  | nil => exact h
  | cons e es => exact h.1

/-- An invariant of every step holds all along. -/
theorem always_of_step (hstep : ∀ s e, J s → J (step s e)) (h : J s) :
    Always step J s es := by
  induction es generalizing s with
  | nil => exact h
  | cons e es ih => exact ⟨h, ih (hstep s e h)⟩

/-- The exactness rule, under an invariant that the steps keep as long as
the property holds. -/
theorem always_iff_along_while
    (hinv : ∀ s e, J s → I s → I (step s e) → J (step s e))
    (hstep : ∀ s e, J s → I s → (I (step s e) ↔ C s e)) (hJ : J s)
    (hI : I s) : Always step I s es ↔ Along step C s es := by
  induction es generalizing s with
  | nil => exact ⟨fun _ => trivial, fun _ => hI⟩
  | cons e es ih =>
      constructor
      · intro h
        have hI' := h.2.start
        have hJ' := hinv s e hJ hI hI'
        exact ⟨(hstep s e hJ hI).1 hI', (ih hJ' hI').1 h.2⟩
      · intro h
        have hI' := (hstep s e hJ hI).2 h.1
        have hJ' := hinv s e hJ hI hI'
        exact ⟨hI, (ih hJ' hI').2 h.2⟩

/-- The exactness rule, under an invariant that every step keeps. -/
theorem always_iff_along (hinv : ∀ s e, J s → J (step s e))
    (hstep : ∀ s e, J s → I s → (I (step s e) ↔ C s e)) (hJ : J s)
    (hI : I s) : Always step I s es ↔ Along step C s es :=
  always_iff_along_while (fun s e h _ _ => hinv s e h) hstep hJ hI

/-- The exactness rule for a run whose steps are known to meet `W`. -/
theorem always_iff_along_given {W : σ → ε → Prop}
    (hinv : ∀ s e, W s e → J s → I s → I (step s e) → J (step s e))
    (hstep : ∀ s e, W s e → J s → I s → (I (step s e) ↔ C s e))
    (hW : Along step W s es) (hJ : J s) (hI : I s) :
    Always step I s es ↔ Along step C s es := by
  induction es generalizing s with
  | nil => exact ⟨fun _ => trivial, fun _ => hI⟩
  | cons e es ih =>
      constructor
      · intro h
        have hI' := h.2.start
        have hJ' := hinv s e hW.1 hJ hI hI'
        exact ⟨(hstep s e hW.1 hJ hI).1 hI', (ih hW.2 hJ' hI').1 h.2⟩
      · intro h
        have hI' := (hstep s e hW.1 hJ hI).2 h.1
        have hJ' := hinv s e hW.1 hJ hI hI'
        exact ⟨hI, (ih hW.2 hJ' hI').2 h.2⟩

/-- The exactness rule with an obligation on each step besides. -/
theorem along_and_always_iff {A : σ → ε → Prop}
    (hstep : ∀ s e, I s → (A s e ∧ I (step s e) ↔ C s e)) (hI : I s) :
    Along step A s es ∧ Always step I s es ↔ Along step C s es := by
  induction es generalizing s with
  | nil => exact ⟨fun _ => trivial, fun _ => ⟨trivial, hI⟩⟩
  | cons e es ih =>
      constructor
      · rintro ⟨hA, hall⟩
        have hI' := hall.2.start
        have hC := (hstep s e hI).1 ⟨hA.1, hI'⟩
        exact ⟨hC, (ih hI').1 ⟨hA.2, hall.2⟩⟩
      · intro hC
        obtain ⟨hA, hI'⟩ := (hstep s e hI).2 hC.1
        obtain ⟨hrest, hall⟩ := (ih hI').2 hC.2
        exact ⟨⟨hA, hrest⟩, hI, hall⟩

/-- The rule with obligations, for steps that are known to meet `W`, under
an invariant that is kept by the steps that meet the condition. -/
theorem along_and_always_iff_given {A W : σ → ε → Prop}
    (hinv : ∀ s e, W s e → J s → C s e → J (step s e))
    (hstep : ∀ s e, W s e → J s → I s →
      (A s e ∧ I (step s e) ↔ C s e))
    (hW : Along step W s es) (hJ : J s) (hI : I s) :
    Along step A s es ∧ Always step I s es ↔ Along step C s es := by
  induction es generalizing s with
  | nil => exact ⟨fun _ => trivial, fun _ => ⟨trivial, hI⟩⟩
  | cons e es ih =>
      constructor
      · rintro ⟨hA, hall⟩
        have hI' := hall.2.start
        have hC := (hstep s e hW.1 hJ hI).1 ⟨hA.1, hI'⟩
        have hJ' := hinv s e hW.1 hJ hC
        exact ⟨hC, (ih hW.2 hJ' hI').1 ⟨hA.2, hall.2⟩⟩
      · intro hC
        obtain ⟨hA, hI'⟩ := (hstep s e hW.1 hJ hI).2 hC.1
        have hJ' := hinv s e hW.1 hJ hC.1
        obtain ⟨hrest, hall⟩ := (ih hW.2 hJ' hI').2 hC.2
        exact ⟨⟨hA, hrest⟩, hI, hall⟩

/-- Conditions that agree in the states of a run agree on it. -/
theorem along_congr (hC : ∀ s e, I s → (C s e ↔ C' s e))
    (h : Always step I s es) :
    Along step C s es ↔ Along step C' s es := by
  induction es generalizing s with
  | nil => exact Iff.rfl
  | cons e es ih => exact and_congr (hC s e h.1) (ih h.2)

/-- What a step keeps when it meets the condition, a run whose steps all
meet it keeps. -/
theorem always_of_along (hstep : ∀ s e, C s e → I s → I (step s e))
    (h : Along step C s es) (hI : I s) : Always step I s es := by
  induction es generalizing s with
  | nil => exact hI
  | cons e es ih => exact ⟨hI, ih h.2 (hstep s e h.1 hI)⟩

/-- A run meets what its steps meet and what all of its events meet. -/
theorem Along.and_forall {W : ε → Prop} (hW : ∀ e ∈ es, W e)
    (h : Along step C s es) : Along step (fun s e => W e ∧ C s e) s es := by
  induction es generalizing s with
  | nil => trivial
  | cons e es ih =>
      refine ⟨⟨hW e List.mem_cons_self, h.1⟩, ih ?_ h.2⟩
      exact fun e' he' => hW e' (List.mem_cons_of_mem _ he')

/-- A condition that events meet in every state. -/
theorem along_of_forall (h : ∀ e ∈ es, ∀ s, C s e) : Along step C s es := by
  induction es generalizing s with
  | nil => trivial
  | cons e es ih =>
      exact ⟨h e List.mem_cons_self s,
        ih fun e' he' => h e' (List.mem_cons_of_mem _ he')⟩

theorem Along.imp (h : Along step C s es) (hC : ∀ s e, C s e → C' s e) :
    Along step C' s es := by
  induction es generalizing s with
  | nil => trivial
  | cons e es ih => exact ⟨hC s e h.1, ih h.2⟩

theorem Along.and (h : Along step C s es) (h' : Along step C' s es) :
    Along step (fun s e => C s e ∧ C' s e) s es := by
  induction es generalizing s with
  | nil => trivial
  | cons e es ih => exact ⟨⟨h.1, h'.1⟩, ih h.2 h'.2⟩

theorem along_append (es' : List ε) : Along step C s (es ++ es')
    ↔ Along step C s es ∧ Along step C (es.foldl step s) es' := by
  induction es generalizing s with
  | nil => exact ⟨fun h => ⟨trivial, h⟩, fun h => h.2⟩
  | cons e es ih =>
      show C s e ∧ Along step C (step s e) (es ++ es') ↔ _
      rw [ih, ← and_assoc]
      exact Iff.rfl

/-- A condition of every step, read off the run's prefixes. -/
theorem along_iff_forall_take : Along step C s es
    ↔ ∀ n (hn : n < es.length), C ((es.take n).foldl step s) es[n] := by
  induction es generalizing s with
  | nil => exact ⟨fun _ _ hn => absurd hn (Nat.not_lt_zero _), fun _ => trivial⟩
  | cons e es ih =>
      constructor
      · rintro ⟨hfirst, hrest⟩ n hn
        cases n with
        | zero => exact hfirst
        | succ n => exact ih.1 hrest n (Nat.lt_of_succ_lt_succ hn)
      · intro h
        exact ⟨h 0 (Nat.succ_pos _),
          ih.2 fun n hn => h (n + 1) (Nat.succ_lt_succ hn)⟩

theorem Always.mono (hIJ : ∀ s, I s → J s) (h : Always step I s es) :
    Always step J s es := by
  induction es generalizing s with
  | nil => exact hIJ s h
  | cons e es ih => exact ⟨hIJ s h.1, ih h.2⟩

/-- What every state has, the last one has. -/
theorem Always.last (h : Always step I s es) : I (es.foldl step s) := by
  induction es generalizing s with
  | nil => exact h
  | cons e es ih => exact ih h.2

end Exact

end StaticNet
