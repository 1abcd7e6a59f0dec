/-
A bounded memory: a set for lookups beside the queue that says which
element leaves next.

The two are written together and never compared by the code that uses
them, so that they describe one another is an invariant (`Sound`), kept
by every `push`. What such a memory promises is a distance: an element
stays until `cap` further ones have come in (`Recalls`).
-/
import Mathlib.Data.Finset.Card
import Mathlib.Data.List.Infix

namespace StaticNet

/-- What was seen, and in which order (oldest first). -/
structure Fifo (α : Type) where
  seen : Finset α
  order : List α

namespace Fifo

variable {α : Type}

def empty : Fifo α := ⟨∅, []⟩

/-- The set and the queue hold the same elements, each once and at most
`cap` of them. -/
structure Sound [DecidableEq α] (cap : Nat) (q : Fifo α) : Prop where
  nodup : q.order.Nodup
  seen_eq : q.order.toFinset = q.seen
  bounded : q.order.length ≤ cap

variable [DecidableEq α] {cap : Nat} {q : Fifo α} {a b : α}

/-- Take an element in, letting the oldest go when the set is full. One
that is there already changes nothing. -/
def push (cap : Nat) (q : Fifo α) (a : α) : Fifo α :=
  if a ∈ q.seen then q
  else
    let kept : Fifo α :=
      if cap ≤ q.seen.card then
        match q.order with
        | oldest :: rest => ⟨q.seen.erase oldest, rest⟩
        | [] => q
      else q
    ⟨insert a kept.seen, kept.order ++ [a]⟩

theorem push_of_mem (h : a ∈ q.seen) : q.push cap a = q := if_pos h

theorem push_room (hnew : a ∉ q.seen) (hroom : ¬ cap ≤ q.seen.card) :
    q.push cap a = ⟨insert a q.seen, q.order ++ [a]⟩ := by
  simp only [push, if_neg hnew, if_neg hroom]

theorem push_front {oldest : α} {rest : List α} (hnew : a ∉ q.seen)
    (hfull : cap ≤ q.seen.card) (horder : q.order = oldest :: rest) :
    q.push cap a = ⟨insert a (q.seen.erase oldest), rest ++ [a]⟩ := by
  simp only [push, if_neg hnew, if_pos hfull, horder]

/-- With nothing in the queue nothing leaves. -/
theorem push_nil (hnew : a ∉ q.seen) (horder : q.order = []) :
    q.push cap a = ⟨insert a q.seen, [a]⟩ := by
  by_cases hfull : cap ≤ q.seen.card
  · simp only [push, if_neg hnew, if_pos hfull, horder]
    rfl
  · rw [push_room hnew hfull, horder]
    rfl

theorem mem_push_self : a ∈ (q.push cap a).seen := by
  unfold push
  by_cases h : a ∈ q.seen
  · rwa [if_pos h]
  · rw [if_neg h]
    exact Finset.mem_insert_self _ _

/-- Nothing appears but what was pushed. -/
theorem mem_of_mem_push (h : b ∈ (q.push cap a).seen) :
    b ∈ q.seen ∨ b = a := by
  unfold push at h
  by_cases ha : a ∈ q.seen
  · rw [if_pos ha] at h
    exact .inl h
  · rw [if_neg ha] at h
    rcases Finset.mem_insert.1 h with h | h
    · exact .inr h
    · left
      by_cases hfull : cap ≤ q.seen.card
      · rw [if_pos hfull] at h
        cases horder : q.order with
        | nil =>
            rw [horder] at h
            exact h
        | cons oldest rest =>
            rw [horder] at h
            exact Finset.mem_of_mem_erase h
      · rwa [if_neg hfull] at h

/-- An element stays unless the memory is full and it is the oldest. -/
theorem mem_push_of_mem (h : b ∈ q.seen)
    (hkeep : cap ≤ q.seen.card → q.order.head? ≠ some b) :
    b ∈ (q.push cap a).seen := by
  unfold push
  by_cases ha : a ∈ q.seen
  · rwa [if_pos ha]
  · rw [if_neg ha]
    refine Finset.mem_insert_of_mem ?_
    by_cases hfull : cap ≤ q.seen.card
    · rw [if_pos hfull]
      cases horder : q.order with
      | nil => exact h
      | cons oldest rest =>
          have hne : some oldest ≠ some b := by
            rw [← List.head?_cons (l := rest), ← horder]
            exact hkeep hfull
          refine Finset.mem_erase.2 ⟨?_, h⟩
          rintro rfl
          exact hne rfl
    · rwa [if_neg hfull]

/-- One element more, at most. -/
theorem card_push_le (a : α) :
    (q.push cap a).seen.card ≤ q.seen.card + 1 := by
  by_cases ha : a ∈ q.seen
  · rw [push_of_mem ha]
    exact Nat.le_succ _
  · by_cases hfull : cap ≤ q.seen.card
    · cases horder : q.order with
      | nil =>
          rw [push_nil ha horder]
          exact Finset.card_insert_le _ _
      | cons oldest rest =>
          rw [push_front ha hfull horder]
          exact (Finset.card_insert_le _ _).trans
            (Nat.succ_le_succ (Finset.card_erase_le))
    · rw [push_room ha hfull]
      exact Finset.card_insert_le _ _

theorem sound_empty : Sound cap (empty : Fifo α) :=
  ⟨.nil, rfl, Nat.zero_le _⟩

namespace Sound

theorem card_seen (h : Sound cap q) : q.seen.card = q.order.length := by
  rw [← h.seen_eq, List.toFinset_card_of_nodup h.nodup]

theorem mem_seen (h : Sound cap q) : a ∈ q.seen ↔ a ∈ q.order := by
  rw [← h.seen_eq, List.mem_toFinset]

/-- A new element goes to the back, and the front leaves if the memory
was full. -/
theorem push_new (h : Sound cap q) (hcap : 0 < cap) (hnew : a ∉ q.seen) :
    (q.order.length < cap
        ∧ q.push cap a = ⟨insert a q.seen, q.order ++ [a]⟩)
      ∨ ∃ oldest rest, q.order = oldest :: rest
        ∧ cap ≤ (oldest :: rest).length
        ∧ q.push cap a
          = ⟨insert a (q.seen.erase oldest), rest ++ [a]⟩ := by
  have hcard := h.card_seen
  by_cases hfull : cap ≤ q.seen.card
  · right
    cases horder : q.order with
    | nil =>
        rw [horder, List.length_nil] at hcard
        omega
    | cons oldest rest =>
        refine ⟨oldest, rest, rfl, ?_, push_front hnew hfull horder⟩
        rw [← horder, ← hcard]
        exact hfull
  · left
    exact ⟨by omega, push_room hnew hfull⟩

theorem push (h : Sound cap q) (hcap : 0 < cap) :
    Sound cap (q.push cap a) := by
  by_cases hmem : a ∈ q.seen
  · rwa [push_of_mem hmem]
  · have hnot : a ∉ q.order := fun hin => hmem (h.mem_seen.2 hin)
    rcases h.push_new hcap hmem with
      ⟨hroom, heq⟩ | ⟨oldest, rest, horder, -, heq⟩
    · rw [heq]
      refine ⟨?_, ?_, ?_⟩
      · rw [← List.concat_eq_append]
        exact h.nodup.concat hnot
      · rw [List.toFinset_append, h.seen_eq, Finset.union_comm]
        rfl
      · rw [List.length_append]
        exact hroom
    · have hnodup := h.nodup
      have hbound := h.bounded
      have hseen := h.seen_eq
      rw [horder] at hnodup hbound hseen hnot
      rw [heq]
      refine ⟨?_, ?_, ?_⟩
      · rw [← List.concat_eq_append]
        exact hnodup.of_cons.concat
          fun hin => hnot (List.mem_cons_of_mem _ hin)
      · have hout : oldest ∉ rest.toFinset := by
          rw [List.mem_toFinset]
          exact (List.nodup_cons.1 hnodup).1
        rw [← hseen, List.toFinset_cons, Finset.erase_insert hout,
          List.toFinset_append, Finset.union_comm]
        rfl
      · rw [List.length_append]
        exact hbound

end Sound

/-- `t` is in the memory, and after it came `later`. -/
def Recalls (q : Fifo α) (t : α) (later : List α) : Prop :=
  t :: later <:+ q.order

theorem Recalls.mem {t : α} {later : List α} (h : q.Recalls t later)
    (hs : Sound cap q) : t ∈ q.seen :=
  hs.mem_seen.2 (h.subset List.mem_cons_self)

/-- What was just taken in is the newest. -/
theorem Sound.recalls_push (h : Sound cap q) (hcap : 0 < cap)
    (hnew : a ∉ q.seen) : (q.push cap a).Recalls a [] := by
  rcases h.push_new hcap hnew with ⟨-, heq⟩ | ⟨oldest, rest, -, -, heq⟩
  all_goals
    rw [heq]
    exact List.suffix_append _ _

/-- An element stays through a push while fewer than `cap` elements are
behind it. -/
theorem Recalls.push {t : α} {later : List α} (h : q.Recalls t later)
    (hs : Sound cap q) (hnew : a ∉ q.seen)
    (hlater : later.length + 1 < cap) :
    (q.push cap a).Recalls t (later ++ [a]) := by
  rcases hs.push_new (by omega) hnew with
    ⟨-, heq⟩ | ⟨oldest, rest, horder, hfull, heq⟩
  · rw [heq]
    exact List.suffix_append_self_iff.2 h
  · -- the memory is full, so what leaves is in front of `t`
    have hrest : t :: later <:+ rest := by
      unfold Recalls at h
      rw [horder] at h
      rcases List.suffix_cons_iff.1 h with hall | hrest
      · rw [← hall, List.length_cons] at hfull
        omega
      · exact hrest
    rw [heq]
    exact List.suffix_append_self_iff.2 hrest

-- ===== other changes

/-- Move an element to the back. -/
def renew (q : Fifo α) (a : α) : Fifo α :=
  ⟨q.seen, q.order.filter (fun b => b ≠ a) ++ [a]⟩

/-- Keep what a test accepts. -/
def sweep (q : Fifo α) (p : α → Bool) : Fifo α :=
  ⟨q.seen.filter fun a => p a = true, q.order.filter p⟩

/-- `a` came in, at the back, and the front left if the memory was
full. -/
def Entered (cap : Nat) (q : Fifo α) (a : α) (q' : Fifo α) : Prop :=
  (q.order.length < cap ∧ q' = ⟨insert a q.seen, q.order ++ [a]⟩)
    ∨ ∃ oldest rest, q.order = oldest :: rest
      ∧ cap ≤ (oldest :: rest).length
      ∧ q' = ⟨insert a (q.seen.erase oldest), rest ++ [a]⟩

/-- What one operation does to such a memory. -/
inductive Changes (cap : Nat) (q : Fifo α) : Fifo α → Prop
  | same : Changes cap q q
  | push (a : α) : Changes cap q (q.push cap a)
  | renew (a : α) (h : a ∈ q.seen) : Changes cap q (q.renew a)
  | sweep (p : α → Bool) : Changes cap q (q.sweep p)

theorem Sound.renew (h : Sound cap q) (ha : a ∈ q.seen) :
    Sound cap (q.renew a) := by
  have hin : a ∈ q.order := h.mem_seen.1 ha
  have hnot : a ∉ q.order.filter fun b => b ≠ a := by
    intro hmem
    exact of_decide_eq_true (List.mem_filter.1 hmem).2 rfl
  refine ⟨?_, ?_, ?_⟩
  · show (_ ++ [a]).Nodup
    rw [← List.concat_eq_append]
    exact (h.nodup.filter _).concat hnot
  · show (_ ++ [a]).toFinset = q.seen
    rw [← h.seen_eq]
    ext b
    simp only [List.mem_toFinset, List.mem_append, List.mem_filter,
      decide_eq_true_eq, List.mem_singleton]
    by_cases hb : b = a
    · simp [hb, hin]
    · simp [hb]
  · have hless : (q.order.filter fun b => b ≠ a).length < q.order.length := by
      refine List.length_filter_lt_length_iff_exists.2 ⟨a, hin, ?_⟩
      simp
    have hbound := h.bounded
    show (_ ++ [a]).length ≤ cap
    rw [List.length_append, List.length_singleton]
    omega

theorem Sound.sweep (h : Sound cap q) (p : α → Bool) :
    Sound cap (q.sweep p) := by
  refine ⟨h.nodup.filter p, ?_, ?_⟩
  · show (q.order.filter p).toFinset = q.seen.filter fun a => p a = true
    rw [← h.seen_eq, List.toFinset_filter]
  · exact (List.length_filter_le _ _).trans h.bounded

/-- Every operation keeps the memory sound, and brings nothing in but at
the back and for the front. -/
theorem Sound.changes {q' : Fifo α} (h : Sound cap q) (hcap : 0 < cap)
    (hq : Changes cap q q') :
    Sound cap q' ∧ ∀ a, a ∉ q.seen → a ∈ q'.seen → Entered cap q a q' := by
  cases hq with
  | same => exact ⟨h, fun a hout hin => absurd hin hout⟩
  | push b =>
      refine ⟨h.push hcap, fun a hout hin => ?_⟩
      obtain rfl := (mem_of_mem_push hin).resolve_left hout
      exact h.push_new hcap hout
  | renew b hb => exact ⟨h.renew hb, fun a hout hin => absurd hin hout⟩
  | sweep p =>
      exact ⟨h.sweep p, fun a hout hin =>
        absurd (Finset.mem_of_mem_filter a hin) hout⟩

/-- Dropping elements one after the other. -/
theorem foldl_sweep (l : List α) : l.foldl
      (fun q a => q.sweep fun b => b ≠ a) q = q.sweep fun b => b ∉ l := by
  induction l generalizing q with
  | nil =>
      unfold sweep
      simp
  | cons a l ih =>
      rw [List.foldl_cons, ih]
      unfold sweep
      rw [Finset.filter_filter, List.filter_filter]
      congr 1
      · refine Finset.filter_congr fun b _ => ?_
        simp
      · refine List.filter_congr fun b _ => ?_
        simp [Bool.and_comm]

-- ==== a system that has one

section Runs

variable {σ ε : Type} {step : σ → ε → σ} {view : σ → Fifo α} {s : σ}

/-- After every run the memory is sound, and whatever the next operation
brings in comes in at the back, for the front where it is full. -/
def Consistent (cap : Nat) (step : σ → ε → σ) (view : σ → Fifo α) (s : σ) :
    Prop :=
  ∀ (es : List ε) (e : ε), Sound cap (view (es.foldl step s))
    ∧ ∀ a, a ∉ (view (es.foldl step s)).seen →
      a ∈ (view (step (es.foldl step s) e)).seen →
      Entered cap (view (es.foldl step s)) a
        (view (step (es.foldl step s) e))

/-- A system whose steps change the memory by its operations only. -/
theorem consistent_of_changes (hcap : 0 < cap)
    (hstep : ∀ s e, Sound cap (view s) →
      Changes cap (view s) (view (step s e)))
    (h : Sound cap (view s)) : Consistent cap step view s := by
  intro es e
  have hrun : Sound cap (view (es.foldl step s)) := by
    induction es generalizing s with
    | nil => exact h
    | cons e es ih => exact ih (h.changes hcap (hstep s e h)).1
  exact ⟨hrun, (hrun.changes hcap (hstep _ e hrun)).2⟩

end Runs

end Fifo

end StaticNet
