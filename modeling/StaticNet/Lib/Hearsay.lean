/-
Knowledge that is passed on: each of some parties knows a set of things,
says a part of what it knows in a message, and learns what it hears.

Messages stay: each can be heard by anyone at any time, more than once, or
never. So a party only ever learns more, and a thing comes along every chain
of messages that say it, whoever else says and hears what in between
(`Passes.known`).
-/
import Mathlib.Data.Finset.Basic
import Mathlib.Data.Finset.Lattice.Basic
import Mathlib.Logic.Function.Basic

namespace StaticNet

/-- What each party knows, and what was said so far. -/
structure Hearsay (ι α : Type) where
  known : ι → Finset α
  said : List (Finset α)

namespace Hearsay

variable {ι α : Type} [DecidableEq ι] [DecidableEq α]

inductive Tale (ι α : Type)
  | learn (a : ι) (x : α)
  | say (a : ι) (part : Finset α)
  | hear (i : ℕ) (b : ι)
  | idle

/-- Nothing is said but what is known. -/
def step (h : Hearsay ι α) : Tale ι α → Hearsay ι α
  | .learn a x =>
      { h with known := Function.update h.known a (insert x (h.known a)) }
  | .say a part => { h with said := h.said ++ [h.known a ∩ part] }
  | .hear i b =>
      match h.said[i]? with
      | none => h
      | some s =>
          { h with known := Function.update h.known b (h.known b ∪ s) }
  | .idle => h

def run (h : Hearsay ι α) (ts : List (Tale ι α)) : Hearsay ι α :=
  ts.foldl step h

variable {h : Hearsay ι α} {ts : List (Tale ι α)} {x : α}

theorem known_step (h : Hearsay ι α) (t : Tale ι α) (a : ι) :
    h.known a ⊆ (h.step t).known a := by
  have hupdate : ∀ (b : ι) (s : Finset α), h.known b ⊆ s →
      h.known a ⊆ Function.update h.known b s a := by
    intro b s hs
    by_cases hab : a = b
    · subst hab
      rw [Function.update_self]
      exact hs
    · rw [Function.update_of_ne hab]
  cases t with
  | learn b y => exact hupdate b _ (Finset.subset_insert _ _)
  | say b part => exact Finset.Subset.refl _
  | hear i b =>
      unfold step
      dsimp only
      split
      · exact Finset.Subset.refl _
      · exact hupdate b _ Finset.subset_union_left
  | idle => exact Finset.Subset.refl _

/-- What is known stays known. -/
theorem known_run (h : Hearsay ι α) (ts : List (Tale ι α)) (a : ι) :
    h.known a ⊆ (h.run ts).known a := by
  induction ts generalizing h with
  | nil => exact Finset.Subset.refl _
  | cons t ts ih => exact (known_step h t a).trans (ih (h.step t))

theorem said_step (h : Hearsay ι α) (t : Tale ι α) :
    h.said <+: (h.step t).said := by
  cases t with
  | learn b y => exact List.prefix_refl _
  | say b part => exact List.prefix_append _ _
  | hear i b =>
      unfold step
      dsimp only
      split
      · exact List.prefix_refl _
      · exact List.prefix_refl _
  | idle => exact List.prefix_refl _

/-- What was said stays said. -/
theorem said_run (h : Hearsay ι α) (ts : List (Tale ι α)) :
    h.said <+: (h.run ts).said := by
  induction ts generalizing h with
  | nil => exact List.prefix_refl _
  | cons t ts ih => exact (said_step h t).trans (ih (h.step t))

-- ======== the chains

theorem run_take_le (h : Hearsay ι α) (ts : List (Tale ι α)) {m n : ℕ}
    (hle : m ≤ n) :
    h.run (ts.take n) = (h.run (ts.take m)).run ((ts.take n).drop m) := by
  have hfirst : (ts.take n).take m = ts.take m := by
    rw [List.take_take, Nat.min_eq_left hle]
  have hsplit := List.take_append_drop m (ts.take n)
  rw [hfirst] at hsplit
  unfold run
  rw [← List.foldl_append, hsplit]

theorem run_take_succ (h : Hearsay ι α) {t : Tale ι α} {k : ℕ}
    (hk : ts[k]? = some t) :
    h.run (ts.take (k + 1)) = (h.run (ts.take k)).step t := by
  unfold run
  rw [List.take_add_one, hk, List.foldl_append]
  rfl

/-- A thing passes from `a`, after the first `m` tales, to another party
after some more: it is said by one that has it, and that message is heard
later. -/
inductive Passes (h : Hearsay ι α) (ts : List (Tale ι α)) (x : α) (a : ι)
    (m : ℕ) : ι → ℕ → Prop
  | here : Passes h ts x a m a m
  | later {b : ι} {n n' : ℕ} : Passes h ts x a m b n → n ≤ n' →
      Passes h ts x a m b n'
  | told {b c : ι} {n j : ℕ} {part : Finset α} : Passes h ts x a m b n →
      ts[n]? = some (.say b part) → x ∈ part → n < j →
      ts[j]? = some (.hear (h.run (ts.take n)).said.length c) →
      Passes h ts x a m c (j + 1)

/-- Along a chain, what the first knew the last one knows. -/
theorem Passes.known {a b : ι} {m n : ℕ} (hp : Passes h ts x a m b n)
    (hx : x ∈ (h.run (ts.take m)).known a) :
    x ∈ (h.run (ts.take n)).known b := by
  induction hp with
  | here => exact hx
  | later _ hle ih =>
      rw [run_take_le h ts hle]
      exact known_run _ _ _ ih
  | @told b c n j part _ hsay hpart hlt hhear ih =>
      have hsaid : (h.run (ts.take (n + 1))).said
          = (h.run (ts.take n)).said
            ++ [(h.run (ts.take n)).known b ∩ part] := by
        rw [run_take_succ h hsay]
        rfl
      have hkept : (h.run (ts.take j)).said[(h.run (ts.take n)).said.length]?
          = some ((h.run (ts.take n)).known b ∩ part) := by
        have hsaid_run := said_run (h.run (ts.take (n + 1)))
          ((ts.take j).drop (n + 1))
        rw [← run_take_le h ts hlt, hsaid] at hsaid_run
        obtain ⟨later, hlater⟩ := hsaid_run
        rw [← hlater, List.append_assoc, List.singleton_append,
          List.getElem?_append_right le_rfl, Nat.sub_self]
        rfl
      rw [run_take_succ h hhear]
      unfold step
      dsimp only
      rw [hkept]
      dsimp only
      rw [Function.update_self]
      exact Finset.mem_union_right _ (Finset.mem_inter.2 ⟨ih, hpart⟩)

end Hearsay

end StaticNet
