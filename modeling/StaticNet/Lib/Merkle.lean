/-
Binary hash trees over a hash that does not tell leaves from nodes.

A tree has data at its leaves; the root of a leaf is the hash of its
data, the root of a node the hash of the pair of its children's roots.
A walk starts from the hash of some data and pairs it with one sibling
after the other. When no data is itself a pair and no two of the strings
that are hashed collide, a walk that ends at the root of a tree started
at one of its leaves, however long it is and whatever its siblings
(`mem_leaves_of_walk`).

# Levels

A tree can be built level by level: a level of odd length repeats its
last entry, neighbours are paired, and the loop ends at one entry
(`collapse`). Building trees and then taking the root is building roots
(`map_collapse`).
-/
import Mathlib.Data.List.Basic

namespace StaticNet

namespace Merkle

-- ============= trees

inductive Tree (D : Type) where
  | leaf (data : D)
  | node (left right : Tree D)

variable {D H : Type} (hash : D → H) (pair : H → H → D)

namespace Tree

/-- The string whose hash is the root. -/
def top : Tree D → D
  | leaf data => data
  | node l r => pair (hash l.top) (hash r.top)

def root (t : Tree D) : H := hash (t.top hash pair)

def leaves : Tree D → List D
  | leaf data => [data]
  | node l r => l.leaves ++ r.leaves

/-- The tree and everything below it. -/
def subtrees : Tree D → List (Tree D)
  | leaf data => [leaf data]
  | node l r => node l r :: (l.subtrees ++ r.subtrees)

/-- Every string that is hashed for the root. -/
def inputs (t : Tree D) : List D := t.subtrees.map (top hash pair)

theorem self_mem_subtrees (t : Tree D) : t ∈ t.subtrees := by
  cases t with
  | leaf data => exact List.mem_singleton.2 rfl
  | node l r => exact List.mem_cons_self

/-- What is below a subtree is below the tree. -/
theorem subtrees_trans {s t u : Tree D} (hst : s ∈ t.subtrees)
    (htu : t ∈ u.subtrees) : s ∈ u.subtrees := by
  induction u with
  | leaf data =>
      rw [subtrees, List.mem_singleton] at htu
      rw [← htu]
      exact hst
  | node l r ihl ihr =>
      rw [subtrees, List.mem_cons, List.mem_append] at htu
      rcases htu with htu | htu | htu
      · rw [← htu]
        exact hst
      · exact List.mem_cons_of_mem _ (List.mem_append_left _ (ihl htu))
      · exact List.mem_cons_of_mem _ (List.mem_append_right _ (ihr htu))

theorem left_mem {l r t : Tree D} (h : node l r ∈ t.subtrees) :
    l ∈ t.subtrees := by
  refine subtrees_trans ?_ h
  exact List.mem_cons_of_mem _
    (List.mem_append_left _ l.self_mem_subtrees)

theorem right_mem {l r t : Tree D} (h : node l r ∈ t.subtrees) :
    r ∈ t.subtrees := by
  refine subtrees_trans ?_ h
  exact List.mem_cons_of_mem _
    (List.mem_append_right _ r.self_mem_subtrees)

theorem leaf_mem_subtrees {data : D} {t : Tree D} :
    leaf data ∈ t.subtrees ↔ data ∈ t.leaves := by
  induction t with
  | leaf d => simp [subtrees, leaves]
  | node l r ihl ihr => simp [subtrees, leaves, ihl, ihr]

end Tree

-- ============= walks

/-- One step up: the sibling and the side it stands on. -/
inductive Step (H : Type) where
  | left (sibling : H)
  | right (sibling : H)

/-- The string hashed by a step. -/
def Step.input (current : H) : Step H → D
  | .left sibling => pair sibling current
  | .right sibling => pair current sibling

/-- Where a walk ends. -/
def walk : H → List (Step H) → H
  | current, [] => current
  | current, s :: rest => walk (hash (s.input pair current)) rest

/-- The strings a walk hashes. -/
def walked : H → List (Step H) → List D
  | _, [] => []
  | current, s :: rest =>
      s.input pair current
        :: walked (hash (s.input pair current)) rest

/-- No two of the strings have one hash. -/
def CollisionFree (inputs : List D) : Prop :=
  ∀ a ∈ inputs, ∀ b ∈ inputs, hash a = hash b → a = b

variable {hash pair}

theorem CollisionFree.mono {l l' : List D} (hsub : ∀ a ∈ l', a ∈ l)
    (h : CollisionFree hash l) : CollisionFree hash l' :=
  fun a ha b hb heq => h a (hsub a ha) b (hsub b hb) heq

section Soundness

variable {t : Tree D}
  (hpair : ∀ a b a' b', pair a b = pair a' b' → a = a' ∧ b = b')
  (hleaf : ∀ data ∈ t.leaves, ∀ a b, data ≠ pair a b)
include hpair hleaf

/-- A walk that ends at the root passed only through roots of
subtrees. -/
theorem walk_from_subtree {current : H} {steps : List (Step H)}
    (hfree : CollisionFree hash
      (t.inputs hash pair ++ walked hash pair current steps))
    (h : walk hash pair current steps = t.root hash pair) :
    ∃ s ∈ t.subtrees, current = s.root hash pair := by
  induction steps generalizing current with
  | nil => exact ⟨t, t.self_mem_subtrees, h⟩
  | cons step rest ih =>
      rw [walked] at hfree
      obtain ⟨s, hs, hroot⟩ := ih (hfree.mono (by simp; tauto)) h
      have htop : s.top hash pair ∈ t.inputs hash pair :=
        List.mem_map_of_mem hs
      -- the step hashed what the subtree's root hashes
      have hinput : step.input pair current = s.top hash pair :=
        hfree _ (by simp) _ (by simp [htop]) hroot
      cases s with
      | leaf data =>
          have hmem := Tree.leaf_mem_subtrees.1 hs
          cases step with
          | left sibling => exact absurd hinput.symm (hleaf _ hmem _ _)
          | right sibling => exact absurd hinput.symm (hleaf _ hmem _ _)
      | node l r =>
          cases step with
          | left sibling =>
              exact ⟨r, Tree.right_mem hs, (hpair _ _ _ _ hinput).2⟩
          | right sibling =>
              exact ⟨l, Tree.left_mem hs, (hpair _ _ _ _ hinput).1⟩

/-- A walk that ends at the root started at a leaf. -/
theorem mem_leaves_of_walk {data : D} {steps : List (Step H)}
    (hdata : ∀ a b, data ≠ pair a b)
    (hfree : CollisionFree hash
      (t.inputs hash pair ++ data
        :: walked hash pair (hash data) steps))
    (h : walk hash pair (hash data) steps = t.root hash pair) :
    data ∈ t.leaves := by
  obtain ⟨s, hs, hroot⟩ := walk_from_subtree hpair hleaf
    (hfree.mono (by simp; tauto)) h
  have htop : s.top hash pair ∈ t.inputs hash pair :=
    List.mem_map_of_mem hs
  have hinput : data = s.top hash pair :=
    hfree _ (by simp) _ (by simp [htop]) hroot
  cases s with
  | leaf d =>
      rw [hinput]
      exact Tree.leaf_mem_subtrees.1 hs
  | node l r => exact absurd hinput (hdata _ _)

end Soundness

-- ============ levels

section Levels

variable {α β : Type}

/-- A level with its last entry doubled when its length is odd. -/
def even (level : List α) : List α :=
  if level.length % 2 = 1 then level ++ level.getLast?.toList else level

/-- Neighbours combined. -/
def pairUp (f : α → α → α) : List α → List α
  | a :: b :: rest => f a b :: pairUp f rest
  | _ => []

/-- Level after level until one entry is left. Every level is shorter
than the one below, so the length of the first bounds the loop. -/
def collapse (f : α → α → α) : Nat → List α → List α
  | 0, level => level
  | n + 1, level =>
      if 1 < level.length then collapse f n (pairUp f (even level))
      else level

theorem length_even (level : List α) :
    (even level).length = (level.length + 1) / 2 * 2 := by
  rw [even]
  by_cases hodd : level.length % 2 = 1
  · have hne : level ≠ [] := by
      intro h
      rw [h] at hodd
      cases hodd
    rw [if_pos hodd, List.length_append, List.getLast?_eq_some_getLast hne]
    simp only [Option.toList_some, List.length_singleton]
    omega
  · rw [if_neg hodd]
    omega

/-- Doubling the last entry changes nothing before it. -/
theorem getElem?_even {level : List α} {i : Nat} (h : i < level.length) :
    (even level)[i]? = level[i]? := by
  rw [even]
  by_cases hodd : level.length % 2 = 1
  · rw [if_pos hodd, List.getElem?_append_left h]
  · rw [if_neg hodd]

theorem length_pairUp (f : α → α → α) (l : List α) :
    (pairUp f l).length = l.length / 2 := by
  induction l using pairUp.induct with
  | case1 a b rest ih =>
      simp only [pairUp, List.length_cons, ih]
      omega
  | case2 l h =>
      rcases l with _ | ⟨a, _ | ⟨b, rest⟩⟩
      · simp [pairUp]
      · simp [pairUp]
      · exact absurd rfl (h a b rest)

/-- An entry of the next level combines the two below it. -/
theorem getElem?_pairUp {f : α → α → α} {l : List α} {i : Nat} {a b : α}
    (ha : l[2 * i]? = some a) (hb : l[2 * i + 1]? = some b) :
    (pairUp f l)[i]? = some (f a b) := by
  induction i generalizing l with
  | zero =>
      rcases l with _ | ⟨x, _ | ⟨y, rest⟩⟩
      · cases ha
      · cases hb
      · cases ha
        cases hb
        rfl
  | succ i ih =>
      rcases l with _ | ⟨x, _ | ⟨y, rest⟩⟩
      · cases ha
      · cases hb
      · rw [show 2 * (i + 1) = 2 * i + 1 + 1 from by omega] at ha hb
        simp only [List.getElem?_cons_succ] at ha hb
        rw [pairUp, List.getElem?_cons_succ]
        exact ih ha hb

theorem map_even (g : α → β) (level : List α) :
    (even level).map g = even (level.map g) := by
  rw [even, even, List.length_map]
  by_cases hodd : level.length % 2 = 1
  · rw [if_pos hodd, if_pos hodd, List.map_append, List.getLast?_map]
    cases level.getLast? with
    | none => rfl
    | some a => rfl
  · rw [if_neg hodd, if_neg hodd]

section Map

variable {f : α → α → α} {f' : β → β → β} {g : α → β}
  (hg : ∀ a b, g (f a b) = f' (g a) (g b))
include hg

theorem map_pairUp (l : List α) :
    (pairUp f l).map g = pairUp f' (l.map g) := by
  induction l using pairUp.induct with
  | case1 a b rest ih =>
      simp only [pairUp, List.map_cons, hg, ih]
  | case2 l h =>
      rcases l with _ | ⟨a, _ | ⟨b, rest⟩⟩
      · rfl
      · rfl
      · exact absurd rfl (h a b rest)

/-- A map that respects combining respects the whole loop. -/
theorem map_collapse (n : Nat) (level : List α) :
    (collapse f n level).map g = collapse f' n (level.map g) := by
  induction n generalizing level with
  | zero => rfl
  | succ n ih =>
      rw [collapse, collapse, List.length_map]
      by_cases hlen : 1 < level.length
      · rw [if_pos hlen, if_pos hlen, ih, map_pairUp hg, map_even]
      · rw [if_neg hlen, if_neg hlen]

end Map

/-- The loop ends at one entry. -/
theorem length_collapse {f : α → α → α} {n : Nat} {level : List α}
    (hpos : 0 < level.length) (hn : level.length ≤ n) :
    (collapse f n level).length = 1 := by
  induction n generalizing level with
  | zero => omega
  | succ n ih =>
      rw [collapse]
      by_cases hlen : 1 < level.length
      · rw [if_pos hlen]
        apply ih
        · rw [length_pairUp, length_even]
          omega
        · rw [length_pairUp, length_even]
          omega
      · rw [if_neg hlen]
        omega

/-- What holds of every entry and is kept by combining holds of what is
left. -/
theorem collapse_forall {f : α → α → α} {p : α → Prop}
    (hf : ∀ a b, p a → p b → p (f a b)) (n : Nat) {level : List α}
    (h : ∀ a ∈ level, p a) : ∀ a ∈ collapse f n level, p a := by
  have hpairs : ∀ l : List α, (∀ a ∈ l, p a) →
      ∀ a ∈ pairUp f l, p a := by
    intro l
    induction l using pairUp.induct with
    | case1 a b rest ih =>
        intro hl x hx
        rw [pairUp, List.mem_cons] at hx
        rcases hx with rfl | hx
        · exact hf _ _ (hl a (by simp)) (hl b (by simp))
        · exact ih (fun y hy => hl y (by simp [hy])) x hx
    | case2 l hne =>
        rcases l with _ | ⟨a, _ | ⟨b, rest⟩⟩
        · intro _ x hx
          cases hx
        · intro _ x hx
          cases hx
        · exact absurd rfl (hne a b rest)
  induction n generalizing level with
  | zero => exact h
  | succ n ih =>
      rw [collapse]
      by_cases hlen : 1 < level.length
      · rw [if_pos hlen]
        refine ih (hpairs _ ?_)
        intro a ha
        rw [even] at ha
        by_cases hodd : level.length % 2 = 1
        · rw [if_pos hodd, List.mem_append, Option.mem_toList] at ha
          rcases ha with ha | ha
          · exact h a ha
          · exact h a (List.mem_of_getLast? ha)
        · rw [if_neg hodd] at ha
          exact h a ha
      · rw [if_neg hlen]
        exact h

end Levels

end Merkle

end StaticNet
