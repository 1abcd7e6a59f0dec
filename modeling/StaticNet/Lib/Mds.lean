/-
Erasure codes, abstractly: a code is a set of words, and a received word
is one with holes.

# The argument

In a maximum distance separable code of `k` data symbols, any `k` known
positions tell two words of the code apart (`Mds.determined`). Whatever
fills the holes of a received word and ends in the code has then found
the word that was sent, whatever its method (`Mds.filled`).
-/
import Mathlib.Data.Finset.Card
import Mathlib.Data.Finset.Range
import Mathlib.Data.Set.Defs

namespace StaticNet

variable {S T : Type} {k n : Nat} {code : Set (List S)}
  {received : List (Option S)} {v w : List S} {kept : Finset Nat}

-- ==== received words

/-- How many symbols of a received word are known. -/
def known (received : List (Option S)) : Nat :=
  received.countP Option.isSome

/-- The known symbols are those of the word. -/
structure Agrees (received : List (Option S)) (w : List S) : Prop where
  length_eq : received.length = w.length
  symbol : ∀ (i : Nat) (s : S), received[i]? = some (some s) →
    w[i]? = some s

/-- A word of which only some positions are kept. -/
def punctured (kept : Finset Nat) (w : List S) : List (Option S) :=
  w.zipIdx.map fun e => if e.2 ∈ kept then some e.1 else none

@[simp] theorem length_punctured : (punctured kept w).length = w.length := by
  simp [punctured]

theorem getElem?_punctured (i : Nat) :
    (punctured kept w)[i]?
      = w[i]?.map fun s => if i ∈ kept then some s else none := by
  unfold punctured
  rw [List.getElem?_map, List.getElem?_zipIdx, Option.map_map]
  simp [Function.comp_def]

theorem map_punctured (f : S → T) :
    (punctured kept w).map (Option.map f) = punctured kept (w.map f) := by
  apply List.ext_getElem?
  intro i
  simp only [List.getElem?_map, getElem?_punctured, Option.map_map]
  congr 1
  funext s
  by_cases h : i ∈ kept <;> simp [h]

theorem agrees_punctured : Agrees (punctured kept w) w := by
  refine ⟨length_punctured, ?_⟩
  intro i s h
  rw [getElem?_punctured] at h
  cases hw : w[i]? with
  | none =>
      rw [hw] at h
      cases h
  | some s' =>
      rw [hw, Option.map_some] at h
      by_cases hi : i ∈ kept
      · rw [if_pos hi] at h
        exact Option.some.inj h
      · rw [if_neg hi] at h
        cases Option.some.inj h

/-- As many symbols are known as positions are kept. -/
theorem known_punctured (h : kept ⊆ Finset.range w.length) :
    known (punctured kept w) = kept.card := by
  have hfilter : ∀ l : List S, known (punctured kept l)
      = ((Finset.range l.length).filter (· ∈ kept)).card := by
    intro l
    -- the last position is the one the filter meets last
    induction l using List.reverseRecOn with
    | nil => rfl
    | append_singleton l a ih =>
        unfold known punctured at ih ⊢
        rw [List.zipIdx_append, List.map_append, List.countP_append, ih,
          List.length_append, List.length_singleton, Finset.range_add_one,
          Finset.filter_insert]
        by_cases ha : l.length ∈ kept
        · rw [if_pos ha, Finset.card_insert_of_notMem (by simp)]
          simp [ha]
        · rw [if_neg ha]
          simp [ha]
  rw [hfilter]
  congr 1
  ext i
  rw [Finset.mem_filter]
  exact ⟨fun hi => hi.2, fun hi => ⟨h hi, hi⟩⟩

/-- Known positions are counted. -/
theorem card_le_known (h : ∀ i ∈ kept, ∃ s, received[i]? = some (some s)) :
    kept.card ≤ known received := by
  have hle : ∀ (l : List (Option S)) (kept : Finset Nat),
      (∀ i ∈ kept, ∃ s, l[i]? = some (some s)) → kept.card ≤ known l := by
    intro l
    -- take the last position off, if it is among them
    induction l using List.reverseRecOn with
    | nil =>
        intro kept hkept
        have hempty : kept = ∅ := by
          rw [Finset.eq_empty_iff_forall_notMem]
          intro i hi
          obtain ⟨s, hs⟩ := hkept i hi
          cases hs
        rw [hempty]
        exact Nat.zero_le _
    | append_singleton l a ih =>
        intro kept hkept
        have hrest := ih (kept.erase l.length) (by
          intro i hi
          obtain ⟨hne, hi⟩ := Finset.mem_erase.1 hi
          obtain ⟨s, hs⟩ := hkept i hi
          have hlt : i < (l ++ [a]).length :=
            (List.getElem?_eq_some_iff.1 hs).1
          rw [List.length_append, List.length_singleton] at hlt
          rw [List.getElem?_append_left (by omega)] at hs
          exact ⟨s, hs⟩)
        unfold known at hrest ⊢
        rw [List.countP_append]
        by_cases hlast : l.length ∈ kept
        · obtain ⟨s, hs⟩ := hkept _ hlast
          rw [List.getElem?_append_right le_rfl, Nat.sub_self] at hs
          obtain rfl : a = some s := Option.some.inj hs
          rw [Finset.card_erase_of_mem hlast] at hrest
          have hone : [some s].countP Option.isSome = 1 := rfl
          rw [hone]
          omega
        · rw [Finset.erase_eq_of_notMem hlast] at hrest
          omega
  exact hle received kept h

theorem mem_of_agrees {s : S} (h : Agrees received w)
    (hs : some s ∈ received) : s ∈ w := by
  obtain ⟨i, hi⟩ := List.getElem?_of_mem hs
  exact List.mem_of_getElem? (h.symbol i s hi)

-- ============= codes

/-- Any `k` known positions determine a word of the code. -/
structure Mds (k : Nat) (code : Set (List S)) : Prop where
  determined : ∀ v ∈ code, ∀ w ∈ code, ∀ received,
    k ≤ known received → Agrees received v → Agrees received w → v = w

/-- A codeword that fits what was received is the one that was sent. -/
theorem Mds.filled (h : Mds k code) (hw : w ∈ code) (hv : v ∈ code)
    (hk : k ≤ known received) (hsent : Agrees received w)
    (hfits : Agrees received v) : v = w :=
  h.determined v hv w hw received hk hfits hsent

end StaticNet
