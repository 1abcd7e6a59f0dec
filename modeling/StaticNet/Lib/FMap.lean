/-
Finite maps in the shape a program's hash table has: a finite key set,
a partial lookup, and the field that ties the two together. Equality is
extensional (two maps with the same lookups are equal), lookups reduce
by `if`, and sizes and totals are `Finset` sums, so conservation
arguments over "the sum of a field over all entries" are arithmetic.

# Iteration order

A hash table yields its entries in an order the program neither chooses
nor knows. `IterOrder` is that order as a parameter: an enumeration of
every finite key set, without repetition and without omission. A
function that takes "the first entry that matches" takes an `IterOrder`;
a theorem that quantifies over it covers every hasher and every
insertion history.
-/
import StaticNet.Lib.Bytes
import Mathlib.Algebra.BigOperators.Group.Finset.Basic
import Mathlib.Data.Finset.Basic
import Mathlib.Data.Fintype.Basic
import Mathlib.Data.List.Sort

namespace StaticNet

universe u v

-- ========== the maps

/-- A finite map: the lookup is defined exactly on the key set. -/
@[ext (iff := false)]
structure FMap (K : Type u) (V : Type v) where
  keys : Finset K
  get : K → Option V
  mem_keys : ∀ k, k ∈ keys ↔ (get k).isSome = true

namespace FMap

variable {K : Type u} {V : Type v}

/-- Lookups determine the map: the key set is where they are defined. -/
theorem ext_get {m m' : FMap K V} (h : ∀ k, m.get k = m'.get k) :
    m = m' := by
  apply FMap.ext
  · ext k
    rw [m.mem_keys, m'.mem_keys, h]
  · exact funext h

/-- The map with no entries. -/
def empty : FMap K V where
  keys := ∅
  get := fun _ => none
  mem_keys := by simp

instance : EmptyCollection (FMap K V) := ⟨empty⟩

instance : Inhabited (FMap K V) := ⟨empty⟩

/-- Keep the entries a predicate accepts. -/
def retain (m : FMap K V) (p : K → V → Bool) : FMap K V where
  keys := m.keys.filter fun k => ((m.get k).any (p k)) = true
  get := fun k => (m.get k).filter (p k)
  mem_keys := by
    intro k
    rw [Finset.mem_filter, m.mem_keys]
    cases h : m.get k with
    | none => simp
    | some w => cases hp : p k w <;> simp [hp]

/-- Number of entries. -/
def len (m : FMap K V) : Nat := m.keys.card

/-- Is the key present? -/
def contains (m : FMap K V) (k : K) : Bool := (m.get k).isSome

/-- The measure of the entry at one key, zero when there is none. -/
def weightAt (m : FMap K V) (f : V → Nat) (k : K) : Nat :=
  ((m.get k).map f).getD 0

/-- The total of a measure over all entries. -/
def sumBy (m : FMap K V) (f : V → Nat) : Nat :=
  m.keys.sum (m.weightAt f)

@[simp] theorem get_empty (k : K) : (∅ : FMap K V).get k = none := rfl

@[simp] theorem keys_empty : (∅ : FMap K V).keys = ∅ := rfl

theorem get_retain (m : FMap K V) (p : K → V → Bool) (k : K) :
    (m.retain p).get k = (m.get k).filter (p k) := rfl

@[simp] theorem contains_eq_true (m : FMap K V) (k : K) :
    m.contains k = true ↔ ∃ v, m.get k = some v := by
  rw [contains, Option.isSome_iff_exists]

theorem contains_eq_false (m : FMap K V) (k : K) :
    m.contains k = false ↔ k ∉ m.keys := by
  rw [m.mem_keys, contains, Bool.not_eq_true]

/-- A present key is one the lookup is defined at. -/
theorem mem_keys_iff (m : FMap K V) (k : K) :
    k ∈ m.keys ↔ ∃ v, m.get k = some v := by
  rw [m.mem_keys, Option.isSome_iff_exists]

theorem mem_keys_of_get {m : FMap K V} {k : K} {v : V}
    (h : m.get k = some v) : k ∈ m.keys :=
  (m.mem_keys_iff k).mpr ⟨v, h⟩

@[simp] theorem sumBy_empty (f : V → Nat) :
    (∅ : FMap K V).sumBy f = 0 := rfl

@[simp] theorem len_empty : (∅ : FMap K V).len = 0 := rfl

theorem weightAt_of_get {m : FMap K V} {f : V → Nat} {k : K} {v : V}
    (h : m.get k = some v) : m.weightAt f k = f v := by
  simp [weightAt, h]

theorem weightAt_of_none {m : FMap K V} {f : V → Nat} {k : K}
    (h : m.get k = none) : m.weightAt f k = 0 := by
  simp [weightAt, h]

/-- The total over any set that has all the keys. -/
theorem sumBy_of_subset {m : FMap K V} {keys : Finset K}
    (h : m.keys ⊆ keys) (f : V → Nat) :
    m.sumBy f = keys.sum (m.weightAt f) := by
  refine Finset.sum_subset h fun k _ hk => weightAt_of_none ?_
  rwa [m.mem_keys, Option.not_isSome_iff_eq_none] at hk

-- =========== updates

variable [DecidableEq K]

/-- Insert or overwrite one entry. -/
def insert (m : FMap K V) (k : K) (v : V) : FMap K V where
  keys := Insert.insert k m.keys
  get := fun k' => if k' = k then some v else m.get k'
  mem_keys := by
    intro k'
    by_cases h : k' = k
    · simp [h]
    · simp [h, m.mem_keys]

/-- Drop one entry; a no-op when the key is absent. -/
def erase (m : FMap K V) (k : K) : FMap K V where
  keys := m.keys.erase k
  get := fun k' => if k' = k then none else m.get k'
  mem_keys := by
    intro k'
    by_cases h : k' = k
    · simp [h]
    · simp [h, m.mem_keys]

/-- Update one entry in place; a no-op when the key is absent. -/
def modify (m : FMap K V) (k : K) (f : V → V) : FMap K V where
  keys := m.keys
  get := fun k' => if k' = k then (m.get k').map f else m.get k'
  mem_keys := by
    intro k'
    by_cases h : k' = k
    · simp [h, m.mem_keys]
    · simp [h, m.mem_keys]

-- =========== lookups

@[simp] theorem get_insert_self (m : FMap K V) (k : K) (v : V) :
    (m.insert k v).get k = some v := if_pos rfl

theorem get_insert (m : FMap K V) (k k' : K) (v : V) :
    (m.insert k v).get k' = if k' = k then some v else m.get k' := rfl

theorem get_insert_ne (m : FMap K V) {k k' : K} (v : V) (h : k' ≠ k) :
    (m.insert k v).get k' = m.get k' := if_neg h

@[simp] theorem get_erase_self (m : FMap K V) (k : K) :
    (m.erase k).get k = none := if_pos rfl

theorem get_erase (m : FMap K V) (k k' : K) :
    (m.erase k).get k' = if k' = k then none else m.get k' := rfl

theorem get_erase_ne (m : FMap K V) {k k' : K} (h : k' ≠ k) :
    (m.erase k).get k' = m.get k' := if_neg h

theorem get_modify (m : FMap K V) (k k' : K) (f : V → V) :
    (m.modify k f).get k'
      = if k' = k then (m.get k').map f else m.get k' := rfl

@[simp] theorem get_modify_self (m : FMap K V) (k : K) (f : V → V) :
    (m.modify k f).get k = (m.get k).map f := if_pos rfl

theorem get_modify_ne (m : FMap K V) {k k' : K} (f : V → V)
    (h : k' ≠ k) : (m.modify k f).get k' = m.get k' := if_neg h

/-- Overwriting an entry with what it already holds changes nothing. -/
theorem insert_get {m : FMap K V} {k : K} {v : V}
    (h : m.get k = some v) : m.insert k v = m := by
  apply ext_get
  intro k'
  rw [get_insert]
  split
  next e => rw [e, h]
  next => rfl

/-- The second of two insertions at one key wins. -/
theorem insert_insert (m : FMap K V) (k : K) (v w : V) :
    (m.insert k v).insert k w = m.insert k w := by
  apply ext_get
  intro k'
  simp only [get_insert]
  split
  · rfl
  · rfl

/-- Erasing an absent key changes nothing. -/
theorem erase_of_get_none {m : FMap K V} {k : K}
    (h : m.get k = none) : m.erase k = m := by
  apply ext_get
  intro k'
  rw [get_erase]
  split
  next e => rw [e, h]
  next => rfl

/-- Updating an absent key changes nothing. -/
theorem modify_of_get_none {m : FMap K V} {k : K} {f : V → V}
    (h : m.get k = none) : m.modify k f = m := by
  apply ext_get
  intro k'
  rw [get_modify]
  split
  next e => rw [e, h]; rfl
  next => rfl

-- ============= sizes

@[simp] theorem len_modify (m : FMap K V) (k : K) (f : V → V) :
    (m.modify k f).len = m.len := rfl

/-- Overwriting an entry adds none. -/
theorem len_insert_of_contains {m : FMap K V} {k : K} (v : V)
    (h : m.contains k = true) : (m.insert k v).len = m.len :=
  Finset.card_insert_of_mem ((m.mem_keys k).2 h)

theorem len_insert_of_absent {m : FMap K V} {k : K} (v : V)
    (h : m.contains k = false) : (m.insert k v).len = m.len + 1 :=
  Finset.card_insert_of_notMem ((m.contains_eq_false k).1 h)

/-- Erasing an entry takes one off. -/
theorem len_erase_of_contains {m : FMap K V} {k : K}
    (h : m.contains k = true) : (m.erase k).len + 1 = m.len :=
  Finset.card_erase_add_one ((m.mem_keys k).2 h)

/-- Erasing adds no entry. -/
theorem len_erase_le (m : FMap K V) (k : K) : (m.erase k).len ≤ m.len :=
  Finset.card_le_card (Finset.erase_subset k m.keys)

-- ============ totals

/-- Erasing takes exactly the erased entry's measure out of the total. -/
theorem sumBy_erase (m : FMap K V) (f : V → Nat) (k : K) :
    (m.erase k).sumBy f + m.weightAt f k = m.sumBy f := by
  have hcongr : (m.erase k).sumBy f
      = (m.keys.erase k).sum (m.weightAt f) := by
    apply Finset.sum_congr rfl
    intro k' hk'
    have hne : k' ≠ k := Finset.ne_of_mem_erase hk'
    simp [weightAt, get_erase_ne m hne]
  rw [hcongr]
  by_cases hk : k ∈ m.keys
  · exact Finset.sum_erase_add m.keys (m.weightAt f) hk
  · have hnone : m.get k = none := by
      rw [m.mem_keys, Bool.not_eq_true, Option.isSome_eq_false_iff,
        Option.isNone_iff_eq_none] at hk
      exact hk
    rw [Finset.erase_eq_of_notMem hk, weightAt_of_none hnone]
    rfl

/-- Inserting swaps the old entry's measure for the new one's. -/
theorem sumBy_insert (m : FMap K V) (f : V → Nat) (k : K) (v : V) :
    (m.insert k v).sumBy f + m.weightAt f k = m.sumBy f + f v := by
  have herase : (m.insert k v).erase k = m.erase k := by
    apply ext_get
    intro k'
    simp only [get_erase, get_insert]
    split <;> rfl
  have hins := sumBy_erase (m.insert k v) f k
  have hold := sumBy_erase m f k
  rw [herase, weightAt_of_get (get_insert_self m k v)] at hins
  omega

/-- Updating a present key in place is inserting the updated entry. -/
theorem modify_of_get {m : FMap K V} {k : K} {v : V} {f : V → V}
    (h : m.get k = some v) : m.modify k f = m.insert k (f v) := by
  apply ext_get
  intro k'
  rw [get_modify, get_insert]
  split
  next e => rw [e, h]; rfl
  next => rfl

/-- Updating in place swaps the old measure for the new one's. -/
theorem sumBy_modify {m : FMap K V} (f : V → Nat) {k : K} {v : V}
    (g : V → V) (h : m.get k = some v) :
    (m.modify k g).sumBy f + f v = m.sumBy f + f (g v) := by
  have hsum := sumBy_insert m f k (g v)
  rw [← modify_of_get h, weightAt_of_get h] at hsum
  exact hsum

end FMap

-- ==== iteration order

/-- The order in which a hash table yields its entries: some enumeration
of each finite key set, complete and without repetition. -/
structure IterOrder (K : Type u) where
  iter : Finset K → List K
  nodup : ∀ s, (iter s).Nodup
  mem_iter : ∀ s k, k ∈ iter s ↔ k ∈ s

namespace IterOrder

variable {K : Type u} {V : Type v}

/-- The first entry, in iteration order, that a predicate accepts. -/
def find (o : IterOrder K) (m : FMap K V) (p : K → V → Bool) :
    Option (K × V) :=
  (o.iter m.keys).findSome? fun k =>
    (m.get k).bind fun v => if p k v then some (k, v) else none

/-- A table of one entry has one iteration order. -/
theorem iter_singleton (o : IterOrder K) (k : K) : o.iter {k} = [k] := by
  have hmem : ∀ x, x ∈ o.iter {k} ↔ x = k := by
    intro x
    rw [o.mem_iter, Finset.mem_singleton]
  exact (List.perm_singleton.1
    ((List.perm_ext_iff_of_nodup (o.nodup _) (List.nodup_singleton k)).2
      (by simpa using hmem)))

/-- What a scan finds is an entry, and the predicate accepts it. -/
theorem find_some {o : IterOrder K} {m : FMap K V} {p : K → V → Bool}
    {k : K} {v : V} (h : o.find m p = some (k, v)) :
    m.get k = some v ∧ p k v = true := by
  obtain ⟨k', hk', hf⟩ := List.exists_of_findSome?_eq_some h
  cases hg : m.get k' with
  | none => simp [hg] at hf
  | some w =>
      cases hp : p k' w with
      | false => simp [hg, hp] at hf
      | true =>
          simp only [hg, hp, Option.bind_some, if_true] at hf
          injection hf with hkv
          injection hkv with h1 h2
          subst h1
          subst h2
          exact ⟨hg, hp⟩

/-- A scan that finds nothing has seen every entry rejected. -/
theorem find_none {o : IterOrder K} {m : FMap K V} {p : K → V → Bool}
    (h : o.find m p = none) {k : K} {v : V} (hg : m.get k = some v) :
    p k v = false := by
  rw [find, List.findSome?_eq_none_iff] at h
  have hk := h k ((o.mem_iter _ _).mpr (FMap.mem_keys_of_get hg))
  cases hp : p k v with
  | false => rfl
  | true => simp [hg, hp] at hk

/-- With a single acceptable entry the order does not matter. -/
theorem find_unique {o : IterOrder K} {m : FMap K V}
    {p : K → V → Bool} {k : K} {v : V} (hg : m.get k = some v)
    (hp : p k v = true)
    (huniq : ∀ k' v', m.get k' = some v' → p k' v' = true → k' = k) :
    o.find m p = some (k, v) := by
  cases hf : o.find m p with
  | none =>
      have hno := find_none hf hg
      rw [hp] at hno
      cases hno
  | some kv =>
      obtain ⟨k', v'⟩ := kv
      obtain ⟨hg', hp'⟩ := find_some hf
      have hk := huniq k' v' hg' hp'
      subst hk
      rw [hg] at hg'
      injection hg' with hv
      rw [hv]

/-- A scan of a table of one entry tests that entry. -/
theorem find_insert_empty [DecidableEq K] (o : IterOrder K) (k : K)
    (v : V) (p : K → V → Bool) :
    o.find ((∅ : FMap K V).insert k v) p
      = if p k v then some (k, v) else none := by
  have hkeys : ((∅ : FMap K V).insert k v).keys = {k} := rfl
  unfold find
  rw [hkeys, iter_singleton]
  simp

/-- Iteration in the order of an injective key: an order that runs. -/
def sortedBy (key : K → Nat) (hkey : Function.Injective key) :
    IterOrder K where
  iter := fun s => s.val.lift
    (List.insertionSort fun a b => key a ≤ key b) (by
      intro l l' hperm
      refine List.Perm.eq_of_pairwise ?_
        (List.pairwise_insertionSort _ l)
        (List.pairwise_insertionSort _ l') ?_
      · intro a b _ _ hab hba
        exact hkey (Nat.le_antisymm hab hba)
      · exact (List.perm_insertionSort _ l).trans
          (hperm.trans (List.perm_insertionSort _ l').symm))
  nodup := by
    intro s
    obtain ⟨⟨l⟩, hl⟩ := s
    exact (List.perm_insertionSort _ l).nodup_iff.2 hl
  mem_iter := by
    intro s k
    obtain ⟨⟨l⟩, hl⟩ := s
    exact (List.perm_insertionSort _ l).mem_iff

/-- Byte arrays in the order of the integers they spell. -/
def bytewise {n : Nat} : IterOrder (Bytes n) :=
  sortedBy Bytes.toNat Bytes.toNat_injective

/-- A sorted scan takes the least entry when it is acceptable. -/
theorem find_sortedBy {key : K → Nat} (hkey : Function.Injective key)
    {m : FMap K V} {p : K → V → Bool} {k : K} {v : V}
    (hg : m.get k = some v) (hp : p k v = true)
    (hleast : ∀ k' v', m.get k' = some v' → key k ≤ key k') :
    (sortedBy key hkey).find m p = some (k, v) := by
  have hmem : k ∈ (sortedBy key hkey).iter m.keys :=
    ((sortedBy key hkey).mem_iter _ _).2 (FMap.mem_keys_of_get hg)
  have hsorted : ((sortedBy key hkey).iter m.keys).Pairwise
      fun a b => key a ≤ key b := by
    obtain ⟨⟨⟨l⟩, hl⟩, get, hget⟩ := m
    exact List.pairwise_insertionSort _ l
  have hin : ∀ k' ∈ (sortedBy key hkey).iter m.keys, key k ≤ key k' := by
    intro k' hk'
    obtain ⟨v', hv'⟩ := (m.mem_keys_iff k').1
      (((sortedBy key hkey).mem_iter _ _).1 hk')
    exact hleast k' v' hv'
  unfold find
  cases hiter : (sortedBy key hkey).iter m.keys with
  | nil =>
      rw [hiter] at hmem
      cases hmem
  | cons x xs =>
      rw [hiter] at hmem hsorted hin
      have hx : x = k := by
        rcases List.mem_cons.1 hmem with rfl | hmem
        · rfl
        · exact hkey (Nat.le_antisymm
            ((List.pairwise_cons.1 hsorted).1 k hmem)
            (hin x List.mem_cons_self))
      subst hx
      simp [hg, hp]

end IterOrder

end StaticNet
