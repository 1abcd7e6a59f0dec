/-
A table that is cleared when it is full.

Entries go in one after the other, each under a key of its own; an entry
that finds the table full clears it first. What the table holds is then
the last block of what was put in, and how long an entry stays is known:
until as many more have come in as fill its block and one (`puts_eq`).
-/
import StaticNet.Lib.FMap

namespace StaticNet

namespace FMap

variable {K V : Type} [DecidableEq K]

/-- Put an entry into a table of at most `cap` entries. -/
def put (cap : Nat) (m : FMap K V) (k : K) (v : V) : FMap K V :=
  (if cap ≤ m.len then ∅ else m).insert k v

/-- Put them in one after the other. -/
def puts (cap : Nat) (entries : List (K × V)) : FMap K V :=
  entries.foldl (fun m e => m.put cap e.1 e.2) ∅

/-- The table of these entries. -/
def tableOf (entries : List (K × V)) : FMap K V :=
  entries.foldl (fun m e => m.insert e.1 e.2) ∅

/-- Where the block begins that the last of `n` entries is in. -/
def blockStart (cap n : Nat) : Nat := (n - 1) / cap * cap

variable {cap n : Nat} {entries : List (K × V)}

theorem tableOf_concat (entries : List (K × V)) (e : K × V) :
    tableOf (entries ++ [e]) = (tableOf entries).insert e.1 e.2 := by
  unfold tableOf
  rw [List.foldl_append]
  rfl

theorem puts_concat (entries : List (K × V)) (e : K × V) :
    puts cap (entries ++ [e]) = (puts cap entries).put cap e.1 e.2 := by
  unfold puts
  rw [List.foldl_append]
  rfl

/-- A key has an entry if and only if one was put in for it. -/
theorem keys_tableOf (entries : List (K × V)) :
    (tableOf entries).keys = (entries.map Prod.fst).toFinset := by
  induction entries using List.reverseRecOn with
  | nil => rfl
  | append_singleton entries e ih =>
      rw [tableOf_concat, List.map_append, List.toFinset_append, ← ih,
        Finset.union_comm]
      rfl

theorem len_tableOf (h : (entries.map Prod.fst).Nodup) :
    (tableOf entries).len = entries.length := by
  rw [len, keys_tableOf, List.toFinset_card_of_nodup h, List.length_map]

/-- Under distinct keys every entry is there. -/
theorem get_tableOf (h : (entries.map Prod.fst).Nodup) (k : K) (v : V) :
    (tableOf entries).get k = some v ↔ (k, v) ∈ entries := by
  induction entries using List.reverseRecOn with
  | nil => exact ⟨nofun, nofun⟩
  | append_singleton entries e ih =>
      rw [List.map_append, List.nodup_append] at h
      have hfresh : ∀ w, (e.1, w) ∉ entries := fun w hmem =>
        h.2.2 e.1 (List.mem_map.2 ⟨_, hmem, rfl⟩) e.1
          (List.mem_singleton_self _) rfl
      rw [tableOf_concat, get_insert, List.mem_append, List.mem_singleton]
      by_cases hk : k = e.1
      · subst hk
        rw [if_pos rfl]
        constructor
        · intro hv
          exact .inr (by rw [← Option.some.inj hv])
        · rintro (hmem | heq)
          · exact absurd hmem (hfresh v)
          · rw [← heq]
      · rw [if_neg hk, ih h.1]
        constructor
        · exact .inl
        · rintro (hmem | heq)
          · exact hmem
          · exact absurd (congrArg Prod.fst heq) hk

/-- The next entry goes into the block, or begins one. -/
theorem blockStart_succ (hcap : 0 < cap) (n : Nat) :
    blockStart cap (n + 2)
      = if cap ≤ n + 1 - blockStart cap (n + 1) then n + 1
        else blockStart cap (n + 1) := by
  show (n + 1) / cap * cap = _
  unfold blockStart
  rw [Nat.add_sub_cancel]
  have hdiv := Nat.div_add_mod n cap
  have hmod := Nat.mod_lt n hcap
  rw [Nat.mul_comm] at hdiv
  have hrest : n + 1 - n / cap * cap = n % cap + 1 := by omega
  rw [hrest]
  by_cases hfull : cap ≤ n % cap + 1
  · have hnext : n + 1 = (n / cap + 1) * cap := by
      rw [Nat.succ_mul]
      omega
    rw [if_pos hfull, hnext, Nat.mul_div_cancel _ hcap]
  · have hnext : (n + 1) / cap = n / cap := by
      rw [Nat.div_eq_iff hcap]
      omega
    rw [if_neg hfull, hnext]

theorem blockStart_first (cap : Nat) (hn : n ≤ 1) : blockStart cap n = 0 := by
  unfold blockStart
  rw [Nat.sub_eq_zero_of_le hn, Nat.zero_div, Nat.zero_mul]

theorem blockStart_le (cap n : Nat) : blockStart cap n ≤ n :=
  (Nat.div_mul_le_self _ _).trans (Nat.sub_le _ _)

/-- A table that is cleared when it is full holds its last block. -/
theorem puts_eq (hcap : 0 < cap) (h : (entries.map Prod.fst).Nodup) :
    puts cap entries
      = tableOf (entries.drop (blockStart cap entries.length)) := by
  induction entries using List.reverseRecOn with
  | nil =>
      rw [List.drop_nil]
      rfl
  | append_singleton entries e ih =>
      rw [List.map_append, List.nodup_append] at h
      have hblock : ((entries.drop (blockStart cap entries.length)).map
          Prod.fst).Nodup := by
        rw [List.map_drop]
        exact h.1.sublist (List.drop_sublist _ _)
      have hlen := len_tableOf hblock
      rw [List.length_drop] at hlen
      rw [puts_concat, ih h.1, put, hlen, List.length_append,
        List.length_singleton]
      cases hn : entries.length with
      | zero =>
          obtain rfl := List.length_eq_zero_iff.1 hn
          rw [blockStart_first cap (Nat.zero_le 1),
            blockStart_first cap (Nat.le_refl 1), if_neg (by omega)]
          rfl
      | succ n =>
          rw [blockStart_succ hcap]
          by_cases hfull : cap ≤ n + 1 - blockStart cap (n + 1)
          · rw [if_pos hfull, if_pos hfull, ← hn, List.drop_left]
            rfl
          · rw [if_neg hfull, if_neg hfull, List.drop_append_of_le_length
              (hn ▸ blockStart_le cap (n + 1)), tableOf_concat]

end FMap

end StaticNet
