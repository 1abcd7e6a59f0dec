/-
A bounded memory of what was let in lately.

What is let in goes into a log, with its time. The memory is a table of
times: it forgets by age, and where it is full it gives up its oldest
entry for a new one. `Recollects` ties the two together. A key of the log
that is young enough is in the table, unless more keys than the table
holds were let in since: it is only given up for a new one when all the
others are as young as itself (`Recollects.replace`).
-/
import StaticNet.Lib.FMap

namespace StaticNet

namespace Window

universe u

variable {K : Type u} {m : FMap K Nat} {k old : K} {t now ttl cap : Nat}

-- ============ by age

/-- The table keeps no entry that is older than `ttl`. -/
def forget (ttl now : Nat) (m : FMap K Nat) : FMap K Nat :=
  m.retain fun _ t => decide (now - t ≤ ttl)

theorem get_forget :
    (forget ttl now m).get k = some t
      ↔ m.get k = some t ∧ now ≤ t + ttl := by
  unfold forget
  rw [FMap.get_retain, Option.filter_eq_some_iff, decide_eq_true_eq]
  exact and_congr_right' (by omega)

-- =========== the log

variable [DecidableEq K] {log : List (K × Nat)}

/-- The keys that were let in at time `t` or later. -/
def since (log : List (K × Nat)) (t : Nat) : Finset K :=
  ((log.filter fun x => t ≤ x.2).map Prod.fst).toFinset

theorem mem_since : k ∈ since log t ↔ ∃ u, (k, u) ∈ log ∧ t ≤ u := by
  simp [since]

/-- A longer log and an earlier time only add keys. -/
theorem since_subset {log' : List (K × Nat)} {u : Nat}
    (hlog : log ⊆ log') (h : u ≤ t) : since log t ⊆ since log' u := by
  intro k hk
  obtain ⟨v, hmem, hv⟩ := mem_since.1 hk
  exact mem_since.2 ⟨v, hlog hmem, h.trans hv⟩

-- ======== the memory

/-- The table against the log, at time `now`. -/
structure Recollects (ttl cap : Nat) (log : List (K × Nat))
    (m : FMap K Nat) (now : Nat) : Prop where
  logged : ∀ k t, m.get k = some t → (k, t) ∈ log
  past : ∀ x ∈ log, x.2 ≤ now
  recent : ∀ k t, (k, t) ∈ log → now ≤ t + ttl →
    (∃ u, m.get k = some u ∧ t ≤ u) ∨ cap < (since log t).card
  bounded : m.len ≤ cap

/-- Before anything was let in. -/
theorem recollects_empty :
    Recollects ttl cap [] (∅ : FMap K Nat) now where
  logged := fun _ _ h => by cases h
  past := fun _ h => by cases h
  recent := fun _ _ h => by cases h
  bounded := Nat.zero_le cap

/-- Time alone changes nothing. -/
theorem Recollects.later {now' : Nat} (h : Recollects ttl cap log m now)
    (hnow : now ≤ now') : Recollects ttl cap log m now' where
  logged := h.logged
  past := fun x hx => (h.past x hx).trans hnow
  recent := fun k t hmem hyoung => h.recent k t hmem (hnow.trans hyoung)
  bounded := h.bounded

/-- Forgetting by age. -/
theorem Recollects.forget {now' : Nat} (h : Recollects ttl cap log m now)
    (hnow : now ≤ now') :
    Recollects ttl cap log (forget ttl now' m) now' where
  logged := fun k t hget => h.logged k t (get_forget.1 hget).1
  past := fun x hx => (h.past x hx).trans hnow
  recent := by
    intro k t hmem hyoung
    rcases h.recent k t hmem (hnow.trans hyoung) with ⟨u, hget, hu⟩ | hmany
    · have hkept : now' ≤ u + ttl := by omega
      exact .inl ⟨u, get_forget.2 ⟨hget, hkept⟩, hu⟩
    · exact .inr hmany
  bounded := (Finset.card_le_card (Finset.filter_subset _ _)).trans h.bounded

/-- Letting a key in. What was remembered stays so if it is still in the
table, or more keys than it holds were let in since. -/
theorem Recollects.letIn {m' : FMap K Nat}
    (h : Recollects ttl cap log m now)
    (hself : m'.get k = some now)
    (hother : ∀ d u, d ≠ k → m'.get d = some u → m.get d = some u)
    (hkept : ∀ d u, d ≠ k → m.get d = some u →
      m'.get d = some u
        ∨ cap < (since (log ++ [(k, now)]) u).card)
    (hlen : m'.len ≤ cap) :
    Recollects ttl cap (log ++ [(k, now)]) m' now where
  logged := by
    intro d u hget
    by_cases hd : d = k
    · rw [hd, hself] at hget
      rw [hd, ← Option.some.inj hget]
      exact List.mem_append_right _ List.mem_cons_self
    · exact List.mem_append_left _ (h.logged d u (hother d u hd hget))
  past := by
    intro x hx
    rcases List.mem_append.1 hx with hx | hx
    · exact h.past x hx
    · rw [List.mem_singleton.1 hx]
  recent := by
    intro d t hmem hyoung
    by_cases hd : d = k
    · left
      refine ⟨now, by rw [hd]; exact hself, ?_⟩
      rcases List.mem_append.1 hmem with hmem | hmem
      · exact h.past _ hmem
      · rw [(Prod.mk.inj (List.mem_singleton.1 hmem)).2]
    · have hold : (d, t) ∈ log := by
        refine (List.mem_append.1 hmem).resolve_right fun hlast => hd ?_
        exact (Prod.mk.inj (List.mem_singleton.1 hlast)).1
      have hmore : ∀ u, t ≤ u → since (log ++ [(k, now)]) u
          ⊆ since (log ++ [(k, now)]) t :=
        fun u hu => since_subset (List.Subset.refl _) hu
      rcases h.recent d t hold hyoung with ⟨u, hget, hu⟩ | hmany
      · rcases hkept d u hd hget with hget' | hmany
        · exact .inl ⟨u, hget', hu⟩
        · exact .inr (hmany.trans_le (Finset.card_le_card (hmore u hu)))
      · right
        exact hmany.trans_le (Finset.card_le_card
          (since_subset (List.subset_append_left _ _) le_rfl))
  bounded := hlen

/-- Letting a new key in where there is room. -/
theorem Recollects.add (h : Recollects ttl cap log m now)
    (hnew : m.contains k = false) (hroom : m.len < cap) :
    Recollects ttl cap (log ++ [(k, now)]) (m.insert k now) now := by
  refine h.letIn (FMap.get_insert_self m k now) ?_ ?_ ?_
  · intro d u hd hget
    rwa [FMap.get_insert_ne m now hd] at hget
  · intro d u hd hget
    left
    rw [FMap.get_insert_ne m now hd]
    exact hget
  · rw [FMap.len_insert_of_absent now hnew]
    exact hroom

/-- Letting a new key in for the oldest one of a full table. -/
theorem Recollects.replace (h : Recollects ttl cap log m now)
    (hnew : m.contains k = false) (hfull : cap ≤ m.len)
    (hold : m.get old = some t)
    (holdest : ∀ d u, m.get d = some u → t ≤ u) :
    Recollects ttl cap (log ++ [(k, now)]) ((m.erase old).insert k now)
      now := by
  have hnotin := (m.contains_eq_false k).1 hnew
  have hne : old ≠ k := by
    rintro rfl
    exact hnotin (FMap.mem_keys_of_get hold)
  refine h.letIn (FMap.get_insert_self _ k now) ?_ ?_ ?_
  · intro d u hd hget
    rw [FMap.get_insert_ne _ now hd, FMap.get_erase] at hget
    by_cases hdold : d = old
    · rw [if_pos hdold] at hget
      cases hget
    · rwa [if_neg hdold] at hget
  · intro d u hd hget
    rw [FMap.get_insert_ne _ now hd]
    by_cases hdold : d = old
    · -- given up for the new key, which nothing in the table is older than
      right
      have hsub : insert k m.keys ⊆ since (log ++ [(k, now)]) u := by
        have hu : u = t := by
          rw [hdold, hold] at hget
          exact (Option.some.inj hget).symm
        intro x hx
        rw [mem_since]
        rcases Finset.mem_insert.1 hx with rfl | hx
        · refine ⟨now, List.mem_append_right _ List.mem_cons_self, ?_⟩
          exact h.past _ (h.logged d u hget)
        · obtain ⟨v, hv⟩ := (m.mem_keys_iff x).1 hx
          refine ⟨v, List.mem_append_left _ (h.logged x v hv), ?_⟩
          rw [hu]
          exact holdest x v hv
      have hcard := Finset.card_le_card hsub
      rw [Finset.card_insert_of_notMem hnotin] at hcard
      exact lt_of_le_of_lt hfull hcard
    · left
      rw [FMap.get_erase_ne m hdold]
      exact hget
  · have hgone := FMap.len_erase_of_contains
      ((FMap.contains_eq_true m old).2 ⟨t, hold⟩)
    have habsent : (m.erase old).contains k = false := by
      unfold FMap.contains
      rw [FMap.get_erase_ne m hne.symm]
      exact hnew
    rw [FMap.len_insert_of_absent now habsent, hgone]
    exact h.bounded

/-- A young key of the log is in the table, as long as no more keys than
it holds were let in since. -/
theorem Recollects.contains (h : Recollects ttl cap log m now)
    (hmem : (k, t) ∈ log) (hyoung : now ≤ t + ttl)
    (hfew : (since log t).card ≤ cap) : m.contains k = true := by
  rcases h.recent k t hmem hyoung with ⟨u, hget, -⟩ | hmany
  · exact (FMap.contains_eq_true m k).2 ⟨u, hget⟩
  · omega

end Window

end StaticNet
