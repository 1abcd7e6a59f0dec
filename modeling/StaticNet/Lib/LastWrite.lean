/-
Last-write-wins registers: an entry on record gives way to one with a
later stamp, and to nothing else.

Keeping the entry on record when the stamps are equal makes the merge
associative and idempotent for any stamps at all (`later_assoc`,
`later_later_self`). What it costs is symmetry: two merges commute, and
two replicas that merge one another agree, exactly when equal stamps
mean equal entries where it matters (`later_right_comm_iff`,
`later_comm_iff`). A register may be empty, and any entry takes it then.
-/
import Mathlib.Order.Defs.LinearOrder
import Mathlib.Order.Lattice

namespace StaticNet

namespace LastWrite

variable {V T : Type} [LinearOrder T] (stamp : V → T)

/-- The entry on record, unless the other has a later stamp. -/
def later : Option V → Option V → Option V
  | none, other => other
  | some ours, none => some ours
  | some ours, some other =>
      if stamp ours < stamp other then some other else some ours

/-- A register after a list of writes. -/
def latest (ours : Option V) (entries : List V) : Option V :=
  entries.foldl (fun r e => later stamp r (some e)) ours

variable {stamp} {a b c o : Option V} {v w : V}

@[simp] theorem none_later : later stamp none a = a := by
  cases a <;> rfl

@[simp] theorem later_none : later stamp a none = a := by
  cases a <;> rfl

theorem later_of_lt (h : stamp v < stamp w) :
    later stamp (some v) (some w) = some w := if_pos h

theorem later_of_le (h : stamp w ≤ stamp v) :
    later stamp (some v) (some w) = some v := if_neg (not_lt.2 h)

theorem later_assoc :
    later stamp (later stamp a b) c = later stamp a (later stamp b c) := by
  cases a with
  | none => simp
  | some u =>
      cases b with
      | none => simp
      | some v =>
          cases c with
          | none => simp
          | some w =>
              by_cases huv : stamp u < stamp v
              · by_cases hvw : stamp v < stamp w
                · rw [later_of_lt huv, later_of_lt hvw,
                    later_of_lt (huv.trans hvw)]
                · rw [later_of_lt huv, later_of_le (not_lt.1 hvw),
                    later_of_lt huv]
              · rw [later_of_le (not_lt.1 huv)]
                by_cases hvw : stamp v < stamp w
                · rw [later_of_lt hvw]
                · rw [later_of_le (not_lt.1 hvw),
                    later_of_le (not_lt.1 huv),
                    later_of_le ((not_lt.1 hvw).trans (not_lt.1 huv))]

theorem later_self : later stamp a a = a := by
  cases a with
  | none => rfl
  | some v => exact later_of_le le_rfl

/-- A write that was made has no effect when it is made again. -/
theorem later_later_self :
    later stamp (later stamp a b) b = later stamp a b := by
  rw [later_assoc, later_self]

theorem later_comm_iff :
    later stamp (some v) (some w) = later stamp (some w) (some v)
      ↔ (stamp v = stamp w → v = w) := by
  rcases lt_trichotomy (stamp v) (stamp w) with h | h | h
  · rw [later_of_lt h, later_of_le h.le]
    exact iff_of_true rfl fun heq => absurd heq h.ne
  · rw [later_of_le h.ge, later_of_le h.le]
    simp [h]
  · rw [later_of_le h.le, later_of_lt h]
    exact iff_of_true rfl fun heq => absurd heq.symm h.ne

/-- Two replicas that merge one another agree exactly when they do not
hold different entries of one stamp. -/
theorem exchange_iff :
    later stamp a b = later stamp b a
      ↔ ∀ v w, a = some v → b = some w → stamp v = stamp w → v = w := by
  cases a with
  | none => simp
  | some v =>
      cases b with
      | none => simp
      | some w =>
          rw [later_comm_iff]
          constructor
          · rintro h _ _ ⟨⟩ ⟨⟩
            exact h
          · exact fun h => h v w rfl rfl

/-- Two writes commute on a register exactly when they are not different
entries of one stamp, later than the register's. -/
theorem later_right_comm_iff :
    later stamp (later stamp o a) b = later stamp (later stamp o b) a
      ↔ ∀ v w, a = some v → b = some w → stamp v = stamp w →
        (∀ u, o = some u → stamp u < stamp v) → v = w := by
  rw [later_assoc, later_assoc]
  cases a with
  | none => simp
  | some v =>
      cases b with
      | none => simp
      | some w =>
          have hsome : (∀ v' w', some v = some v' → some w = some w' →
              stamp v' = stamp w' →
              (∀ u, o = some u → stamp u < stamp v') → v' = w')
              ↔ (stamp v = stamp w →
                (∀ u, o = some u → stamp u < stamp v) → v = w) := by
            constructor
            · exact fun h => h v w rfl rfl
            · rintro h _ _ ⟨⟩ ⟨⟩
              exact h
          rw [hsome]
          by_cases htie : stamp v = stamp w
          · rw [later_of_le htie.ge, later_of_le htie.le]
            cases o with
            | none => simp [htie]
            | some u =>
                by_cases hu : stamp u < stamp v
                · rw [later_of_lt hu, later_of_lt (htie ▸ hu)]
                  simp [htie, htie ▸ hu]
                · rw [later_of_le (not_lt.1 hu),
                    later_of_le (htie ▸ not_lt.1 hu)]
                  exact iff_of_true rfl fun _ h => absurd (h u rfl) hu
          · rw [later_comm_iff.2 fun h => absurd h htie]
            exact iff_of_true rfl fun h => absurd h htie

-- ======= many writes

@[simp] theorem latest_nil : latest stamp o [] = o := rfl

theorem latest_cons {entries : List V} :
    latest stamp o (v :: entries)
      = latest stamp (later stamp o (some v)) entries := rfl

theorem latest_append {xs ys : List V} :
    latest stamp o (xs ++ ys) = latest stamp (latest stamp o xs) ys :=
  List.foldl_append

/-- A list of writes is one write of its own latest entry. -/
theorem latest_eq {entries : List V} :
    latest stamp o entries = later stamp o (latest stamp none entries) := by
  induction entries generalizing o with
  | nil => simp
  | cons v entries ih =>
      rw [latest_cons, latest_cons, ih, ih (o := later stamp none (some v)),
        none_later, later_assoc]

theorem later_eq_some (h : later stamp o (some w) = some v) :
    v = w ∨ o = some v := by
  cases o with
  | none => exact .inl (Option.some.inj (none_later.symm.trans h)).symm
  | some u =>
      by_cases hlt : stamp u < stamp w
      · rw [later_of_lt hlt] at h
        exact .inl (Option.some.inj h).symm
      · rw [later_of_le (not_lt.1 hlt)] at h
        exact .inr h

/-- A register holds one of the writes, or what it held. -/
theorem mem_of_latest {entries : List V}
    (h : latest stamp o entries = some v) : v ∈ entries ∨ o = some v := by
  induction entries generalizing o with
  | nil => exact .inr h
  | cons w entries ih =>
      rw [latest_cons] at h
      rcases ih h with hin | hfirst
      · exact .inl (List.mem_cons_of_mem _ hin)
      · rcases later_eq_some hfirst with rfl | hout
        · exact .inl List.mem_cons_self
        · exact .inr hout

/-- No write is later than the register at the end. -/
theorem le_latest {entries : List V} (h : v ∈ entries ∨ o = some v) :
    ∃ w, latest stamp o entries = some w ∧ stamp v ≤ stamp w := by
  induction entries generalizing o v with
  | nil => exact ⟨v, h.resolve_left List.not_mem_nil, le_rfl⟩
  | cons u entries ih =>
      rw [latest_cons]
      -- what the first write leaves is at least its own stamp
      have hkeep : ∀ x, x = u ∨ o = some x →
          ∃ y, later stamp o (some u) = some y ∧ stamp x ≤ stamp y := by
        intro x hx
        cases o with
        | none =>
            refine ⟨u, none_later, ?_⟩
            rcases hx with rfl | hx
            · exact le_rfl
            · cases hx
        | some r =>
            by_cases hlt : stamp r < stamp u
            · refine ⟨u, later_of_lt hlt, ?_⟩
              rcases hx with rfl | hx
              · exact le_rfl
              · obtain rfl := Option.some.inj hx
                exact hlt.le
            · refine ⟨r, later_of_le (not_lt.1 hlt), ?_⟩
              rcases hx with rfl | hx
              · exact not_lt.1 hlt
              · obtain rfl := Option.some.inj hx
                exact le_rfl
      have hfirst : v ∈ entries ∨ (v = u ∨ o = some v) := by
        rcases h with h | h
        · rcases List.mem_cons.1 h with rfl | h
          · exact .inr (.inl rfl)
          · exact .inl h
        · exact .inr (.inr h)
      rcases hfirst with hmem | hfirst
      · exact ih (.inl hmem)
      · obtain ⟨y, hy, hle⟩ := hkeep v hfirst
        obtain ⟨w, hw, hle'⟩ := ih (v := y) (.inr hy)
        exact ⟨w, hw, hle.trans hle'⟩

end LastWrite

end StaticNet
