/-
Filling the gaps of a table from a list of offers.

An entry that is there stays; a gap takes the first offer for it, if any
(`fill_get`). What is counted is every entry made, and that is one per
gap with an offer however often the list names it (`fill_count`).
-/
import Mathlib.Data.Finset.Card

namespace StaticNet

variable {K V : Type} [DecidableEq K]

/-- The first offer for a key. -/
def offer (l : List (K × Option V)) (c : K) : Option V :=
  l.findSome? fun e => if e.1 = c then e.2 else none

/-- Go through the list, filling gaps; the table and the number of
entries made. -/
def fill : List (K × Option V) → (K → Option V) → (K → Option V) × Nat
  | [], held => (held, 0)
  | (c, o) :: rest, held =>
      if (held c).isSome then fill rest held
      else
        match o with
        | none => fill rest held
        | some v =>
            ((fill rest (Function.update held c (some v))).1,
              1 + (fill rest (Function.update held c (some v))).2)

/-- The keys of the list that are gaps with an offer. -/
def fillable (l : List (K × Option V)) (held : K → Option V) : Finset K :=
  (l.map Prod.fst).toFinset.filter fun c =>
    (held c).isNone ∧ (offer l c).isSome

variable {l rest : List (K × Option V)} {held : K → Option V} {c d : K}
  {o : Option V} {v : V}

@[simp] theorem offer_nil : offer ([] : List (K × Option V)) c = none := rfl

theorem offer_cons :
    offer ((d, o) :: rest) c
      = if d = c then o.or (offer rest c) else offer rest c := by
  unfold offer
  rw [List.findSome?_cons]
  by_cases h : d = c
  · cases o <;> simp [h]
  · simp [h]

theorem fill_held (h : held d ≠ none) :
    fill ((d, o) :: rest) held = fill rest held := by
  have h' : (held d).isSome := Option.isSome_iff_ne_none.2 h
  cases o <;> simp [fill, h']

theorem fill_unoffered :
    fill ((d, none) :: rest) held = fill rest held := by
  simp [fill]

theorem fill_gap (h : held d = none) :
    fill ((d, some v) :: rest) held
      = ((fill rest (Function.update held d (some v))).1,
        1 + (fill rest (Function.update held d (some v))).2) := by
  simp [fill, h]

/-- Only keys of the list have offers. -/
theorem mem_of_offer (h : (offer l c).isSome) : c ∈ l.map Prod.fst := by
  induction l with
  | nil => cases h
  | cons e rest ih =>
      obtain ⟨d, o⟩ := e
      rw [offer_cons] at h
      rw [List.map_cons, List.mem_cons]
      by_cases hd : d = c
      · exact .inl hd.symm
      · rw [if_neg hd] at h
        exact .inr (ih h)

/-- What the table holds afterwards. -/
theorem fill_get : (fill l held).1 c = (held c).or (offer l c) := by
  induction l generalizing held with
  | nil => simp [fill]
  | cons e rest ih =>
      obtain ⟨d, o⟩ := e
      rw [offer_cons]
      by_cases hheld : held d = none
      · cases o with
        | none =>
            rw [fill_unoffered, ih]
            by_cases hd : d = c <;> simp [hd]
        | some v =>
            rw [fill_gap hheld]
            dsimp only
            rw [ih]
            by_cases hd : d = c
            · subst hd
              simp [hheld]
            · rw [Function.update_of_ne (Ne.symm hd), if_neg hd]
      · rw [fill_held hheld, ih]
        by_cases hd : d = c
        · -- the key is there, so its offers do not matter
          subst hd
          obtain ⟨v, hv⟩ := Option.ne_none_iff_exists'.1 hheld
          simp [hv]
        · rw [if_neg hd]

/-- There is an offer for a key when the list has one. -/
theorem offer_isSome : (offer l c).isSome ↔ ∃ v, (c, some v) ∈ l := by
  induction l with
  | nil => simp
  | cons e rest ih =>
      obtain ⟨d, o⟩ := e
      rw [offer_cons]
      by_cases hd : d = c
      · subst hd
        cases o with
        | none => simpa using ih
        | some v =>
            exact iff_of_true (by simp) ⟨v, List.mem_cons_self⟩
      · rw [if_neg hd, ih]
        simp [Ne.symm hd]

/-- An offer is one of the list. -/
theorem mem_of_offer_eq (h : offer l c = some v) : (c, some v) ∈ l := by
  induction l with
  | nil => cases h
  | cons e rest ih =>
      obtain ⟨d, o⟩ := e
      rw [offer_cons] at h
      by_cases hd : d = c
      · subst hd
        rw [if_pos rfl] at h
        cases o with
        | none => exact List.mem_cons_of_mem _ (ih h)
        | some w =>
            obtain rfl := Option.some.inj h
            exact List.mem_cons_self
      · rw [if_neg hd] at h
        exact List.mem_cons_of_mem _ (ih h)

/-- One offer per key, as a function of the key. -/
theorem offer_map (f : K → Option V) (keys : List K) :
    offer (keys.map fun k => (k, f k)) c
      = if c ∈ keys then f c else none := by
  induction keys with
  | nil => rfl
  | cons k keys ih =>
      rw [List.map_cons, offer_cons, ih]
      by_cases hk : k = c
      · subst hk
        by_cases hmem : k ∈ keys <;> simp [hmem]
      · simp [hk, Ne.symm hk]

theorem mem_fillable :
    c ∈ fillable l held ↔ held c = none ∧ (offer l c).isSome := by
  unfold fillable
  rw [Finset.mem_filter, List.mem_toFinset, Option.isNone_iff_eq_none]
  exact ⟨fun h => h.2, fun h => ⟨mem_of_offer h.2, h⟩⟩

/-- What is counted are the gaps that had an offer. -/
theorem fill_count : (fill l held).2 = (fillable l held).card := by
  induction l generalizing held with
  | nil => rfl
  | cons e rest ih =>
      obtain ⟨d, o⟩ := e
      by_cases hheld : held d = none
      · cases o with
        | none =>
            rw [fill_unoffered, ih]
            congr 1
            ext c
            rw [mem_fillable, mem_fillable, offer_cons]
            by_cases hd : d = c <;> simp [hd]
        | some v =>
            -- the new entry is the one key that was fillable and is not
            have hsplit : fillable ((d, some v) :: rest) held
                = insert d (fillable rest
                    (Function.update held d (some v))) := by
              ext c
              rw [Finset.mem_insert, mem_fillable, mem_fillable, offer_cons]
              by_cases hd : d = c
              · subst hd
                simp [hheld]
              · rw [if_neg hd, Function.update_of_ne (Ne.symm hd)]
                simp [Ne.symm hd]
            rw [fill_gap hheld, hsplit, Finset.card_insert_of_notMem]
            · dsimp only
              rw [ih, Nat.add_comm]
            · rw [mem_fillable]
              simp
      · rw [fill_held hheld, ih]
        congr 1
        ext c
        rw [mem_fillable, mem_fillable, offer_cons]
        by_cases hd : d = c
        · subst hd
          simp [hheld]
        · rw [if_neg hd]

end StaticNet
