/-
What a reassembler makes of the fragments it is given
(`static-mesh/src/fragment.rs`).

The pieces of one message, in any order and any number of times, leave a
reassembler that has exactly the indices it was given, so it is complete
when it was given every piece (`fragmentation_round_trip`). On arbitrary
fragments, `can_accept` answers what `add_fragment` would do: the two
check the same things in another order, and they agree because a
reassembler that expects no total holds no piece (`Orderly`).
-/
import StaticNet.Retrieval.Fragment

namespace StaticNet

namespace Reassembler

-- ============= calls

/-- A body is decoded and its fragment added; what does not decode is
dropped. -/
def addBody (r : Reassembler) (body : List UInt8) : Reassembler :=
  match deserializeFragment body with
  | .ok f => (r.addFragment f).2
  | .error _ => r

/-- The calls that change a reassembler. -/
inductive Op
  | add (f : Fragment)
  | cleanup (now timeoutSecs : Nat)

def apply (r : Reassembler) : Op → Reassembler
  | .add f => (r.addFragment f).2
  | .cleanup now timeoutSecs => r.cleanupExpired now timeoutSecs

/-- What calls on a new reassembler can lead to. -/
def Reachable (r : Reassembler) : Prop :=
  ∃ (now : Nat) (ops : List Op), r = ops.foldl apply (new now)

/-- No total is expected before a piece is held. -/
def Orderly (r : Reassembler) : Prop :=
  r.totalExpected = none → r.fragments = ∅

-- ==== accepting a piece

theorem new_orderly (now : Nat) : (new now).Orderly := fun _ => rfl

theorem cleanupExpired_orderly {r : Reassembler} (h : r.Orderly)
    (now timeoutSecs : Nat) : (r.cleanupExpired now timeoutSecs).Orderly := by
  rw [cleanupExpired]
  by_cases hold : r.isExpired now timeoutSecs = true
  · rw [if_pos hold]
    exact new_orderly now
  · rw [if_neg hold]
    exact h

/-- What `add_fragment` does to an orderly reassembler: it refuses the
fragment and changes nothing, or takes a valid one that it lacks. -/
theorem addFragment_cases {r : Reassembler} (h : r.Orderly)
    (f : Fragment) :
    (r.canAccept f = false ∧ r.addFragment f = (false, r))
      ∨ (r.canAccept f = true
        ∧ r.addFragment f
          = (true, ⟨some f.totalFragments,
            r.fragments.insert f.fragmentId f.data, r.createdAt⟩)) := by
  by_cases hvalid : f.Valid
  · cases htotal : r.totalExpected with
    | none =>
        right
        refine add_missing hvalid (Or.inl htotal) ?_
        rw [h htotal]
        rfl
    | some expected =>
        by_cases heq : expected = f.totalFragments
        · cases hget : r.fragments.get f.fragmentId with
          | none =>
              right
              exact add_missing hvalid (Or.inr (by rw [htotal, heq])) hget
          | some data =>
              left
              obtain ⟨hpos, hmax, hid, hdata⟩ := hvalid
              have hbad : ¬ (f.totalFragments = 0
                  ∨ MAX_FRAGMENTS_PER_MESSAGE < f.totalFragments) := by
                omega
              have hcontains :
                  r.fragments.contains f.fragmentId = true := by
                rw [FMap.contains, hget]
                rfl
              rw [canAccept, addFragment, if_neg hbad, if_neg hbad,
                if_neg (by omega), if_neg (by omega), if_neg (by omega),
                if_neg (by omega)]
              simp [htotal, heq, store, hcontains]
        · left
          obtain ⟨hpos, hmax, hid, hdata⟩ := hvalid
          have hbad : ¬ (f.totalFragments = 0
              ∨ MAX_FRAGMENTS_PER_MESSAGE < f.totalFragments) := by
            omega
          rw [canAccept, addFragment, if_neg hbad, if_neg hbad,
            if_neg (by omega), if_neg (by omega), if_neg (by omega),
            if_neg (by omega)]
          simp [htotal, heq]
  · -- every bound is checked by both, before the state is looked at
    left
    rw [canAccept, addFragment]
    by_cases hbad : f.totalFragments = 0
        ∨ MAX_FRAGMENTS_PER_MESSAGE < f.totalFragments
    · rw [if_pos hbad, if_pos hbad]
      exact ⟨rfl, rfl⟩
    rw [if_neg hbad, if_neg hbad]
    by_cases hid : f.totalFragments ≤ f.fragmentId
    · rw [if_pos hid, if_pos hid]
      exact ⟨rfl, rfl⟩
    rw [if_neg hid, if_neg hid]
    by_cases hdata : MAX_FRAGMENT_DATA < f.data.length
    · rw [if_pos hdata, if_pos hdata]
      exact ⟨rfl, rfl⟩
    · exact absurd ⟨by omega, by omega, by omega, by omega⟩ hvalid

theorem addFragment_orderly {r : Reassembler} (h : r.Orderly)
    (f : Fragment) : (r.addFragment f).2.Orderly := by
  rcases addFragment_cases h f with ⟨-, hadd⟩ | ⟨-, hadd⟩
  · rw [hadd]
    exact h
  · rw [hadd]
    intro hnone
    cases hnone

theorem Reachable.orderly {r : Reassembler} (h : r.Reachable) :
    r.Orderly := by
  obtain ⟨now, ops, rfl⟩ := h
  have hrun : ∀ (ops : List Op) (r : Reassembler), r.Orderly →
      (ops.foldl apply r).Orderly := by
    intro ops
    induction ops with
    | nil => exact fun r h => h
    | cons op ops ih =>
        intro r h
        rw [List.foldl_cons]
        apply ih
        cases op with
        | add f => exact addFragment_orderly h f
        | cleanup now timeoutSecs =>
            exact cleanupExpired_orderly h now timeoutSecs
  exact hrun ops _ (new_orderly now)

end Reassembler

-- ==== pieces of a message

section Pieces

variable {frags : List Fragment} {payload : List UInt8} {ids : Finset Nat}
  {r : Reassembler} {f : Fragment}

/-- A reassembler of one message is orderly. -/
theorem Collected.orderly (h : Collected frags ids r) : r.Orderly := by
  intro hnone
  by_cases hempty : ids = ∅
  · apply FMap.ext_get
    intro i
    rw [h.held, hempty, if_neg (Finset.notMem_empty i)]
    rfl
  · have htot := h.total
    rw [hnone, if_neg hempty] at htot
    cases htot

/-- A piece that is already held changes nothing. -/
theorem Collected.again (h : Collected frags ids r)
    (hfrag : Fragmentation frags payload) (hf : f ∈ frags)
    (hold : f.fragmentId ∈ ids) : (r.addFragment f).2 = r := by
  rcases Reassembler.addFragment_cases h.orderly f with
    ⟨-, hadd⟩ | ⟨hacc, -⟩
  · rw [hadd]
  · obtain ⟨hpos, hmax, hid, hdata⟩ := hfrag.valid hf
    have hcontains : r.fragments.contains f.fragmentId = true := by
      rw [FMap.contains_eq_true]
      exact (FMap.mem_keys_iff _ _).1 (by rw [h.keys]; exact hold)
    have htot := h.total
    rw [if_neg (Finset.ne_empty_of_mem hold)] at htot
    rw [Reassembler.canAccept, if_neg (by omega), if_neg (by omega),
      if_neg (by omega), htot] at hacc
    simp [hcontains] at hacc

/-- Any piece adds its index. -/
theorem Collected.receive (h : Collected frags ids r)
    (hfrag : Fragmentation frags payload) (hf : f ∈ frags) :
    Collected frags (insert f.fragmentId ids) (r.addFragment f).2 := by
  by_cases hold : f.fragmentId ∈ ids
  · rw [h.again hfrag hf hold, Finset.insert_eq_of_mem hold]
    exact h
  · obtain ⟨-, r', hadd, hcoll⟩ := h.add hfrag hf hold
    rw [hadd]
    exact hcoll

/-- Bodies of pieces leave a reassembler with exactly their indices. -/
theorem Collected.receiveAll (h : Collected frags ids r)
    (hfrag : Fragmentation frags payload) {given : List Fragment}
    (hgiven : ∀ f ∈ given, f ∈ frags) :
    Collected frags (ids ∪ (given.map Fragment.fragmentId).toFinset)
      ((given.map serializeFragment).foldl Reassembler.addBody r) := by
  induction given generalizing ids r with
  | nil =>
      rw [List.map_nil, List.toFinset_nil, Finset.union_empty]
      exact h
  | cons f rest ih =>
      have hf := hgiven f List.mem_cons_self
      have hbody : r.addBody (serializeFragment f) = (r.addFragment f).2 := by
        rw [Reassembler.addBody,
          deserializeFragment_serialize (hfrag.valid hf)]
      have hrest := ih (h.receive hfrag hf)
        fun g hg => hgiven g (List.mem_cons_of_mem _ hg)
      rw [List.map_cons, List.map_cons, List.foldl_cons, hbody,
        List.toFinset_cons, Finset.union_insert,
        ← Finset.insert_union]
      exact hrest

/-- A piece is determined by its index. -/
theorem Fragmentation.getElem?_id (hfrag : Fragmentation frags payload)
    (hf : f ∈ frags) : frags[f.fragmentId]? = some f := by
  obtain ⟨i, hi, hget⟩ := List.mem_iff_getElem.1 hf
  have hsome : frags[i]? = some f := by
    rw [List.getElem?_eq_getElem hi, hget]
  rw [(hfrag.piece i f hsome).1, hsome]

/-- The indices given are all of them when every piece was given. -/
theorem Fragmentation.ids_eq_range_iff
    (hfrag : Fragmentation frags payload) {given : List Fragment}
    (hgiven : ∀ f ∈ given, f ∈ frags) :
    (given.map Fragment.fragmentId).toFinset = Finset.range frags.length
      ↔ ∀ f ∈ frags, f ∈ given := by
  have hpiece : ∀ f ∈ frags, frags[f.fragmentId]? = some f :=
    fun f hf => hfrag.getElem?_id hf
  constructor
  · intro hids f hf
    obtain ⟨hid, -⟩ := List.getElem?_eq_some_iff.1 (hpiece f hf)
    have hmem : f.fragmentId ∈ (given.map Fragment.fragmentId).toFinset := by
      rw [hids]
      exact Finset.mem_range.2 hid
    rw [List.mem_toFinset, List.mem_map] at hmem
    obtain ⟨g, hg, heq⟩ := hmem
    have hsame := hpiece g (hgiven g hg)
    rw [heq, hpiece f hf] at hsame
    cases hsame
    exact hg
  · intro hall
    ext i
    rw [List.mem_toFinset, List.mem_map, Finset.mem_range]
    constructor
    · intro hi
      obtain ⟨f, hf, rfl⟩ := hi
      exact (List.getElem?_eq_some_iff.1 (hpiece f (hgiven f hf))).1
    · intro hi
      exact ⟨frags[i], hall _ (List.getElem_mem hi),
        (hfrag.piece i _ (List.getElem?_eq_getElem hi)).1⟩

end Pieces

-- ======== round trip

/-- A payload within the limit is given back by any sequence of its
fragments that has all of them, and by no other; and on a reassembler
that calls can reach, `can_accept` tells what `add_fragment` does. -/
theorem fragmentation_round_trip (payload : List UInt8) (now : Nat)
    (h : payload.length ≤ MAX_FRAGMENTS_PER_MESSAGE * MAX_FRAGMENT_DATA) :
    (∀ f ∈ fragmentPayload payload,
        deserializeFragment (serializeFragment f) = .ok f)
      ∧ (∀ given : List Fragment,
        (∀ f ∈ given, f ∈ fragmentPayload payload) →
        ∀ r, r = (given.map serializeFragment).foldl Reassembler.addBody
            (.new now) →
          (r.isComplete = true ↔ ∀ f ∈ fragmentPayload payload, f ∈ given)
            ∧ (r.isComplete = true → r.reassemble = .ok payload))
      ∧ ∀ (r : Reassembler) (f : Fragment), r.Reachable →
          r.canAccept f = (r.addFragment f).1
            ∧ ((r.addFragment f).1 = false → (r.addFragment f).2 = r) := by
  have hfrag := fragmentPayload_fragmentation h
  refine ⟨fun f hf => deserializeFragment_serialize (hfrag.valid hf), ?_, ?_⟩
  · intro given hgiven r hr
    have hcoll := (Collected.new (fragmentPayload payload) now).receiveAll
      hfrag hgiven
    rw [Finset.empty_union, ← hr] at hcoll
    have hiff := hcoll.isComplete_iff hfrag.pos
    constructor
    · rw [hiff]
      exact hfrag.ids_eq_range_iff hgiven
    · intro hc
      rw [hiff.1 hc] at hcoll
      exact hcoll.reassemble hfrag
  · intro r f hr
    rcases Reassembler.addFragment_cases hr.orderly f with
      ⟨hacc, hadd⟩ | ⟨hacc, hadd⟩
    · rw [hacc, hadd]
      exact ⟨rfl, fun _ => rfl⟩
    · rw [hacc, hadd]
      refine ⟨rfl, fun hfalse => ?_⟩
      cases hfalse

/-- A reassembler that got two fragments, the last one first. -/
def lastFirst : Reassembler :=
  ((fragmentPayload (List.replicate 1013 7)).reverse.map
    serializeFragment).foldl Reassembler.addBody (.new 0)

theorem fragmentation_round_trip_reversed :
    lastFirst.isComplete = true
      ∧ lastFirst.reassemble = .ok (List.replicate 1013 7) := by
  have hlen : (List.replicate 1013 (7 : UInt8)).length
      ≤ MAX_FRAGMENTS_PER_MESSAGE * MAX_FRAGMENT_DATA := by
    rw [List.length_replicate]
    decide
  have hrun := (fragmentation_round_trip (List.replicate 1013 7) 0 hlen).2.1
    _ (fun f hf => List.mem_reverse.1 hf) lastFirst rfl
  have hc := hrun.1.2 fun f hf => List.mem_reverse.2 hf
  exact ⟨hc, hrun.2 hc⟩

end StaticNet
