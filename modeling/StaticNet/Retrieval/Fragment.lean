/-
Fragments of a long message, and their reassembly
(`static-mesh/src/fragment.rs`).

A message is cut into pieces that fit a Sphinx body. Each piece carries
its index and the number of pieces, and nothing that says which message
it is a piece of. What a reassembler has received of one message is a
set of indices (`Collected`); adding a piece adds its index, and when
the set is everything the pieces concatenate to the message.
-/
import StaticNet.Lib.FMap
import StaticNet.Sphinx.Basic

namespace StaticNet

-- ============== data

def FRAGMENT_HEADER_SIZE : Nat := 12

def MAX_FRAGMENT_DATA : Nat := BODY_SIZE - FRAGMENT_HEADER_SIZE

def MAX_FRAGMENTS_PER_MESSAGE : Nat := 2048

structure Fragment where
  fragmentId : Nat
  totalFragments : Nat
  data : List UInt8
deriving DecidableEq

inductive FragmentError
  | tooShort
  | noFragments
  | missingFragment (i : Nat)
deriving DecidableEq

/-- `fragment_payload`. -/
def fragmentPayload (payload : List UInt8) : List Fragment :=
  let total := max ((MAX_FRAGMENT_DATA - 1 + payload.length)
    / MAX_FRAGMENT_DATA % 2 ^ 32) 1
  (List.range total).map fun i =>
    { fragmentId := i
      totalFragments := total
      data := (payload.drop (i * MAX_FRAGMENT_DATA)).take
        MAX_FRAGMENT_DATA }

/-- `serialize_fragment`: header, data, zeros up to a full body. -/
def serializeFragment (f : Fragment) : List UInt8 :=
  let dataLen := min f.data.length MAX_FRAGMENT_DATA
  padTo BODY_SIZE (beBytes 4 f.fragmentId
    ++ (beBytes 4 f.totalFragments
    ++ (beBytes 4 dataLen ++ f.data.take dataLen)))

/-- `deserialize_fragment`. -/
def deserializeFragment (body : List UInt8) :
    Except FragmentError Fragment :=
  if body.length < FRAGMENT_HEADER_SIZE then .error .tooShort
  else
    let dataLen := ofBeBytes (slice body 8 4)
    if body.length < FRAGMENT_HEADER_SIZE + dataLen then .error .tooShort
    else
      .ok
        { fragmentId := ofBeBytes (slice body 0 4)
          totalFragments := ofBeBytes (slice body 4 4)
          data := slice body FRAGMENT_HEADER_SIZE dataLen }

/-- A fragment a reassembler can take. -/
def Fragment.Valid (f : Fragment) : Prop :=
  0 < f.totalFragments ∧ f.totalFragments ≤ MAX_FRAGMENTS_PER_MESSAGE
    ∧ f.fragmentId < f.totalFragments
    ∧ f.data.length ≤ MAX_FRAGMENT_DATA

instance (f : Fragment) : Decidable f.Valid := by
  unfold Fragment.Valid
  infer_instance

-- ======= reassembler

structure Reassembler where
  totalExpected : Option Nat
  fragments : FMap Nat (List UInt8)
  createdAt : Nat

namespace Reassembler

def new (now : Nat) : Reassembler := ⟨none, ∅, now⟩

/-- The tail of `add_fragment`, once the total is agreed on. -/
def store (r : Reassembler) (f : Fragment) : Bool × Reassembler :=
  if r.fragments.contains f.fragmentId then (false, r)
  else
    (true,
      { r with fragments := r.fragments.insert f.fragmentId f.data })

def addFragment (r : Reassembler) (f : Fragment) : Bool × Reassembler :=
  if f.totalFragments = 0
      ∨ MAX_FRAGMENTS_PER_MESSAGE < f.totalFragments then (false, r)
  else if f.totalFragments ≤ f.fragmentId then (false, r)
  else if MAX_FRAGMENT_DATA < f.data.length then (false, r)
  else
    match r.totalExpected with
    | none => { r with totalExpected := some f.totalFragments }.store f
    | some expected =>
        if expected ≠ f.totalFragments then (false, r) else r.store f

def canAccept (r : Reassembler) (f : Fragment) : Bool :=
  if f.totalFragments = 0
      ∨ MAX_FRAGMENTS_PER_MESSAGE < f.totalFragments then false
  else if f.totalFragments ≤ f.fragmentId then false
  else if MAX_FRAGMENT_DATA < f.data.length then false
  else
    match r.totalExpected with
    | none => true
    | some expected =>
        expected = f.totalFragments ∧ ¬ r.fragments.contains f.fragmentId

def isExpired (r : Reassembler) (now timeoutSecs : Nat) : Bool :=
  timeoutSecs ≤ now - r.createdAt

/-- `cleanup_expired`: an old session starts over, empty. -/
def cleanupExpired (r : Reassembler) (now timeoutSecs : Nat) :
    Reassembler :=
  if r.isExpired now timeoutSecs then new now else r

def isComplete (r : Reassembler) : Bool :=
  match r.totalExpected with
  | some total => r.fragments.len = total
  | none => false

/-- The loop of `reassemble`, from index `i` over `n` more pieces. -/
def gather (r : Reassembler) : Nat → Nat →
    Except FragmentError (List UInt8)
  | _, 0 => .ok []
  | i, n + 1 =>
      match r.fragments.get i with
      | none => .error (.missingFragment i)
      | some data =>
          match r.gather (i + 1) n with
          | .error e => .error e
          | .ok rest => .ok (data ++ rest)

def reassemble (r : Reassembler) : Except FragmentError (List UInt8) :=
  match r.totalExpected with
  | none => .error .noFragments
  | some total => r.gather 0 total

end Reassembler

-- ========== encoding

theorem length_serializeFragment (f : Fragment) :
    (serializeFragment f).length = BODY_SIZE := by
  apply length_padTo
  simp only [List.length_append, length_beBytes, List.length_take,
    MAX_FRAGMENT_DATA, FRAGMENT_HEADER_SIZE, BODY_SIZE]
  omega

/-- A header and its data are read back, whatever follows them. -/
theorem deserializeFragment_append {f : Fragment} (h : f.Valid)
    (pad : List UInt8) :
    deserializeFragment (beBytes 4 f.fragmentId
        ++ (beBytes 4 f.totalFragments
        ++ (beBytes 4 f.data.length ++ (f.data ++ pad)))) = .ok f := by
  obtain ⟨hpos, hmax, hid, hdata⟩ := h
  have hw : ∀ n, n ≤ MAX_FRAGMENTS_PER_MESSAGE →
      ofBeBytes (beBytes 4 n) = n := by
    intro n hn
    refine ofBeBytes_beBytes_of_lt (Nat.lt_of_le_of_lt hn ?_)
    decide
  have hlenFits : f.data.length ≤ MAX_FRAGMENTS_PER_MESSAGE :=
    Nat.le_trans hdata (by decide)
  generalize heq : beBytes 4 f.fragmentId ++ (beBytes 4 f.totalFragments
    ++ (beBytes 4 f.data.length ++ (f.data ++ pad))) = body
  have hlen : FRAGMENT_HEADER_SIZE + f.data.length ≤ body.length := by
    rw [← heq]
    simp only [List.length_append, length_beBytes, FRAGMENT_HEADER_SIZE]
    omega
  have hread : slice body 0 4 = beBytes 4 f.fragmentId := by
    rw [← heq, slice_here (length_beBytes _ _)]
  have htotal : slice body 4 4 = beBytes 4 f.totalFragments := by
    rw [← heq, slice_skip (by rw [length_beBytes]), length_beBytes,
      Nat.sub_self, slice_here (length_beBytes _ _)]
  have hsize : slice body 8 4 = beBytes 4 f.data.length := by
    rw [← heq, slice_skip (by rw [length_beBytes]; omega), length_beBytes,
      slice_skip (by rw [length_beBytes]), length_beBytes, Nat.sub_self,
      slice_here (length_beBytes _ _)]
  have hbytes : slice body FRAGMENT_HEADER_SIZE f.data.length
      = f.data := by
    rw [← heq, FRAGMENT_HEADER_SIZE,
      slice_skip (by rw [length_beBytes]; omega), length_beBytes,
      slice_skip (by rw [length_beBytes]; omega), length_beBytes,
      slice_skip (by rw [length_beBytes]), length_beBytes, Nat.sub_self,
      slice_here rfl]
  rw [deserializeFragment, if_neg (by omega)]
  simp only [hsize, hw _ hlenFits, hread, htotal, hbytes,
    hw _ (Nat.le_trans (Nat.le_of_lt hid) hmax), hw _ hmax]
  rw [if_neg (by omega)]

/-- What a reassembler can take survives its encoding. -/
theorem deserializeFragment_serialize {f : Fragment} (h : f.Valid) :
    deserializeFragment (serializeFragment f) = .ok f := by
  have heq : serializeFragment f
      = beBytes 4 f.fragmentId ++ (beBytes 4 f.totalFragments
        ++ (beBytes 4 f.data.length ++ (f.data
        ++ List.replicate (MAX_FRAGMENT_DATA - f.data.length) 0))) := by
    simp only [serializeFragment, Nat.min_eq_left h.2.2.2, List.take_length,
      padTo, List.append_assoc, List.length_append, length_beBytes]
    congr 5
    simp only [MAX_FRAGMENT_DATA, FRAGMENT_HEADER_SIZE]
    omega
  rw [heq, deserializeFragment_append h]

-- ===== fragmentation

/-- The pieces of one message, in order. -/
structure Fragmentation (frags : List Fragment) (payload : List UInt8) :
    Prop where
  pos : 0 < frags.length
  at_most : frags.length ≤ MAX_FRAGMENTS_PER_MESSAGE
  piece : ∀ (i : Nat) (f : Fragment), frags[i]? = some f →
    f.fragmentId = i ∧ f.totalFragments = frags.length
      ∧ f.data.length ≤ MAX_FRAGMENT_DATA
  concat : (frags.map Fragment.data).flatten = payload

/-- Enough windows cover the whole. -/
theorem le_ceil_mul {m : Nat} (hm : 0 < m) (n : Nat) :
    n ≤ (m - 1 + n) / m * m := by
  have hdiv := Nat.div_add_mod (m - 1 + n) m
  have hlt := Nat.mod_lt (m - 1 + n) hm
  rw [Nat.mul_comm]
  omega

/-- Windows that cover a payload are its pieces. -/
theorem fragmentation_windows {payload : List UInt8} {m total : Nat}
    (hpos : 0 < total) (hmost : total ≤ MAX_FRAGMENTS_PER_MESSAGE)
    (hm : m ≤ MAX_FRAGMENT_DATA) (hcover : payload.length ≤ total * m) :
    Fragmentation
      ((List.range total).map fun i =>
        ⟨i, total, (payload.drop (i * m)).take m⟩) payload where
  pos := by
    rw [List.length_map, List.length_range]
    exact hpos
  at_most := by
    rw [List.length_map, List.length_range]
    exact hmost
  piece := by
    intro i f hf
    rw [List.getElem?_map] at hf
    obtain ⟨j, hj, rfl⟩ := Option.map_eq_some_iff.1 hf
    obtain ⟨hi, hget⟩ := List.getElem?_eq_some_iff.1 hj
    obtain rfl : i = j := by rw [← hget, List.getElem_range]
    refine ⟨rfl, ?_, Nat.le_trans (List.length_take_le _ _) hm⟩
    rw [List.length_map, List.length_range]
  concat := by
    rw [List.map_map]
    exact (flatten_windows payload m total).trans
      (List.take_of_length_le hcover)

/-- A payload that fits the limit is cut into pieces that give it
back. -/
theorem fragmentPayload_fragmentation {payload : List UInt8}
    (h : payload.length ≤ MAX_FRAGMENTS_PER_MESSAGE * MAX_FRAGMENT_DATA) :
    Fragmentation (fragmentPayload payload) payload := by
  have hm : MAX_FRAGMENT_DATA = 1012 := rfl
  have hx : MAX_FRAGMENTS_PER_MESSAGE = 2048 := rfl
  have hcover := le_ceil_mul (by decide : 0 < MAX_FRAGMENT_DATA)
    payload.length
  rw [hm, hx] at h
  have hmod : (MAX_FRAGMENT_DATA - 1 + payload.length) / MAX_FRAGMENT_DATA
      % 2 ^ 32
      = (MAX_FRAGMENT_DATA - 1 + payload.length) / MAX_FRAGMENT_DATA := by
    rw [hm]
    apply Nat.mod_eq_of_lt
    omega
  refine fragmentation_windows ?_ ?_ (Nat.le_refl _) ?_
  · exact Nat.lt_of_lt_of_le Nat.one_pos (Nat.le_max_right _ _)
  · rw [hmod, hm, hx]
    omega
  · rw [hmod]
    exact Nat.le_trans hcover
      (Nat.mul_le_mul_right _ (Nat.le_max_left _ _))

theorem Fragmentation.valid {frags : List Fragment} {payload : List UInt8}
    (h : Fragmentation frags payload) {f : Fragment} (hf : f ∈ frags) :
    f.Valid := by
  obtain ⟨i, hi, hget⟩ := List.mem_iff_getElem.1 hf
  obtain ⟨hid, htotal, hdata⟩ :=
    h.piece i f (by rw [List.getElem?_eq_getElem hi, hget])
  exact ⟨by rw [htotal]; exact h.pos, by rw [htotal]; exact h.at_most,
    by rw [hid, htotal]; exact hi, hdata⟩

-- ======== collecting

/-- A reassembler takes a valid fragment that it lacks and whose total it
does not contradict. -/
theorem Reassembler.add_missing {r : Reassembler} {f : Fragment}
    (hf : f.Valid)
    (htotal : r.totalExpected = none
      ∨ r.totalExpected = some f.totalFragments)
    (hnone : r.fragments.get f.fragmentId = none) :
    r.canAccept f = true
      ∧ r.addFragment f
        = (true, ⟨some f.totalFragments,
          r.fragments.insert f.fragmentId f.data, r.createdAt⟩) := by
  obtain ⟨hpos, hmax, hid, hdata⟩ := hf
  have hbad : ¬ (f.totalFragments = 0
      ∨ MAX_FRAGMENTS_PER_MESSAGE < f.totalFragments) := by omega
  have hcontains : r.fragments.contains f.fragmentId = false := by
    rw [FMap.contains, hnone]
    rfl
  rw [Reassembler.canAccept, Reassembler.addFragment, if_neg hbad,
    if_neg hbad, if_neg (by omega), if_neg (by omega), if_neg (by omega),
    if_neg (by omega)]
  rcases htotal with htotal | htotal
  · simp only [htotal, Reassembler.store, hcontains, Bool.false_eq_true,
      if_false, and_self]
  · simp [htotal, Reassembler.store, hcontains]

/-- A reassembler that holds exactly the pieces of one message whose
indices are in `ids`. -/
structure Collected (frags : List Fragment) (ids : Finset Nat)
    (r : Reassembler) : Prop where
  total : r.totalExpected = if ids = ∅ then none else some frags.length
  held : ∀ i, r.fragments.get i
    = if i ∈ ids then (frags[i]?).map Fragment.data else none
  bound : ∀ i ∈ ids, i < frags.length

theorem Collected.new (frags : List Fragment) (now : Nat) :
    Collected frags ∅ (Reassembler.new now) :=
  ⟨rfl, fun _ => rfl, fun _ h => absurd h (Finset.notMem_empty _)⟩

section Collected

variable {frags : List Fragment} {payload : List UInt8} {ids : Finset Nat}
  {r : Reassembler} {f : Fragment}

theorem Collected.keys (h : Collected frags ids r) :
    r.fragments.keys = ids := by
  ext i
  rw [FMap.mem_keys_iff]
  constructor
  · rintro ⟨data, hdata⟩
    rw [h.held] at hdata
    by_contra hi
    rw [if_neg hi] at hdata
    cases hdata
  · intro hi
    have hlt := h.bound i hi
    exact ⟨frags[i].data, by
      rw [h.held, if_pos hi, List.getElem?_eq_getElem hlt]
      rfl⟩

/-- A piece of the message that is missing is taken. -/
theorem Collected.add (h : Collected frags ids r)
    (hfrag : Fragmentation frags payload) (hf : f ∈ frags)
    (hnew : f.fragmentId ∉ ids) :
    r.canAccept f = true
      ∧ ∃ r', r.addFragment f = (true, r')
        ∧ Collected frags (insert f.fragmentId ids) r' := by
  obtain ⟨i, hi, hget⟩ := List.mem_iff_getElem.1 hf
  have hsome : frags[i]? = some f := by
    rw [List.getElem?_eq_getElem hi, hget]
  obtain ⟨hfid, htotal, -⟩ := hfrag.piece i f hsome
  have hexpected : r.totalExpected = none
      ∨ r.totalExpected = some f.totalFragments := by
    rw [h.total, htotal]
    by_cases hempty : ids = ∅
    · exact Or.inl (if_pos hempty)
    · exact Or.inr (if_neg hempty)
  have hnone : r.fragments.get f.fragmentId = none := by
    rw [h.held, if_neg hnew]
  obtain ⟨hacc, hadd⟩ :=
    Reassembler.add_missing (hfrag.valid hf) hexpected hnone
  refine ⟨hacc, _, hadd, ?_, ?_, ?_⟩
  · rw [if_neg (Finset.insert_ne_empty _ _), htotal]
  · intro j
    simp only [FMap.get_insert]
    by_cases hj : j = f.fragmentId
    · rw [if_pos hj, if_pos (by rw [hj]; exact Finset.mem_insert_self _ _),
        hj, hfid, hsome]
      rfl
    · rw [if_neg hj, h.held]
      simp only [Finset.mem_insert, hj, false_or]
  · intro j hj
    rw [Finset.mem_insert] at hj
    rcases hj with rfl | hj
    · rw [hfid]
      exact hi
    · exact h.bound j hj

/-- A reassembler is complete when it has every index. -/
theorem Collected.isComplete_iff (h : Collected frags ids r)
    (hpos : 0 < frags.length) :
    r.isComplete = true ↔ ids = Finset.range frags.length := by
  have hsub : ids ⊆ Finset.range frags.length := fun i hi =>
    Finset.mem_range.2 (h.bound i hi)
  by_cases hempty : ids = ∅
  · have htot := h.total
    rw [if_pos hempty] at htot
    rw [Reassembler.isComplete, htot, hempty]
    constructor
    · intro hc
      cases hc
    · intro heq
      have := congrArg Finset.card heq
      rw [Finset.card_empty, Finset.card_range] at this
      omega
  · have htot := h.total
    rw [if_neg hempty] at htot
    rw [Reassembler.isComplete, htot]
    simp only [decide_eq_true_eq, FMap.len, h.keys]
    constructor
    · intro hcard
      exact Finset.eq_of_subset_of_card_le hsub (by
        rw [Finset.card_range, hcard])
    · intro heq
      rw [heq, Finset.card_range]

/-- The gathering loop reads the pieces in order. -/
theorem Collected.gather (h : Collected frags ids r) {i n : Nat}
    (hall : ∀ j, i ≤ j → j < i + n → j ∈ ids) :
    r.gather i n
      = .ok (((frags.drop i).take n).map Fragment.data).flatten := by
  induction n generalizing i with
  | zero => simp [Reassembler.gather]
  | succ n ih =>
      have hi : i ∈ ids := hall i (Nat.le_refl i) (by omega)
      have hlt := h.bound i hi
      have hget : r.fragments.get i = some frags[i].data := by
        rw [h.held, if_pos hi, List.getElem?_eq_getElem hlt]
        rfl
      rw [Reassembler.gather, hget,
        ih fun j hj hjn => hall j (by omega) (by omega)]
      rw [List.drop_eq_getElem_cons hlt, List.take_succ_cons,
        List.map_cons, List.flatten_cons]

theorem Collected.reassemble
    (h : Collected frags (Finset.range frags.length) r)
    (hfrag : Fragmentation frags payload) :
    r.reassemble = .ok payload := by
  have hne : Finset.range frags.length ≠ ∅ := by
    have := hfrag.pos
    rw [Ne, Finset.range_eq_empty_iff]
    omega
  have htot := h.total
  rw [if_neg hne] at htot
  rw [Reassembler.reassemble, htot]
  simp only
  rw [h.gather fun j _ hj => Finset.mem_range.2 (by omega), List.drop_zero,
    List.take_length, hfrag.concat]

end Collected

end StaticNet
