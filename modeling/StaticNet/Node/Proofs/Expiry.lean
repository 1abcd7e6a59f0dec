/-
When a message is put together before its session expires
(`static-mesh/src/fragment.rs`, the fragment handlers of
`static-node/src/runner.rs`).

A dispatcher's reassembler is one object that serves one message after
the other. Its `created_at` is the moment it was set up: at the start of
the node, after the previous message, or when an expired session was
cleared. It is not the moment a message began. So a message whose first
fragment finds an idle reassembler just short of the timeout is cleared
half way (`idle_message_cleared`).

`served_iff` says exactly when a message is put together: what the
session already holds, completed by the message's fragments, is the
message, and no fragment that is still needed comes at or after the
session's end. Between fragments a session is `Waiting`: it holds
indices below the total it expects, and not all of them.
-/
import StaticNet.Node.Inbound
import StaticNet.Retrieval.Reassembly

namespace StaticNet

-- ==== a served session

namespace Reassembler

/-- Fragments as a dispatcher takes them, each with its time. -/
def offerAll (r : Reassembler) (arrivals : List (Nat × Fragment)) :
    Reassembler :=
  arrivals.foldl (fun r a => (r.offer a.1 a.2).2) r

/-- The session that the first of the fragments finds: an expired one
has been cleared. -/
def sessionAt (r : Reassembler) (arrivals : List (Nat × Fragment)) :
    Reassembler :=
  match arrivals with
  | [] => r
  | a :: _ => r.cleanupExpired a.1 300

/-- The first payload that comes out is this one, and until then no
cleanup clears the session. -/
def Serves (payload : List UInt8) :
    Reassembler → List (Nat × Fragment) → Prop
  | _, [] => False
  | r, a :: rest =>
      r.isExpired a.1 300 = false
        ∧ ((r.offer a.1 a.2).1 = some payload
          ∨ ((r.offer a.1 a.2).1 = none
            ∧ Serves payload (r.offer a.1 a.2).2 rest))

/-- No other number of pieces is expected. -/
def Expects (r : Reassembler) (frags : List Fragment) : Prop :=
  r.totalExpected = none ∨ r.totalExpected = some frags.length

/-- What the session holds, completed by the pieces. -/
def filled (r : Reassembler) (frags : List Fragment) : List UInt8 :=
  (frags.map fun f => (r.fragments.get f.fragmentId).getD f.data).flatten

/-- As long as a piece is missing, what arrives arrives before the end
of the session. -/
def InTime (r : Reassembler) (frags : List Fragment)
    (arrivals : List (Nat × Fragment)) : Prop :=
  ∀ pre a post, arrivals = pre ++ a :: post →
    (∃ f ∈ frags, r.fragments.get f.fragmentId = none
      ∧ ∀ b ∈ pre, b.2 ≠ f) →
    a.1 < r.createdAt + 300

end Reassembler

/-- All fragments of a message arrive, with no others in between, within
the timeout of one another. -/
structure MessageArrives (payload : List UInt8)
    (arrivals : List (Nat × Fragment)) : Prop where
  fits : payload.length ≤ MAX_FRAGMENTS_PER_MESSAGE * MAX_FRAGMENT_DATA
  own : ∀ a ∈ arrivals, a.2 ∈ fragmentPayload payload
  all : ∀ f ∈ fragmentPayload payload, ∃ a ∈ arrivals, a.2 = f
  ordered : arrivals.Pairwise fun a b => a.1 ≤ b.1
  prompt : ∀ a ∈ arrivals, ∀ b ∈ arrivals, b.1 ≤ a.1 + 300

-- ========== sessions

namespace Reassembler

/-- The indices held are below the total expected. -/
structure Bounded (r : Reassembler) : Prop where
  orderly : r.Orderly
  bound : ∀ total, r.totalExpected = some total →
    ∀ i ∈ r.fragments.keys, i < total

/-- A session between two fragments. -/
structure Waiting (r : Reassembler) : Prop extends Bounded r where
  incomplete : r.isComplete = false

variable {r : Reassembler} {f : Fragment} {now : Nat}

theorem waiting_new (now : Nat) : (new now).Waiting where
  orderly := new_orderly now
  bound := by
    intro total h
    cases h
  incomplete := rfl

theorem Waiting.cleanup (h : r.Waiting) (now timeoutSecs : Nat) :
    (r.cleanupExpired now timeoutSecs).Waiting := by
  rw [cleanupExpired]
  by_cases hold : r.isExpired now timeoutSecs = true
  · rw [if_pos hold]
    exact waiting_new now
  · rw [if_neg hold]
    exact h

/-- What is taken has an index below its total. -/
theorem valid_of_canAccept (h : r.canAccept f = true) : f.Valid := by
  rw [canAccept] at h
  by_cases hbad : f.totalFragments = 0
      ∨ MAX_FRAGMENTS_PER_MESSAGE < f.totalFragments
  · rw [if_pos hbad] at h
    cases h
  rw [if_neg hbad] at h
  by_cases hid : f.totalFragments ≤ f.fragmentId
  · rw [if_pos hid] at h
    cases h
  rw [if_neg hid] at h
  by_cases hdata : MAX_FRAGMENT_DATA < f.data.length
  · rw [if_pos hdata] at h
    cases h
  exact ⟨by omega, by omega, by omega, by omega⟩

/-- What is taken does not contradict the total. -/
theorem total_of_canAccept (h : r.canAccept f = true) :
    r.totalExpected = none ∨ r.totalExpected = some f.totalFragments := by
  obtain ⟨hpos, hmax, hid, hdata⟩ := valid_of_canAccept h
  rw [canAccept, if_neg (by omega), if_neg (by omega),
    if_neg (by omega)] at h
  cases htotal : r.totalExpected with
  | none => exact Or.inl rfl
  | some expected =>
      rw [htotal] at h
      simp only [decide_eq_true_eq] at h
      rw [h.1]
      exact Or.inr rfl

/-- What is taken was missing. -/
theorem lacks_of_canAccept (h : r.Orderly) (hacc : r.canAccept f = true) :
    r.fragments.get f.fragmentId = none := by
  obtain ⟨hpos, hmax, hid, hdata⟩ := valid_of_canAccept hacc
  cases htotal : r.totalExpected with
  | none =>
      rw [h htotal]
      rfl
  | some expected =>
      rw [canAccept, if_neg (by omega), if_neg (by omega),
        if_neg (by omega), htotal] at hacc
      simp only [decide_eq_true_eq] at hacc
      rw [FMap.contains_eq_true, ← Option.ne_none_iff_exists',
        not_not] at hacc
      exact hacc.2

/-- Taking a fragment keeps the indices below the total. -/
theorem Bounded.taken (h : r.Bounded) (hacc : r.canAccept f = true) :
    (⟨some f.totalFragments, r.fragments.insert f.fragmentId f.data,
      r.createdAt⟩ : Reassembler).Bounded where
  orderly := by
    intro hnone
    cases hnone
  bound := by
    intro total htotal i hi
    cases htotal
    rw [FMap.insert, Finset.mem_insert] at hi
    rcases hi with rfl | hi
    · exact (valid_of_canAccept hacc).2.2.1
    · rcases total_of_canAccept hacc with hnone | hsome
      · rw [h.orderly hnone] at hi
        exact absurd hi (Finset.notMem_empty i)
      · exact h.bound _ hsome i hi

/-- A live session that refuses a fragment stays as it is. -/
theorem offer_refused (hlive : r.isExpired now 300 = false)
    (hadd : r.addFragment f = (false, r)) : r.offer now f = (none, r) := by
  have hclean : r.cleanupExpired now 300 = r := by
    rw [cleanupExpired, hlive]
    rfl
  rw [offer, hclean, hadd]
  rfl

/-- One that takes a fragment and is not complete waits on. -/
theorem offer_waits {r' : Reassembler}
    (hlive : r.isExpired now 300 = false)
    (hadd : r.addFragment f = (true, r')) (hc : r'.isComplete = false) :
    r.offer now f = (none, r') := by
  have hclean : r.cleanupExpired now 300 = r := by
    rw [cleanupExpired, hlive]
    rfl
  rw [offer, hclean, hadd]
  simp [hc]

/-- One that is complete gives its payload. -/
theorem offer_completes {r' : Reassembler} {payload : List UInt8}
    (hlive : r.isExpired now 300 = false)
    (hadd : r.addFragment f = (true, r')) (hc : r'.isComplete = true)
    (hget : r'.reassemble = .ok payload) :
    (r.offer now f).1 = some payload := by
  have hclean : r.cleanupExpired now 300 = r := by
    rw [cleanupExpired, hlive]
    rfl
  rw [offer, hclean, hadd]
  simp [hc, hget]

/-- A session that has just been cleaned up is live. -/
theorem isExpired_cleanup (r : Reassembler) (now : Nat) :
    (r.cleanupExpired now 300).isExpired now 300 = false := by
  rw [cleanupExpired]
  by_cases hold : r.isExpired now 300 = true
  · rw [if_pos hold]
    simp [isExpired, new]
  · rw [if_neg hold]
    exact Bool.eq_false_of_not_eq_true hold

theorem offer_cleanup (r : Reassembler) (now : Nat) (f : Fragment) :
    (r.cleanupExpired now 300).offer now f = r.offer now f := by
  have hlive := isExpired_cleanup r now
  have hclean : (r.cleanupExpired now 300).cleanupExpired now 300
      = r.cleanupExpired now 300 := by
    rw [cleanupExpired, hlive]
    rfl
  rw [offer, hclean]
  rfl

/-- A dispatcher leaves a session that waits. -/
theorem Waiting.offer (h : r.Waiting) (now : Nat) (f : Fragment) :
    (r.offer now f).2.Waiting := by
  rw [← offer_cleanup]
  have hlive := isExpired_cleanup r now
  have hw := h.cleanup now 300
  generalize r.cleanupExpired now 300 = r at hlive hw
  rcases addFragment_cases hw.orderly f with ⟨-, hadd⟩ | ⟨hacc, hadd⟩
  · rw [offer_refused hlive hadd]
    exact hw
  · have hb := hw.toBounded.taken hacc
    cases hc : isComplete ⟨some f.totalFragments,
        r.fragments.insert f.fragmentId f.data, r.createdAt⟩ with
    | false =>
        rw [offer_waits hlive hadd hc]
        exact ⟨hb, hc⟩
    | true =>
        have hclean : r.cleanupExpired now 300 = r := by
          rw [cleanupExpired, hlive]
          rfl
        rw [Reassembler.offer, hclean, hadd]
        simp only [hc, Bool.not_true, Bool.false_eq_true, if_false]
        cases hget : reassemble ⟨some f.totalFragments,
            r.fragments.insert f.fragmentId f.data, r.createdAt⟩ with
        | ok payload => exact waiting_new now
        | error e => exact waiting_new now

theorem Waiting.offerAll (h : r.Waiting)
    (arrivals : List (Nat × Fragment)) : (r.offerAll arrivals).Waiting := by
  induction arrivals generalizing r with
  | nil => exact h
  | cons a rest ih => exact ih (h.offer a.1 a.2)

-- ======= one message

section Message

variable {frags : List Fragment} {payload : List UInt8}
  {arrivals : List (Nat × Fragment)} {t : Nat}
  (hfrag : Fragmentation frags payload)
include hfrag

/-- A session is complete when it holds every piece. -/
theorem Bounded.isComplete_iff (h : r.Bounded) (htot : r.Expects frags) :
    r.isComplete = true
      ↔ ∀ f ∈ frags, r.fragments.get f.fragmentId ≠ none := by
  have hpiece : ∀ i < frags.length, ∃ f ∈ frags, f.fragmentId = i := by
    intro i hi
    exact ⟨frags[i], List.getElem_mem hi,
      (hfrag.piece i _ (List.getElem?_eq_getElem hi)).1⟩
  rcases htot with htot | htot
  · rw [isComplete, htot, h.orderly htot]
    obtain ⟨f, hf, -⟩ := hpiece 0 hfrag.pos
    constructor
    · intro hc
      cases hc
    · intro hall
      exact absurd rfl (hall f hf)
  · have hsub : r.fragments.keys ⊆ Finset.range frags.length :=
      fun i hi => Finset.mem_range.2 (h.bound _ htot i hi)
    have hlen : r.isComplete = true
        ↔ r.fragments.keys.card = frags.length := by
      rw [isComplete, htot]
      exact decide_eq_true_iff
    rw [hlen]
    constructor
    · intro hcard f hf
      have heq := Finset.eq_of_subset_of_card_le hsub (by
        rw [Finset.card_range, hcard])
      have hlt := (List.getElem?_eq_some_iff.1 (hfrag.getElem?_id hf)).1
      have hmem : f.fragmentId ∈ r.fragments.keys := by
        rw [heq]
        exact Finset.mem_range.2 hlt
      obtain ⟨data, hdata⟩ := (FMap.mem_keys_iff _ _).1 hmem
      rw [hdata]
      exact Option.some_ne_none data
    · intro hall
      have heq : r.fragments.keys = Finset.range frags.length := by
        refine Finset.Subset.antisymm hsub ?_
        intro i hi
        obtain ⟨f, hf, rfl⟩ := hpiece i (Finset.mem_range.1 hi)
        exact (FMap.mem_keys_iff _ _).2
          (Option.ne_none_iff_exists'.1 (hall f hf))
      rw [heq, Finset.card_range]

/-- What holds every piece gathers what it holds. -/
theorem gather_filled
    (hall : ∀ f ∈ frags, r.fragments.get f.fragmentId ≠ none)
    {i n : Nat} (hn : i + n ≤ frags.length) :
    r.gather i n
      = .ok (((frags.drop i).take n).map fun f =>
          (r.fragments.get f.fragmentId).getD f.data).flatten := by
  induction n generalizing i with
  | zero => simp [gather]
  | succ n ih =>
      have hlt : i < frags.length := by omega
      have hid := (hfrag.piece i _ (List.getElem?_eq_getElem hlt)).1
      obtain ⟨data, hdata⟩ :=
        Option.ne_none_iff_exists'.1 (hall _ (List.getElem_mem hlt))
      rw [List.drop_eq_getElem_cons hlt, List.take_succ_cons,
        List.map_cons, List.flatten_cons, hdata]
      rw [hid] at hdata
      rw [gather, hdata, ih (by omega)]
      rfl

/-- A complete session gives what it holds. -/
theorem Bounded.reassemble (h : r.Bounded) (htot : r.Expects frags)
    (hc : r.isComplete = true) : r.reassemble = .ok (r.filled frags) := by
  have hall := (h.isComplete_iff hfrag htot).1 hc
  rcases htot with htot | htot
  · rw [isComplete, htot] at hc
    cases hc
  · rw [Reassembler.reassemble, htot]
    simp only
    rw [gather_filled hfrag hall (by omega), List.drop_zero,
      List.take_length]
    rfl

/-- A session that expects another number never gives the message. -/
theorem not_serves_of_total {total : Nat}
    (htot : r.totalExpected = some total) (hne : total ≠ frags.length)
    (hown : ∀ a ∈ arrivals, a.2 ∈ frags) (hr : r.Waiting) :
    ¬ Serves payload r arrivals := by
  induction arrivals with
  | nil => exact fun h => h
  | cons a rest ih =>
      intro hserves
      obtain ⟨hlive, hout⟩ := hserves
      have hf := hown a List.mem_cons_self
      obtain ⟨hid, hi⟩ :=
        List.getElem?_eq_some_iff.1 (hfrag.getElem?_id hf)
      have htotal : a.2.totalFragments = frags.length :=
        (hfrag.piece _ _ (hfrag.getElem?_id hf)).2.1
      have hrefuse : r.addFragment a.2 = (false, r) := by
        rcases addFragment_cases hr.orderly a.2 with ⟨-, hadd⟩ | ⟨hacc, -⟩
        · exact hadd
        · rcases total_of_canAccept hacc with hnone | hsome
          · rw [htot] at hnone
            cases hnone
          · rw [htot, htotal] at hsome
            exact absurd (Option.some.inj hsome) hne
      rw [offer_refused hlive hrefuse] at hout
      rcases hout with hout | ⟨-, hrest⟩
      · cases hout
      · exact ih (fun b hb => hown b (List.mem_cons_of_mem _ hb)) hrest

/-- What waits for the message lacks a piece of it. -/
theorem Waiting.lacks (hr : r.Waiting) (htot : r.Expects frags) :
    ∃ f ∈ frags, r.fragments.get f.fragmentId = none := by
  by_contra hno
  have hc := (hr.toBounded.isComplete_iff hfrag htot).2
    fun f hf hnone => hno ⟨f, hf, hnone⟩
  rw [hr.incomplete] at hc
  cases hc

omit hfrag in
/-- With the piece, what was missing and is not it is missing still. -/
def LeavesMissing (frags : List Fragment) (r r' : Reassembler)
    (f : Fragment) : Prop :=
  ∀ g ∈ frags, r'.fragments.get g.fragmentId = none
    ↔ r.fragments.get g.fragmentId = none ∧ f ≠ g

omit hfrag in
/-- What is missing after the first of the arrivals is among the rest. -/
theorem LeavesMissing.later {r' : Reassembler} {a : Nat × Fragment}
    {rest : List (Nat × Fragment)} (hleft : LeavesMissing frags r r' a.2)
    (hall : ∀ f ∈ frags, r.fragments.get f.fragmentId = none →
      ∃ b ∈ a :: rest, b.2 = f) :
    ∀ f ∈ frags, r'.fragments.get f.fragmentId = none →
      ∃ b ∈ rest, b.2 = f := by
  intro f hf hgone
  obtain ⟨hnone, hne⟩ := (hleft f hf).1 hgone
  obtain ⟨b, hb, hbf⟩ := hall f hf hnone
  rcases List.mem_cons.1 hb with rfl | hb
  · exact absurd hbf hne
  · exact ⟨b, hb, hbf⟩

omit hfrag in
/-- One arrival: the first is in time, and then the rest. -/
theorem inTime_cons {r' : Reassembler} {a : Nat × Fragment}
    {rest : List (Nat × Fragment)}
    (hcreated : r'.createdAt = r.createdAt)
    (hmiss : ∃ f ∈ frags, r.fragments.get f.fragmentId = none)
    (hleft : LeavesMissing frags r r' a.2) :
    r.InTime frags (a :: rest)
      ↔ a.1 < r.createdAt + 300 ∧ r'.InTime frags rest := by
  constructor
  · intro h
    refine ⟨h [] a rest rfl ?_, ?_⟩
    · obtain ⟨f, hf, hnone⟩ := hmiss
      exact ⟨f, hf, hnone, fun b hb => by cases hb⟩
    · intro pre b post heq hsome
      obtain ⟨f, hf, hnone, hpre⟩ := hsome
      rw [hcreated]
      refine h (a :: pre) b post (by rw [heq]; rfl) ⟨f, hf, ?_, ?_⟩
      · exact ((hleft f hf).1 hnone).1
      · intro c hc
        rcases List.mem_cons.1 hc with rfl | hc
        · exact ((hleft f hf).1 hnone).2
        · exact hpre c hc
  · intro h pre b post heq hsome
    obtain ⟨hfirst, hrest⟩ := h
    cases pre with
    | nil =>
        cases heq
        exact hfirst
    | cons c pre =>
        obtain ⟨f, hf, hnone, hpre⟩ := hsome
        cases heq
        rw [← hcreated]
        refine hrest pre b post rfl ⟨f, hf, ?_, ?_⟩
        · exact (hleft f hf).2 ⟨hnone, hpre a List.mem_cons_self⟩
        · exact fun d hd => hpre d (List.mem_cons_of_mem _ hd)

omit hfrag in
theorem isExpired_eq_false_iff (r : Reassembler) (now : Nat) :
    r.isExpired now 300 = false ↔ now < r.createdAt + 300 := by
  rw [isExpired, decide_eq_false_iff_not]
  omega

/-- A piece is refused because it is held. -/
theorem held_of_refused (htot : r.Expects frags) (hf : f ∈ frags)
    (hacc : r.canAccept f = false) :
    r.fragments.get f.fragmentId ≠ none := by
  intro hnone
  have htotal := (hfrag.piece _ _ (hfrag.getElem?_id hf)).2.1
  have htake := (add_missing (hfrag.valid hf) (htotal ▸ htot) hnone).1
  rw [hacc] at htake
  cases htake

omit hfrag in
theorem leavesMissing_held (hheld : r.fragments.get f.fragmentId ≠ none) :
    LeavesMissing frags r r f := by
  intro g _
  refine ⟨fun h => ⟨h, ?_⟩, fun h => h.1⟩
  rintro rfl
  exact hheld h

/-- The session with one more piece. -/
def withPiece (r : Reassembler) (f : Fragment) : Reassembler :=
  ⟨some f.totalFragments, r.fragments.insert f.fragmentId f.data,
    r.createdAt⟩

/-- Only the piece's own place is filled. -/
theorem get_withPiece (hf : f ∈ frags) {g : Fragment} (hg : g ∈ frags) :
    (r.withPiece f).fragments.get g.fragmentId
      = if g = f then some f.data else r.fragments.get g.fragmentId := by
  refine (FMap.get_insert _ _ _ _).trans ?_
  by_cases hid : g.fragmentId = f.fragmentId
  · have hsame := hfrag.getElem?_id hg
    rw [hid, hfrag.getElem?_id hf] at hsame
    rw [if_pos hid, if_pos (Option.some.inj hsame).symm]
  · have hne : g ≠ f := fun heq => hid (congrArg Fragment.fragmentId heq)
    rw [if_neg hid, if_neg hne]

theorem expects_withPiece (r : Reassembler) (hf : f ∈ frags) :
    (r.withPiece f).Expects frags :=
  .inr (congrArg some (hfrag.piece _ _ (hfrag.getElem?_id hf)).2.1)

theorem leavesMissing_withPiece (hf : f ∈ frags) :
    LeavesMissing frags r (r.withPiece f) f := by
  intro g hg
  rw [get_withPiece hfrag hf hg]
  by_cases heq : g = f
  · rw [if_pos heq]
    exact iff_of_false (Option.some_ne_none _) fun h => h.2 heq.symm
  · rw [if_neg heq]
    exact (and_iff_left (Ne.symm heq)).symm

/-- A piece that was missing fills the session with what it brings. -/
theorem filled_withPiece (hf : f ∈ frags)
    (hnone : r.fragments.get f.fragmentId = none) :
    (r.withPiece f).filled frags = r.filled frags := by
  unfold filled
  refine congrArg List.flatten (List.map_congr_left fun g hg => ?_)
  rw [get_withPiece hfrag hf hg]
  by_cases heq : g = f
  · rw [if_pos heq, heq, hnone]
    rfl
  · rw [if_neg heq]

/-- A session that waits for the message gives it when what it holds
fits and the rest comes in time. -/
theorem serves_iff (hr : r.Waiting) (hown : ∀ a ∈ arrivals, a.2 ∈ frags)
    (hall : ∀ f ∈ frags, r.fragments.get f.fragmentId = none →
      ∃ a ∈ arrivals, a.2 = f) :
    Serves payload r arrivals
      ↔ r.Expects frags ∧ r.filled frags = payload
        ∧ r.InTime frags arrivals := by
  by_cases htot : r.Expects frags
  swap
  · refine iff_of_false ?_ fun h => htot h.1
    cases hsome : r.totalExpected with
    | none => exact absurd (Or.inl hsome) htot
    | some total =>
        refine not_serves_of_total hfrag hsome ?_ hown hr
        intro heq
        exact htot (Or.inr (by rw [hsome, heq]))
  induction arrivals generalizing r with
  | nil =>
      obtain ⟨f, hf, hnone⟩ := hr.lacks hfrag htot
      obtain ⟨a, ha, -⟩ := hall f hf hnone
      cases ha
  | cons a rest ih =>
      have hmiss := hr.lacks hfrag htot
      have hf := hown a List.mem_cons_self
      have hrest : ∀ b ∈ rest, b.2 ∈ frags :=
        fun b hb => hown b (List.mem_cons_of_mem _ hb)
      rw [Serves, isExpired_eq_false_iff]
      by_cases hlive : a.1 < r.createdAt + 300
      swap
      · refine iff_of_false (fun h => hlive h.1) fun h => hlive ?_
        obtain ⟨f, hf, hnone⟩ := hmiss
        exact h.2.2 [] a rest rfl
          ⟨f, hf, hnone, fun b hb => by cases hb⟩
      have hexp := (isExpired_eq_false_iff r a.1).2 hlive
      rcases addFragment_cases hr.orderly a.2 with
        ⟨hacc, hadd⟩ | ⟨hacc, hadd⟩
      · -- refused: the piece is held already
        have hleft : LeavesMissing frags r r a.2 :=
          leavesMissing_held (held_of_refused hfrag htot hf hacc)
        have hserves : Serves payload r rest ↔ r.Expects frags
            ∧ r.filled frags = payload ∧ r.InTime frags rest :=
          ih hr hrest (hleft.later hall) htot
        rw [offer_refused hexp hadd, hserves,
          inTime_cons rfl hmiss hleft]
        simp [htot, hlive]
      · -- taken: the session is longer by this piece
        have hadd : r.addFragment a.2 = (true, r.withPiece a.2) := hadd
        have hb : (r.withPiece a.2).Bounded := hr.toBounded.taken hacc
        have htot' := expects_withPiece hfrag r hf
        have hleft : LeavesMissing frags r (r.withPiece a.2) a.2 :=
          leavesMissing_withPiece hfrag hf
        have hfill := filled_withPiece hfrag hf
          (lacks_of_canAccept hr.orderly hacc)
        have hcons : r.InTime frags (a :: rest) ↔ _
            ∧ (r.withPiece a.2).InTime frags rest :=
          inTime_cons rfl hmiss hleft
        rw [hcons]
        cases hc : (r.withPiece a.2).isComplete with
        | true =>
            have hout := offer_completes hexp hadd hc
              (hb.reassemble hfrag htot' hc)
            have hnomore : (r.withPiece a.2).InTime frags rest := by
              intro pre b post _ hsome
              obtain ⟨f, hg, hgone, -⟩ := hsome
              exact absurd hgone ((hb.isComplete_iff hfrag htot').1 hc f hg)
            rw [hout, hfill]
            simp [hlive, htot, hnomore]
        | false =>
            have hserves : Serves payload (r.withPiece a.2) rest
                ↔ (r.withPiece a.2).Expects frags
                  ∧ (r.withPiece a.2).filled frags = payload
                  ∧ (r.withPiece a.2).InTime frags rest :=
              ih ⟨hb, hc⟩ hrest (hleft.later hall) htot'
            rw [offer_waits hexp hadd hc, hserves, hfill]
            simp [htot, htot', hlive]

omit hfrag in
/-- An empty session is completed to the message. -/
theorem filled_empty (hfrag : Fragmentation frags payload)
    (h : r.fragments = ∅) : r.filled frags = payload := by
  rw [← hfrag.concat, filled, h]
  rfl

end Message

/-- The session a message finds after a history. -/
def found (t₀ : Nat) (history arrivals : List (Nat × Fragment)) :
    Reassembler :=
  ((new t₀).offerAll history).sessionAt arrivals

theorem waiting_found (t₀ : Nat)
    (history arrivals : List (Nat × Fragment)) :
    (found t₀ history arrivals).Waiting := by
  have hw := (waiting_new t₀).offerAll history
  cases arrivals with
  | nil => exact hw
  | cons a rest => exact hw.cleanup a.1 300

end Reassembler

-- ========== fairness

/-- After any history, a message that arrives is put together, and never
cleared, if and only if what its first fragment finds fits it and no
fragment that is still needed comes 300 seconds or more after the
session it found was set up. -/
theorem expiry_fair_iff (t₀ : Nat)
    (history arrivals : List (Nat × Fragment)) (payload : List UInt8)
    (h : MessageArrives payload arrivals) :
    Reassembler.Serves payload (.found t₀ history arrivals) arrivals
      ↔ (Reassembler.found t₀ history arrivals).Expects
          (fragmentPayload payload)
        ∧ (Reassembler.found t₀ history arrivals).filled
          (fragmentPayload payload) = payload
        ∧ (Reassembler.found t₀ history arrivals).InTime
          (fragmentPayload payload) arrivals :=
  Reassembler.serves_iff (fragmentPayload_fragmentation h.fits)
    (Reassembler.waiting_found t₀ history arrivals) h.own
    fun f hf _ => h.all f hf

-- ==== two seconds apart

/-- A payload one byte too long for a fragment. -/
def twoPieces : List UInt8 := List.replicate 1013 7

/-- Its first and its second fragment. -/
def timedPiece (i : Nat) : Fragment :=
  ⟨i, 2, (twoPieces.drop (i * MAX_FRAGMENT_DATA)).take MAX_FRAGMENT_DATA⟩

/-- The second arrives two seconds after the first. -/
def piecesFrom (now : Nat) : List (Nat × Fragment) :=
  [(now, timedPiece 0), (now + 2, timedPiece 1)]

theorem length_twoPieces : twoPieces.length = 1013 := by
  rw [twoPieces, List.length_replicate]

theorem fragmentPayload_twoPieces :
    fragmentPayload twoPieces = [timedPiece 0, timedPiece 1] := by
  unfold fragmentPayload
  rw [length_twoPieces]
  rfl

theorem piecesFrom_arrives (now : Nat) :
    MessageArrives twoPieces (piecesFrom now) where
  fits := by
    rw [length_twoPieces]
    decide
  own := by
    rw [fragmentPayload_twoPieces]
    intro a ha
    simp only [piecesFrom, List.mem_cons, List.not_mem_nil, or_false] at ha
    rcases ha with rfl | rfl
    · exact List.mem_cons_self
    · exact List.mem_cons_of_mem _ List.mem_cons_self
  all := by
    rw [fragmentPayload_twoPieces]
    intro f hf
    simp only [List.mem_cons, List.not_mem_nil, or_false] at hf
    rcases hf with rfl | rfl
    · exact ⟨_, List.mem_cons_self, rfl⟩
    · exact ⟨_, List.mem_cons_of_mem _ List.mem_cons_self, rfl⟩
  ordered := by
    simp [piecesFrom]
  prompt := by
    intro a ha b hb
    simp only [piecesFrom, List.mem_cons, List.not_mem_nil, or_false]
      at ha hb
    rcases ha with rfl | rfl
    · rcases hb with rfl | rfl
      · exact Nat.le_add_right now 300
      · show now + 2 ≤ now + 300
        omega
    · rcases hb with rfl | rfl
      · show now ≤ now + 2 + 300
        omega
      · exact Nat.le_add_right _ 300

/-- On a reassembler that is a year old, they are put together. -/
theorem expiry_fair_year :
    Reassembler.Serves twoPieces (.found 0 [] (piecesFrom 31536000))
      (piecesFrom 31536000) := by
  refine (expiry_fair_iff 0 [] (piecesFrom 31536000) twoPieces
    (piecesFrom_arrives _)).2 ⟨Or.inl rfl, ?_, ?_⟩
  · exact Reassembler.filled_empty
      (fragmentPayload_fragmentation (piecesFrom_arrives 0).fits) rfl
  · intro pre a post heq _
    have ha : a ∈ piecesFrom 31536000 := by
      rw [heq]
      exact List.mem_append_right _ List.mem_cons_self
    simp only [piecesFrom, List.mem_cons, List.not_mem_nil, or_false] at ha
    show a.1 < 31536000 + 300
    rcases ha with rfl | rfl
    · show 31536000 < 31536000 + 300
      decide
    · show 31536000 + 2 < 31536000 + 300
      decide

/-- On one that is 299 seconds old, the first fragment is cleared when
the second arrives. -/
theorem idle_message_cleared :
    MessageArrives twoPieces (piecesFrom 299)
      ∧ ¬ Reassembler.Serves twoPieces (.found 0 [] (piecesFrom 299))
        (piecesFrom 299) := by
  have harr := piecesFrom_arrives 299
  refine ⟨harr, fun hserves => ?_⟩
  have hin := ((Reassembler.serves_iff
    (fragmentPayload_fragmentation harr.fits)
    (Reassembler.waiting_found 0 [] _) harr.own
    fun f hf _ => harr.all f hf).1 hserves).2.2
  have hlate := hin [(299, timedPiece 0)] (301, timedPiece 1) [] rfl
    ⟨timedPiece 1, by
      rw [fragmentPayload_twoPieces]
      exact List.mem_cons_of_mem _ List.mem_cons_self, rfl, ?_⟩
  · exact absurd hlate (by decide)
  · intro b hb heq
    rw [List.mem_singleton] at hb
    rw [hb] at heq
    exact absurd (congrArg Fragment.fragmentId heq) (by decide)

end StaticNet
