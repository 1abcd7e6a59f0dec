/-
Several responses at once: what the retrieval table makes of interleaved
fragments.

A fragment says its index and the number of pieces, not the message it
belongs to, so `process_fragment` gives it to whichever pending session
comes first in the table's order and has room. The comment at
`process_swap_retrievals` ("fragments of different responses interleave
safely; the reassembler keys by proposal ID") does not describe that
scan.

# When it is right

`Attributed` is the condition on one call: some session accepts the
fragment, and every session that does holds exactly the pieces of the
same response fed so far (so an empty session only before the first
piece, the response's own session after it); a fragment of an unrelated
message is accepted by no session. Along a run of such calls every
returned response is one that was sent, and the last piece of a response
returns it. `responses_mixed` shows two responses whose pieces do not
meet the condition: the table returns the head of one with the tail of
the other.
-/
import StaticNet.Retrieval.Feed

namespace StaticNet

-- ========== the feed

/-- A fragment on its way into the table: the order of this scan, the
response it belongs to (none for an unrelated message), and itself. -/
structure Piece (ι : Type) where
  order : IterOrder ChunkId
  source : Option ι
  fragment : Fragment

/-- The fragments of a response. -/
def responseFragments (resp : ChunkResponse) : List Fragment :=
  fragmentPayload (serializeResponse resp)

/-- The bodies these pieces travel in. -/
def bodiesOf {ι : Type} (pieces : List (Piece ι)) :
    List (IterOrder ChunkId × List UInt8) :=
  pieces.map fun x => (x.order, serializeFragment x.fragment)

section Mixing

variable {ι : Type} [DecidableEq ι] (resp : ι → ChunkResponse)

/-- A piece is what it says: a fragment of its response, or a well-formed
fragment of something else. -/
def Piece.Honest (x : Piece ι) : Prop :=
  match x.source with
  | some i => x.fragment ∈ responseFragments (resp i)
  | none => x.fragment.Valid

/-- The indices of a response's fragments among these pieces. -/
def fedIds (i : ι) (past : List (Piece ι)) : Finset Nat :=
  ((past.filter fun x => x.source = some i).map
    fun x => x.fragment.fragmentId).toFinset

/-- The scan can only put this piece where it belongs. -/
def Attributed (past : List (Piece ι)) (m : RetrievalManager)
    (x : Piece ι) : Prop :=
  match x.source with
  | none => ∀ id p, m.pending.get id = some p →
      p.reassembler.canAccept x.fragment = false
  | some i =>
      (∃ id p, m.pending.get id = some p
        ∧ p.reassembler.canAccept x.fragment = true)
      ∧ ∀ id p, m.pending.get id = some p →
        p.reassembler.canAccept x.fragment = true →
        Collected (responseFragments (resp i)) (fedIds i past)
          p.reassembler

/-- Every piece is attributed in the table it meets. -/
def AllAttributed : List (Piece ι) → RetrievalManager →
    List (Piece ι) → Prop
  | _, _, [] => True
  | past, m, x :: rest =>
      Attributed resp past m x
        ∧ AllAttributed (past ++ [x])
          (m.processFragment x.order (serializeFragment x.fragment)).2 rest

-- ========== one call

variable {resp}

theorem fedIds_append_self {i : ι} {past : List (Piece ι)} {x : Piece ι}
    (hx : x.source = some i) :
    fedIds i (past ++ [x])
      = insert x.fragment.fragmentId (fedIds i past) := by
  ext k
  simp [fedIds, hx]

theorem fedIds_append_other {i : ι} {past : List (Piece ι)} {x : Piece ι}
    (hx : x.source ≠ some i) : fedIds i (past ++ [x]) = fedIds i past := by
  simp [fedIds, List.filter_append, hx]

theorem Reassembler.canAccept_held {r : Reassembler} {f : Fragment}
    {total : Nat} (htotal : r.totalExpected = some total)
    (hheld : r.fragments.contains f.fragmentId = true) :
    r.canAccept f = false := by
  unfold Reassembler.canAccept
  rw [htotal]
  simp [hheld]

/-- A session does not accept a piece it holds. -/
theorem Collected.not_held {frags : List Fragment} {ids : Finset Nat}
    {r : Reassembler} {f : Fragment} (h : Collected frags ids r)
    (hacc : r.canAccept f = true) : f.fragmentId ∉ ids := by
  intro hmem
  have hne : ids ≠ ∅ := Finset.ne_empty_of_mem hmem
  have htotal := h.total
  rw [if_neg hne] at htotal
  have hheld : r.fragments.contains f.fragmentId = true := by
    rw [FMap.contains_eq_true]
    exact (FMap.mem_keys_iff _ _).1 (by rw [h.keys]; exact hmem)
  rw [Reassembler.canAccept_held htotal hheld] at hacc
  cases hacc

section Step

variable {past : List (Piece ι)} {m : RetrievalManager} {x : Piece ι}

/-- An unrelated fragment that no session accepts yields nothing. -/
theorem processFragment_unrelated (hsrc : x.source = none)
    (hx : x.Honest resp) (hatt : Attributed resp past m x) :
    (m.processFragment x.order (serializeFragment x.fragment)).1
      = .error .noMatchingRetrieval := by
  rw [Piece.Honest, hsrc] at hx
  rw [Attributed, hsrc] at hatt
  have hfind : x.order.find m.pending
      (fun _ p => p.reassembler.canAccept x.fragment) = none := by
    cases hf : x.order.find m.pending
        (fun _ p => p.reassembler.canAccept x.fragment) with
    | none => rfl
    | some kp =>
        obtain ⟨hget, hacc⟩ := IterOrder.find_some hf
        rw [hatt kp.1 kp.2 hget] at hacc
        cases hacc
  rw [RetrievalManager.processFragment, deserializeFragment_serialize hx]
  obtain ⟨hpos, hmax, hid, -⟩ := hx
  simp only
  rw [if_neg (by omega), hfind]

/-- An attributed fragment completes its response exactly when it is the
last piece. -/
theorem processFragment_attributed {i : ι} (hsrc : x.source = some i)
    (hx : x.Honest resp)
    (hfrag : Fragmentation (responseFragments (resp i))
      (serializeResponse (resp i)))
    (hsize : (resp i).chunkData.length < 2 ^ 32)
    (hatt : Attributed resp past m x) :
    (m.processFragment x.order (serializeFragment x.fragment)).1
      = if fedIds i (past ++ [x])
            = Finset.range (responseFragments (resp i)).length then
          .ok (some (resp i))
        else .ok none := by
  rw [Piece.Honest, hsrc] at hx
  rw [Attributed, hsrc] at hatt
  obtain ⟨⟨id, p, hget, hacc⟩, hall⟩ := hatt
  cases hf : x.order.find m.pending
      (fun _ p => p.reassembler.canAccept x.fragment) with
  | none =>
      have hrej := IterOrder.find_none hf hget
      rw [hacc] at hrej
      cases hrej
  | some kp =>
      obtain ⟨target, p'⟩ := kp
      obtain ⟨hget', hacc'⟩ := IterOrder.find_some hf
      have hcol := hall target p' hget' hacc'
      obtain ⟨-, r', hadd, hr'⟩ :=
        hcol.add hfrag hx (hcol.not_held hacc')
      rw [RetrievalManager.processFragment_add (hfrag.valid hx) hf hadd,
        fedIds_append_self hsrc]
      by_cases hdone : insert x.fragment.fragmentId (fedIds i past)
          = Finset.range (responseFragments (resp i)).length
      · rw [if_pos hdone]
        rw [hdone] at hr'
        rw [RetrievalManager.finish_complete hfrag hsize hr']
      · rw [if_neg hdone, RetrievalManager.finish_incomplete]
        rw [← Bool.not_eq_true, hr'.isComplete_iff hfrag.pos]
        exact hdone

end Step

-- ============== runs

section Runs

variable {past pieces : List (Piece ι)} {m : RetrievalManager}
  (hfits : ∀ i, (serializeResponse (resp i)).length
    ≤ MAX_FRAGMENTS_PER_MESSAGE * MAX_FRAGMENT_DATA)
include hfits

theorem feed_returns_sent (hpieces : ∀ x ∈ pieces, x.Honest resp)
    (hatt : AllAttributed resp past m pieces) {n : Nat}
    {r : ChunkResponse}
    (hr : (m.feed (bodiesOf pieces)).1[n]? = some (.ok (some r))) :
    ∃ i, (pieces[n]?).bind Piece.source = some i ∧ r = resp i := by
  induction pieces generalizing past m n with
  | nil => simp [bodiesOf, RetrievalManager.feed] at hr
  | cons x pieces ih =>
      rw [bodiesOf, List.map_cons, RetrievalManager.feed] at hr
      cases n with
      | succ n =>
          exact ih (fun y hy => hpieces y (List.mem_cons_of_mem _ hy))
            hatt.2 hr
      | zero =>
          simp only [List.getElem?_cons_zero, Option.some.injEq] at hr
          have hx := hpieces x List.mem_cons_self
          cases hsrc : x.source with
          | none =>
              rw [processFragment_unrelated hsrc hx hatt.1] at hr
              cases hr
          | some i =>
              rw [processFragment_attributed hsrc hx
                (fragmentPayload_fragmentation (hfits i))
                (response_size (hfits i)) hatt.1] at hr
              refine ⟨i, by simp [hsrc], ?_⟩
              split at hr
              · injection hr with hr
                injection hr with hr
                exact hr.symm
              · injection hr with hr
                cases hr

theorem feed_returns_complete (hpieces : ∀ x ∈ pieces, x.Honest resp)
    (hatt : AllAttributed resp past m pieces) {i : ι}
    (hpast : fedIds i past
      ≠ Finset.range (responseFragments (resp i)).length)
    (hdone : fedIds i (past ++ pieces)
      = Finset.range (responseFragments (resp i)).length) :
    .ok (some (resp i)) ∈ (m.feed (bodiesOf pieces)).1 := by
  induction pieces generalizing past m with
  | nil =>
      rw [List.append_nil] at hdone
      exact absurd hdone hpast
  | cons x pieces ih =>
      rw [bodiesOf, List.map_cons, RetrievalManager.feed]
      rw [List.append_cons] at hdone
      have hrest := fun y hy => hpieces y (List.mem_cons_of_mem x hy)
      by_cases hsrc : x.source = some i
      · have hstep := processFragment_attributed hsrc
          (hpieces x List.mem_cons_self)
          (fragmentPayload_fragmentation (hfits i))
          (response_size (hfits i)) hatt.1
        by_cases hnow : fedIds i (past ++ [x])
            = Finset.range (responseFragments (resp i)).length
        · rw [if_pos hnow] at hstep
          rw [hstep]
          exact List.mem_cons_self
        · exact List.mem_cons_of_mem _ (ih hrest hatt.2 hnow hdone)
      · refine List.mem_cons_of_mem _ (ih hrest hatt.2 ?_ hdone)
        rw [fedIds_append_other hsrc]
        exact hpast

end Runs

/-- In every run whose pieces are all attributed, what the table returns
was sent, and a response whose pieces have all been fed was returned. -/
theorem responses_unmixed {ι : Type} [DecidableEq ι]
    (resp : ι → ChunkResponse)
    (hfits : ∀ i, (serializeResponse (resp i)).length
      ≤ MAX_FRAGMENTS_PER_MESSAGE * MAX_FRAGMENT_DATA)
    (m : RetrievalManager) (pieces : List (Piece ι))
    (hpieces : ∀ x ∈ pieces, x.Honest resp)
    (hatt : AllAttributed resp [] m pieces) :
    (∀ (n : Nat) (r : ChunkResponse),
      (m.feed (bodiesOf pieces)).1[n]? = some (.ok (some r)) →
      ∃ i, (pieces[n]?).bind Piece.source = some i ∧ r = resp i)
    ∧ ∀ i, (∀ f ∈ responseFragments (resp i),
        ∃ x ∈ pieces, x.source = some i ∧ x.fragment = f) →
      .ok (some (resp i)) ∈ (m.feed (bodiesOf pieces)).1 := by
  constructor
  · intro n r hr
    exact feed_returns_sent hfits hpieces hatt hr
  · intro i hall
    have hfrag := fragmentPayload_fragmentation (hfits i)
    have hpos : 0 < (responseFragments (resp i)).length := hfrag.pos
    apply feed_returns_complete hfits hpieces hatt
    · intro heq
      have hcard := congrArg Finset.card heq
      rw [Finset.card_range] at hcard
      simp [fedIds] at hcard
      omega
    · -- every index is fed, and nothing else is
      ext k
      simp only [List.nil_append, fedIds, List.mem_toFinset, List.mem_map,
        List.mem_filter, decide_eq_true_eq, Finset.mem_range]
      constructor
      · rintro ⟨x, ⟨hx, hsrc⟩, rfl⟩
        have hhon := hpieces x hx
        rw [Piece.Honest, hsrc] at hhon
        obtain ⟨j, hj, hget⟩ := List.mem_iff_getElem.1 hhon
        rw [(hfrag.piece j _ (by
          rw [← hget]; exact List.getElem?_eq_getElem hj)).1]
        exact hj
      · intro hk
        obtain ⟨x, hx, hsrc, hf⟩ := hall _ (List.getElem_mem hk)
        refine ⟨x, ⟨hx, hsrc⟩, ?_⟩
        rw [hf]
        exact (hfrag.piece k _ (List.getElem?_eq_getElem hk)).1

end Mixing

-- ==== sessions that stay apart

/-- A reassembler with a piece of one message refuses the pieces of one
with another number of them. -/
theorem Collected.refuses {frags : List Fragment} {ids : Finset Nat}
    {r : Reassembler} {f : Fragment} (h : Collected frags ids r)
    (hsome : ids ≠ ∅) (htotal : f.totalFragments ≠ frags.length) :
    r.canAccept f = false := by
  have hexpected := h.total
  rw [if_neg hsome] at hexpected
  unfold Reassembler.canAccept
  rw [hexpected]
  simp [Ne.symm htotal]

section Apart

variable {ι : Type} [DecidableEq ι] {resp : ι → ChunkResponse}
  {past pieces : List (Piece ι)} {m : RetrievalManager} {x : Piece ι}
  {i : ι}

/-- Every response that is not complete has the session of its chunk, and
every session has the pieces of its response fed so far. -/
structure Sharing (resp : ι → ChunkResponse) (m : RetrievalManager)
    (past : List (Piece ι)) : Prop where
  held : ∀ i, fedIds i past
      ≠ Finset.range (responseFragments (resp i)).length →
    ∃ p, m.pending.get (resp i).chunkId = some p
  only : ∀ id p, m.pending.get id = some p →
    ∃ i, id = (resp i).chunkId
      ∧ Collected (responseFragments (resp i)) (fedIds i past)
        p.reassembler

variable (hfits : ∀ i, (serializeResponse (resp i)).length
    ≤ MAX_FRAGMENTS_PER_MESSAGE * MAX_FRAGMENT_DATA)
  (hids : Function.Injective fun i => (resp i).chunkId)
include hfits hids

omit hfits in
/-- The session of a response has its pieces. -/
theorem Sharing.collected {p : PendingRetrieval} (h : Sharing resp m past)
    (hget : m.pending.get (resp i).chunkId = some p) :
    Collected (responseFragments (resp i)) (fedIds i past)
      p.reassembler := by
  obtain ⟨j, hj, hcol⟩ := h.only _ p hget
  rw [hids hj]
  exact hcol

/-- A new piece that the scan gives to its response's session leaves the
sessions as they should be. -/
theorem Sharing.take {p : PendingRetrieval} (h : Sharing resp m past)
    (hsrc : x.source = some i)
    (hx : x.fragment ∈ responseFragments (resp i))
    (hnew : x.fragment.fragmentId ∉ fedIds i past)
    (hfind : x.order.find m.pending
        (fun _ p => p.reassembler.canAccept x.fragment)
      = some ((resp i).chunkId, p)) :
    Sharing resp (m.processFragment x.order
      (serializeFragment x.fragment)).2 (past ++ [x]) := by
  have hfrag := fragmentPayload_fragmentation (hfits i)
  obtain ⟨hget, -⟩ := IterOrder.find_some hfind
  obtain ⟨-, r', hadd, hr'⟩ :=
    (h.collected hids hget).add hfrag hx hnew
  rw [RetrievalManager.processFragment_add (hfrag.valid hx) hfind hadd]
  rw [← fedIds_append_self hsrc] at hr'
  have hother : ∀ {j}, j ≠ i →
      fedIds j (past ++ [x]) = fedIds j past := by
    intro j hj
    refine fedIds_append_other ?_
    rw [hsrc]
    exact fun heq => hj (Option.some.inj heq).symm
  by_cases hdone : fedIds i (past ++ [x])
      = Finset.range (responseFragments (resp i)).length
  · rw [hdone] at hr'
    rw [RetrievalManager.finish_complete hfrag (response_size (hfits i)) hr',
      if_neg (not_not.2 rfl)]
    constructor
    · intro j hj
      by_cases hji : j = i
      · rw [hji] at hj
        exact absurd hdone hj
      · rw [hother hji] at hj
        obtain ⟨q, hq⟩ := h.held j hj
        have hne : (resp j).chunkId ≠ (resp i).chunkId :=
          fun heq => hji (hids heq)
        refine ⟨q, ?_⟩
        show ((m.pending.insert _ _).erase _).get _ = _
        rw [FMap.get_erase_ne _ hne, FMap.get_insert_ne _ _ hne, hq]
    · intro id q hq
      change ((m.pending.insert _ _).erase _).get id = some q at hq
      rw [FMap.get_erase] at hq
      split at hq
      · cases hq
      · rw [FMap.get_insert_ne _ _ ‹_›] at hq
        obtain ⟨j, rfl, hcol⟩ := h.only id q hq
        refine ⟨j, rfl, ?_⟩
        rw [hother fun heq => absurd (congrArg (fun j => (resp j).chunkId)
          heq) ‹_›]
        exact hcol
  · have hmore : r'.isComplete = false := by
      rw [← Bool.not_eq_true, hr'.isComplete_iff hfrag.pos]
      exact hdone
    rw [RetrievalManager.finish_incomplete hmore]
    constructor
    · intro j hj
      by_cases hji : j = i
      · rw [hji]
        exact ⟨_, FMap.get_insert_self _ _ _⟩
      · rw [hother hji] at hj
        obtain ⟨q, hq⟩ := h.held j hj
        exact ⟨q, (FMap.get_insert_ne _ _ fun heq =>
          hji (hids heq)).trans hq⟩
    · intro id q hq
      change (m.pending.insert _ _).get id = some q at hq
      rw [FMap.get_insert] at hq
      split at hq
      next hid =>
        rw [← Option.some.inj hq]
        exact ⟨i, hid, hr'⟩
      next hid =>
        obtain ⟨j, rfl, hcol⟩ := h.only id q hq
        refine ⟨j, rfl, ?_⟩
        rw [hother fun heq => hid (congrArg (fun j => (resp j).chunkId)
          heq)]
        exact hcol

variable (htotals : ∀ i j, i ≠ j →
  (responseFragments (resp i)).length ≠ (responseFragments (resp j)).length)
include htotals

/-- While every other session has some piece, and no two responses have
as many, only the piece's own session accepts it. -/
theorem Sharing.attributed (h : Sharing resp m past)
    (hsrc : x.source = some i)
    (hx : x.fragment ∈ responseFragments (resp i))
    (hnew : x.fragment.fragmentId ∉ fedIds i past)
    (hothers : ∀ j, j ≠ i → fedIds j past ≠ ∅) :
    Attributed resp past m x
      ∧ ∃ p, x.order.find m.pending
          (fun _ p => p.reassembler.canAccept x.fragment)
        = some ((resp i).chunkId, p) := by
  have hfrag := fragmentPayload_fragmentation (hfits i)
  obtain ⟨k, hk, hget⟩ := List.mem_iff_getElem.1 hx
  obtain ⟨hid, htotal, -⟩ := hfrag.piece k x.fragment (by
    rw [← hget]
    exact List.getElem?_eq_getElem hk)
  have hopen : fedIds i past
      ≠ Finset.range (responseFragments (resp i)).length := by
    intro hall
    rw [hall, hid] at hnew
    exact hnew (Finset.mem_range.2 hk)
  obtain ⟨p, hp⟩ := h.held i hopen
  obtain ⟨hacc, -⟩ := (h.collected hids hp).add hfrag hx hnew
  have honly : ∀ id q, m.pending.get id = some q →
      q.reassembler.canAccept x.fragment = true → id = (resp i).chunkId := by
    intro id q hq hqacc
    obtain ⟨j, rfl, hcol⟩ := h.only id q hq
    by_cases hji : j = i
    · rw [hji]
    · rw [hcol.refuses (hothers j hji)
        (htotal.trans_ne (htotals i j (Ne.symm hji)))] at hqacc
      cases hqacc
  refine ⟨?_, p, IterOrder.find_unique hp hacc honly⟩
  rw [Attributed, hsrc]
  refine ⟨⟨_, p, hp, hacc⟩, ?_⟩
  intro id q hq hqacc
  obtain rfl := honly id q hq hqacc
  exact h.collected hids hq

/-- Once every session has some piece, the rest of the pieces, each new
when it comes, is attributed in whatever order it comes. -/
theorem Sharing.allAttributed (h : Sharing resp m past)
    (hsome : ∀ i, fedIds i past ≠ ∅)
    (hpieces : ∀ x ∈ pieces, ∃ i, x.source = some i
      ∧ x.fragment ∈ responseFragments (resp i))
    (hnew : pieces.Pairwise fun x y =>
      (x.source, x.fragment.fragmentId) ≠ (y.source, y.fragment.fragmentId))
    (hfresh : ∀ x ∈ pieces, ∀ i, x.source = some i →
      x.fragment.fragmentId ∉ fedIds i past) :
    AllAttributed resp past m pieces := by
  induction pieces generalizing past m with
  | nil => trivial
  | cons x rest ih =>
      obtain ⟨i, hsrc, hx⟩ := hpieces x List.mem_cons_self
      have hxnew := hfresh x List.mem_cons_self i hsrc
      obtain ⟨hatt, p, hfind⟩ := h.attributed hfits hids htotals hsrc hx
        hxnew fun j _ => hsome j
      rw [List.pairwise_cons] at hnew
      refine ⟨hatt, ih (h.take hfits hids hsrc hx hxnew hfind) ?_ ?_
        hnew.2 ?_⟩
      · intro j
        by_cases hj : x.source = some j
        · rw [fedIds_append_self hj]
          exact Finset.insert_ne_empty _ _
        · rw [fedIds_append_other hj]
          exact hsome j
      · exact fun y hy => hpieces y (List.mem_cons_of_mem _ hy)
      · intro y hy j hysrc
        have hyold := hfresh y (List.mem_cons_of_mem _ hy) j hysrc
        by_cases hj : x.source = some j
        · rw [fedIds_append_self hj, Finset.mem_insert, not_or]
          refine ⟨fun heq => hnew.1 y hy ?_, hyold⟩
          rw [hj, hysrc, heq]
        · rw [fedIds_append_other hj]
          exact hyold

end Apart

-- ====== two sessions

/-- A table with one fresh retrieval. -/
def loneTable : RetrievalManager :=
  RetrievalManager.new.startRetrieval (Bytes.fill 32 3) 0

theorem length_serializeResponse (resp : ChunkResponse) :
    (serializeResponse resp).length = 38 + resp.chunkData.length := by
  simp only [serializeResponse, List.length_append, List.length_singleton,
    Bytes.length_toList, length_beBytes]
  omega

/-- A table scanned in the order of its keys. -/
def byKey : IterOrder ChunkId := IterOrder.bytewise

/-- How many bodies a payload needs, and what is in them. -/
theorem fragmentPayload_count {payload : List UInt8} {n : Nat}
    (hpos : 0 < n) (hsmall : n ≤ MAX_FRAGMENTS_PER_MESSAGE)
    (hmin : (n - 1) * MAX_FRAGMENT_DATA < payload.length)
    (hmax : payload.length ≤ n * MAX_FRAGMENT_DATA) :
    fragmentPayload payload = (List.range n).map fun i =>
      ⟨i, n, (payload.drop (i * MAX_FRAGMENT_DATA)).take
        MAX_FRAGMENT_DATA⟩ := by
  have htotal : max ((MAX_FRAGMENT_DATA - 1 + payload.length)
      / MAX_FRAGMENT_DATA % 2 ^ 32) 1 = n := by
    simp only [MAX_FRAGMENTS_PER_MESSAGE, MAX_FRAGMENT_DATA, BODY_SIZE,
      FRAGMENT_HEADER_SIZE] at hsmall hmin hmax ⊢
    omega
  simp only [fragmentPayload, htotal]

/-- A payload that needs two bodies is two pieces. -/
theorem fragmentPayload_two {payload : List UInt8}
    (hmin : MAX_FRAGMENT_DATA < payload.length)
    (hmax : payload.length ≤ 2 * MAX_FRAGMENT_DATA) :
    fragmentPayload payload
      = [⟨0, 2, payload.take MAX_FRAGMENT_DATA⟩,
        ⟨1, 2, payload.drop MAX_FRAGMENT_DATA⟩] := by
  have hrest : (payload.drop MAX_FRAGMENT_DATA).length
      ≤ MAX_FRAGMENT_DATA := by
    rw [List.length_drop]
    omega
  rw [fragmentPayload_count Nat.two_pos (by decide)
    (by rw [Nat.one_mul]; exact hmin) hmax]
  simp only [List.range_succ, List.range_zero, List.nil_append,
    List.map_cons, List.map_nil, List.cons_append, Nat.zero_mul,
    Nat.one_mul, List.drop_zero, List.take_of_length_le hrest]

/-- The head of one response and the tail of another of its length are a
response. -/
theorem splice_response {a b : ChunkResponse} {n : Nat}
    (hlen : a.chunkData.length = b.chunkData.length)
    (hn : n ≤ a.chunkData.length) :
    (serializeResponse a).take (38 + n)
        ++ (serializeResponse b).drop (38 + n)
      = serializeResponse
        ⟨a.chunkId, a.chunkData.take n ++ b.chunkData.drop n, a.found⟩ := by
  have hhead : ∀ r : ChunkResponse, ∃ header : List UInt8,
      header.length = 38
      ∧ serializeResponse r = header ++ r.chunkData
      ∧ ∀ data : List UInt8, data.length = r.chunkData.length →
        serializeResponse ⟨r.chunkId, data, r.found⟩ = header ++ data := by
    intro r
    refine ⟨[MSG_CHUNK_RESPONSE] ++ (r.chunkId.toList
      ++ ([if r.found then 1 else 0]
      ++ beBytes 4 r.chunkData.length)), ?_, ?_, ?_⟩
    · simp only [List.length_append, List.length_singleton,
        Bytes.length_toList, length_beBytes]
    · simp only [serializeResponse, List.append_assoc]
    · intro data hdata
      simp only [serializeResponse, hdata, List.append_assoc]
  obtain ⟨ha, halen, haeq, hawith⟩ := hhead a
  obtain ⟨hb, hblen, hbeq, -⟩ := hhead b
  have htake : (serializeResponse a).take (38 + n)
      = ha ++ a.chunkData.take n := by
    rw [haeq, List.take_append, halen, Nat.add_sub_cancel_left,
      List.take_of_length_le (by omega)]
  have hdrop : (serializeResponse b).drop (38 + n)
      = b.chunkData.drop n := by
    rw [hbeq, List.drop_append, hblen, Nat.add_sub_cancel_left,
      List.drop_eq_nil_of_le (by omega), List.nil_append]
  rw [htake, hdrop, hawith, List.append_assoc]
  rw [List.length_append, List.length_take, List.length_drop]
  omega

/-- Two fresh sessions, scanned in key order. -/
structure TwoSessions (m : RetrievalManager) (s t : ChunkId) : Prop where
  less : s.toNat < t.toNat
  first : m.pending.get s = some ⟨s, Reassembler.new 0, 0⟩
  second : m.pending.get t = some ⟨t, Reassembler.new 0, 0⟩
  only : ∀ id p, m.pending.get id = some p → id = s ∨ id = t

section Mixed

variable {m : RetrievalManager} {s t : ChunkId} {a b : ChunkResponse}

/-- A session that holds the first of two pieces. -/
def halfway (id : ChunkId) (data : List UInt8) : PendingRetrieval :=
  ⟨id, ⟨some 2, (∅ : FMap Nat (List UInt8)).insert 0 data, 0⟩, 0⟩

theorem piece_valid {i : Nat} {data : List UInt8} (hi : i < 2)
    (hdata : data.length ≤ MAX_FRAGMENT_DATA) :
    (⟨i, 2, data⟩ : Fragment).Valid := by
  refine ⟨?_, ?_, hi, hdata⟩
  · exact Nat.two_pos
  · simp only [MAX_FRAGMENTS_PER_MESSAGE]
    omega

/-- The least session takes the first piece. -/
theorem first_piece {data : List UInt8}
    (hdata : data.length ≤ MAX_FRAGMENT_DATA)
    (hfind : byKey.find m.pending
        (fun _ p => p.reassembler.canAccept ⟨0, 2, data⟩)
      = some (s, ⟨s, Reassembler.new 0, 0⟩)) :
    m.processFragment byKey (serializeFragment ⟨0, 2, data⟩)
      = (.ok none,
        { m with pending := m.pending.insert s (halfway s data) }) := by
  have hvalid := piece_valid (i := 0) Nat.two_pos hdata
  obtain ⟨-, hadd⟩ := Reassembler.add_missing (r := Reassembler.new 0)
    hvalid (Or.inl rfl) rfl
  rw [RetrievalManager.processFragment_add hvalid hfind hadd]
  exact RetrievalManager.finish_incomplete rfl

/-- The least session takes the second piece, whoever's it is. -/
theorem second_piece {head tail : List UInt8} {resp : ChunkResponse}
    (htail : tail.length ≤ MAX_FRAGMENT_DATA)
    (hresp : head ++ tail = serializeResponse resp)
    (hsize : resp.chunkData.length < 2 ^ 32)
    (hfind : byKey.find m.pending
        (fun _ p => p.reassembler.canAccept ⟨1, 2, tail⟩)
      = some (s, halfway s head)) :
    (m.processFragment byKey (serializeFragment ⟨1, 2, tail⟩)).1
      = .ok (some resp) := by
  have hvalid := piece_valid (i := 1) (by omega) htail
  obtain ⟨-, hadd⟩ := Reassembler.add_missing
    (r := (halfway s head).reassembler) hvalid (Or.inr rfl) rfl
  rw [RetrievalManager.processFragment_add hvalid hfind hadd]
  have hgather : Reassembler.reassemble ⟨some 2,
      (halfway s head).reassembler.fragments.insert 1 tail, 0⟩
        = .ok (head ++ (tail ++ [])) := rfl
  rw [List.append_nil, hresp] at hgather
  exact congrArg Prod.fst
    (RetrievalManager.finish_response rfl hgather hsize)

/-- The first piece of each response lands in a session of its own; the
second piece of the later one is taken by the session of the other. -/
theorem feed_mixes (h : TwoSessions m s t)
    (ha : a.chunkData.length = 1000) (hb : b.chunkData.length = 1000) :
    (m.feed
      [(byKey, serializeFragment ⟨0, 2, (serializeResponse a).take 1012⟩),
        (byKey, serializeFragment ⟨0, 2, (serializeResponse b).take 1012⟩),
        (byKey, serializeFragment
          ⟨1, 2, (serializeResponse b).drop 1012⟩)]).1
      = [.ok none, .ok none, .ok (some ⟨a.chunkId,
          a.chunkData.take 974 ++ b.chunkData.drop 974, a.found⟩)] := by
  have hst : s ≠ t := fun heq => Nat.lt_irrefl _ (heq ▸ h.less)
  have hsplice := splice_response (a := a) (b := b) (n := 974)
    (by rw [ha, hb]) (by rw [ha]; decide)
  have hsize : (a.chunkData.take 974 ++ b.chunkData.drop 974).length
      < 2 ^ 32 := by
    rw [List.length_append, List.length_take, List.length_drop, ha, hb]
    decide
  have hlenA : ((serializeResponse a).take 1012).length
      ≤ MAX_FRAGMENT_DATA := List.length_take_le _ _
  have hlenB : ((serializeResponse b).take 1012).length
      ≤ MAX_FRAGMENT_DATA := List.length_take_le _ _
  have hlenC : ((serializeResponse b).drop 1012).length
      ≤ MAX_FRAGMENT_DATA := by
    rw [List.length_drop, length_serializeResponse, hb]
    decide
  -- from here on the pieces are opaque byte strings
  generalize (serializeResponse a).take 1012 = a0 at *
  generalize (serializeResponse b).take 1012 = b0 at *
  generalize (serializeResponse b).drop 1012 = b1 at *
  have hleast : ∀ id p, m.pending.get id = some p →
      s.toNat ≤ id.toNat := by
    intro id p hget
    rcases h.only id p hget with rfl | rfl
    · exact Nat.le_refl _
    · exact Nat.le_of_lt h.less
  have haccept : ∀ {i : Nat} {data : List UInt8} (r : Reassembler),
      i < 2 → data.length ≤ MAX_FRAGMENT_DATA →
      (r.totalExpected = none ∨ r.totalExpected = some 2) →
      r.fragments.get i = none → r.canAccept ⟨i, 2, data⟩ = true := by
    intro i data r hi hdata htotal hget
    exact (Reassembler.add_missing (piece_valid hi hdata) htotal hget).1
  have hstep1 := first_piece (m := m) (s := s) hlenA
    (IterOrder.find_sortedBy Bytes.toNat_injective h.first
      (haccept _ (by omega) hlenA (Or.inl rfl) rfl) hleast)
  have hget1 : ∀ id, (m.pending.insert s (halfway s a0)).get id
      = if id = s then some (halfway s a0) else m.pending.get id :=
    fun id => FMap.get_insert _ _ _ _
  have hstep2 := first_piece
    (m := ⟨m.pending.insert s (halfway s a0), m.order⟩)
    (s := t) hlenB (IterOrder.find_unique
      (by rw [hget1, if_neg hst.symm, h.second])
      (haccept _ (by omega) hlenB (Or.inl rfl) rfl) (by
        intro id p hget hacc
        rw [hget1] at hget
        split at hget
        · rw [← Option.some.inj hget, Reassembler.canAccept_held
            (r := (halfway s a0).reassembler) rfl rfl] at hacc
          cases hacc
        · exact (h.only id p hget).resolve_left ‹_›))
  have hget2 : ∀ id, ((m.pending.insert s (halfway s a0)).insert t
        (halfway t b0)).get id
      = if id = t then some (halfway t b0)
        else if id = s then some (halfway s a0)
        else m.pending.get id := by
    intro id
    rw [FMap.get_insert, hget1]
  have hstep3 := second_piece (s := s) hlenC hsplice hsize
    (m := ⟨(m.pending.insert s (halfway s a0)).insert t (halfway t b0),
      m.order⟩)
    (IterOrder.find_sortedBy Bytes.toNat_injective
      (by rw [hget2, if_neg hst, if_pos rfl])
      (haccept _ (by omega) hlenC (Or.inr rfl) rfl) (by
        intro id p hget
        rw [hget2] at hget
        split at hget
        · rename_i hid
          rw [hid]
          exact Nat.le_of_lt h.less
        · split at hget
          · rename_i hid
            exact Nat.le_of_eq (by rw [hid])
          · exact hleast id p hget))
  simp only [RetrievalManager.feed, hstep1, hstep2, hstep3]

end Mixed

/-- A table with two fresh retrievals. -/
def sharedTable : RetrievalManager :=
  loneTable.startRetrieval (Bytes.fill 32 4) 0

/-- Two chunks of one size. -/
def swapResponse (i : Bool) : ChunkResponse :=
  let b : UInt8 := if i then 1 else 2
  chunkResponse (Bytes.fill 32 b) (some (List.replicate 1000 b))

/-- Both first pieces, then the second piece of the later response. -/
def mixedPieces : List (Piece Bool) :=
  [⟨byKey, some true, ⟨0, 2, (serializeResponse (swapResponse true)).take
      1012⟩⟩,
    ⟨byKey, some false, ⟨0, 2, (serializeResponse
      (swapResponse false)).take 1012⟩⟩,
    ⟨byKey, some false, ⟨1, 2, (serializeResponse
      (swapResponse false)).drop 1012⟩⟩]

theorem swapResponse_length (i : Bool) :
    (swapResponse i).chunkData.length = 1000 := by
  cases i <;> exact List.length_replicate

theorem sharedTable_two :
    TwoSessions sharedTable (Bytes.fill 32 3) (Bytes.fill 32 4) := by
  have hpending : sharedTable.pending
      = ((∅ : FMap ChunkId PendingRetrieval).insert (Bytes.fill 32 3)
          ⟨Bytes.fill 32 3, Reassembler.new 0, 0⟩).insert (Bytes.fill 32 4)
          ⟨Bytes.fill 32 4, Reassembler.new 0, 0⟩ := rfl
  refine ⟨by decide, rfl, rfl, ?_⟩
  intro id p hget
  rw [hpending, FMap.get_insert, FMap.get_insert] at hget
  by_cases h4 : id = Bytes.fill 32 4
  · exact Or.inr h4
  · by_cases h3 : id = Bytes.fill 32 3
    · exact Or.inl h3
    · rw [if_neg h4, if_neg h3] at hget
      cases hget

theorem mixedPieces_honest : ∀ x ∈ mixedPieces, x.Honest swapResponse := by
  have hfrags : ∀ i, responseFragments (swapResponse i)
      = [⟨0, 2, (serializeResponse (swapResponse i)).take 1012⟩,
        ⟨1, 2, (serializeResponse (swapResponse i)).drop 1012⟩] := by
    intro i
    have hlen := length_serializeResponse (swapResponse i)
    rw [swapResponse_length] at hlen
    exact fragmentPayload_two (by rw [hlen]; decide) (by rw [hlen]; decide)
  intro x hx
  simp only [mixedPieces, List.mem_cons, List.not_mem_nil, or_false] at hx
  rcases hx with rfl | rfl | rfl <;>
    simp only [Piece.Honest, hfrags, List.mem_cons, true_or, or_true]

-- ==== two that do not mix

/-- A chunk in two pieces for the first session, one in three for the
second. -/
def apartResponse (i : Bool) : ChunkResponse :=
  if i then chunkResponse (Bytes.fill 32 3) (some (List.replicate 1000 1))
  else chunkResponse (Bytes.fill 32 4) (some (List.replicate 2100 2))

/-- How many pieces they have. -/
def apartCount (i : Bool) : Nat := if i then 2 else 3

def apartFragment (i : Bool) (k : Nat) : Fragment :=
  ⟨k, apartCount i, ((serializeResponse (apartResponse i)).drop
    (k * MAX_FRAGMENT_DATA)).take MAX_FRAGMENT_DATA⟩

def apartPiece (x : Bool × Nat) : Piece Bool :=
  ⟨byKey, some x.1, apartFragment x.1 x.2⟩

/-- Both responses under way, their pieces interleaved. -/
def apartPieces : List (Piece Bool) :=
  [(true, 0), (false, 0), (false, 1), (true, 1), (false, 2)].map apartPiece

theorem length_apartResponse (i : Bool) :
    (serializeResponse (apartResponse i)).length
      = if i then 1038 else 2138 := by
  have hdata : (apartResponse i).chunkData.length
      = if i then 1000 else 2100 := by
    cases i <;> exact List.length_replicate
  rw [length_serializeResponse, hdata]
  cases i <;> rfl

theorem responseFragments_apart (i : Bool) :
    responseFragments (apartResponse i)
      = (List.range (apartCount i)).map (apartFragment i) := by
  have hlen := length_apartResponse i
  cases i with
  | false =>
      exact fragmentPayload_count (by decide) (by decide)
        (by rw [hlen]; decide) (by rw [hlen]; decide)
  | true =>
      exact fragmentPayload_count (by decide) (by decide)
        (by rw [hlen]; decide) (by rw [hlen]; decide)

theorem apartFragment_mem {i : Bool} {k : Nat} (hk : k < apartCount i) :
    apartFragment i k ∈ responseFragments (apartResponse i) := by
  rw [responseFragments_apart]
  exact List.mem_map.2 ⟨k, List.mem_range.2 hk, rfl⟩

theorem apartPieces_mem : ∀ x ∈ apartPieces, ∃ i, x.source = some i
    ∧ x.fragment ∈ responseFragments (apartResponse i) := by
  intro x hx
  obtain ⟨⟨i, k⟩, hik, rfl⟩ := List.mem_map.1 hx
  refine ⟨i, rfl, apartFragment_mem ?_⟩
  simp only [List.mem_cons, List.not_mem_nil, or_false, Prod.mk.injEq]
    at hik
  obtain ⟨rfl, rfl⟩ | ⟨rfl, rfl⟩ | ⟨rfl, rfl⟩ | ⟨rfl, rfl⟩ | ⟨rfl, rfl⟩ :=
    hik <;> decide

theorem apart_fits (i : Bool) : (serializeResponse (apartResponse i)).length
    ≤ MAX_FRAGMENTS_PER_MESSAGE * MAX_FRAGMENT_DATA := by
  rw [length_apartResponse]
  cases i <;> decide

theorem apart_ids :
    Function.Injective fun i => (apartResponse i).chunkId := by
  intro i j hij
  cases i <;> cases j
  · rfl
  · exact absurd hij (by decide)
  · exact absurd hij (by decide)
  · rfl

theorem apart_totals (i j : Bool) (hij : i ≠ j) :
    (responseFragments (apartResponse i)).length
      ≠ (responseFragments (apartResponse j)).length := by
  rw [responseFragments_apart, responseFragments_apart, List.length_map,
    List.length_map, List.length_range, List.length_range]
  cases i <;> cases j
  · exact absurd rfl hij
  · decide
  · decide
  · exact absurd rfl hij

/-- Every session of the shared table is fresh. -/
theorem sharedTable_fresh {id : ChunkId} {p : PendingRetrieval}
    (hget : sharedTable.pending.get id = some p) :
    p.reassembler = Reassembler.new 0 := by
  rcases sharedTable_two.only id p hget with rfl | rfl
  · rw [sharedTable_two.first] at hget
    rw [← Option.some.inj hget]
  · rw [sharedTable_two.second] at hget
    rw [← Option.some.inj hget]

theorem sharedTable_sharing : Sharing apartResponse sharedTable [] where
  held := fun i _ => by
    cases i with
    | false => exact ⟨_, sharedTable_two.second⟩
    | true => exact ⟨_, sharedTable_two.first⟩
  only := by
    intro id p hget
    rw [sharedTable_fresh hget]
    rcases sharedTable_two.only id p hget with rfl | rfl
    · exact ⟨true, rfl, Collected.new _ 0⟩
    · exact ⟨false, rfl, Collected.new _ 0⟩

/-- The first piece finds two fresh sessions and takes its own, the
least; from then on the sessions tell the pieces apart. -/
theorem apartPieces_attributed :
    AllAttributed apartResponse [] sharedTable apartPieces := by
  have hmem : ∀ {i : Bool} {k : Nat}, k < apartCount i →
      (apartPiece (i, k)).fragment ∈ responseFragments (apartResponse i) :=
    apartFragment_mem
  have hacc : (Reassembler.new 0).canAccept (apartPiece (true, 0)).fragment
      = true :=
    ((Collected.new _ 0).add (fragmentPayload_fragmentation
      (apart_fits true)) (hmem Nat.two_pos) (Finset.notMem_empty _)).1
  have hfirst : (apartPiece (true, 0)).order.find sharedTable.pending
      (fun _ p => p.reassembler.canAccept (apartPiece (true, 0)).fragment)
      = some (Bytes.fill 32 3, ⟨Bytes.fill 32 3, Reassembler.new 0, 0⟩) := by
    refine IterOrder.find_sortedBy Bytes.toNat_injective
      sharedTable_two.first hacc ?_
    intro id p hget
    have hless := sharedTable_two.less
    rcases sharedTable_two.only id p hget with rfl | rfl
    · exact le_rfl
    · exact hless.le
  have hattfirst : Attributed apartResponse [] sharedTable
      (apartPiece (true, 0)) := by
    refine ⟨⟨_, _, sharedTable_two.first, hacc⟩, ?_⟩
    intro id q hq _
    rw [sharedTable_fresh hq]
    exact Collected.new _ 0
  have hafter := sharedTable_sharing.take apart_fits apart_ids
    (x := apartPiece (true, 0)) rfl (hmem Nat.two_pos)
    (Finset.notMem_empty _) hfirst
  obtain ⟨hatt, p, hfind⟩ := hafter.attributed apart_fits apart_ids
    apart_totals (x := apartPiece (false, 0)) (i := false) rfl
    (hmem (by decide)) (by decide) (by decide)
  have hboth := hafter.take apart_fits apart_ids rfl (hmem (by decide))
    (by decide) hfind
  refine ⟨hattfirst, hatt, ?_⟩
  apply hboth.allAttributed apart_fits apart_ids apart_totals (by decide) ?_
    (by decide) (by decide)
  intro x hx
  exact apartPieces_mem x
    (List.mem_cons_of_mem _ (List.mem_cons_of_mem _ hx))

/-- Two responses of two and three pieces, interleaved: each is handed
over as it was sent. -/
theorem responses_unmixed_apart :
    (∀ (n : Nat) (r : ChunkResponse),
      (sharedTable.feed (bodiesOf apartPieces)).1[n]? = some (.ok (some r)) →
      ∃ i, (apartPieces[n]?).bind Piece.source = some i
        ∧ r = apartResponse i)
    ∧ ∀ i, .ok (some (apartResponse i))
      ∈ (sharedTable.feed (bodiesOf apartPieces)).1 := by
  have hon : ∀ x ∈ apartPieces, x.Honest apartResponse := by
    intro x hx
    obtain ⟨i, hsrc, hmem⟩ := apartPieces_mem x hx
    rw [Piece.Honest, hsrc]
    exact hmem
  obtain ⟨hsent, hall⟩ := responses_unmixed apartResponse apart_fits
    sharedTable apartPieces hon apartPieces_attributed
  refine ⟨hsent, fun i => hall i ?_⟩
  intro f hf
  rw [responseFragments_apart] at hf
  obtain ⟨k, hk, rfl⟩ := List.mem_map.1 hf
  refine ⟨apartPiece (i, k), List.mem_map.2 ⟨(i, k), ?_, rfl⟩, rfl, rfl⟩
  have hall : ∀ i, ∀ k < apartCount i, (i, k)
      ∈ [(true, 0), (false, 0), (false, 1), (true, 1), (false, 2)] := by
    decide
  exact hall i k (List.mem_range.1 hk)

/-- The table hands over a chunk nobody sent. -/
theorem responses_mixed :
    (∀ x ∈ mixedPieces, x.Honest swapResponse)
    ∧ ∃ r, .ok (some r) ∈ (sharedTable.feed (bodiesOf mixedPieces)).1
      ∧ ∀ i, r ≠ swapResponse i := by
  refine ⟨mixedPieces_honest,
    ⟨(swapResponse true).chunkId,
      (swapResponse true).chunkData.take 974
        ++ (swapResponse false).chunkData.drop 974,
      (swapResponse true).found⟩, ?_, ?_⟩
  · have hfeed := feed_mixes sharedTable_two (swapResponse_length true)
      (swapResponse_length false)
    simp only [mixedPieces, bodiesOf, List.map_cons, List.map_nil, hfeed]
    simp
  · intro i heq
    cases i with
    | false =>
        have hid := congrArg ChunkResponse.chunkId heq
        exact absurd (Bytes.fill_injective (by decide) hid) (by decide)
    | true =>
        have hdata := congrArg ChunkResponse.chunkData heq
        have hmem : (2 : UInt8) ∈ (swapResponse true).chunkData := by
          rw [← hdata]
          refine List.mem_append_right _ ?_
          simp only [swapResponse, chunkResponse, Option.getD_some,
            List.drop_replicate]
          exact List.mem_replicate.2 ⟨by decide, rfl⟩
        exact absurd (List.eq_of_mem_replicate hmem) (by decide)

end StaticNet
