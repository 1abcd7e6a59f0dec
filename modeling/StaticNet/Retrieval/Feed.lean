/-
Feeding bodies to the retrieval table, one after the other.

`processFragment` scans the table in an order the node does not choose,
so a feed carries an iteration order with every body. One call is
described by `processFragment_add` (some session takes the fragment) and
`finish_incomplete`, `finish_complete` (what that session then yields);
`feed_sole` puts them together for a table with one session, where any
order of the pieces gives the response with the last one.
-/
import StaticNet.Retrieval.Basic

namespace StaticNet

abbrev FeedResult := Except RetrievalError (Option ChunkResponse)

/-- The outcomes of feeding these bodies in turn, and the table after. -/
def RetrievalManager.feed (m : RetrievalManager) :
    List (IterOrder ChunkId × List UInt8) →
      List FeedResult × RetrievalManager
  | [] => ([], m)
  | (o, body) :: rest =>
      let step := m.processFragment o body
      let tail := step.2.feed rest
      (step.1 :: tail.1, tail.2)

/-- A response that fits its fragments fits its length field. -/
theorem response_size {resp : ChunkResponse}
    (h : (serializeResponse resp).length
      ≤ MAX_FRAGMENTS_PER_MESSAGE * MAX_FRAGMENT_DATA) :
    resp.chunkData.length < 2 ^ 32 := by
  have hm : MAX_FRAGMENTS_PER_MESSAGE * MAX_FRAGMENT_DATA = 2072576 := rfl
  rw [hm] at h
  simp only [serializeResponse, List.length_append] at h
  omega

namespace RetrievalManager

variable {m : RetrievalManager} {o : IterOrder ChunkId} {f : Fragment}
  {target : ChunkId} {p : PendingRetrieval} {r' : Reassembler}

/-- The session the scan finds takes the fragment. -/
theorem processFragment_add (hvalid : f.Valid)
    (hfind : o.find m.pending (fun _ p => p.reassembler.canAccept f)
      = some (target, p))
    (hadd : p.reassembler.addFragment f = (true, r')) :
    m.processFragment o (serializeFragment f)
      = finish { m with
          pending := m.pending.insert target { p with reassembler := r' } }
        target r' := by
  rw [processFragment, deserializeFragment_serialize hvalid]
  obtain ⟨hpos, hmax, hid, -⟩ := hvalid
  simp only
  rw [if_neg (by omega), hfind]
  simp only [hadd, if_true]

theorem finish_incomplete (h : r'.isComplete = false) :
    m.finish target r' = (.ok none, m) := by
  rw [finish, h]
  rfl

/-- A complete session whose pieces concatenate to a response yields
it. -/
theorem finish_response {resp : ChunkResponse}
    (hcomplete : r'.isComplete = true)
    (hdata : r'.reassemble = .ok (serializeResponse resp))
    (hsize : resp.chunkData.length < 2 ^ 32) :
    m.finish target r'
      = (.ok (some resp),
        if resp.chunkId ≠ target then
          (m.remove resp.chunkId).remove target
        else m.remove resp.chunkId) := by
  simp only [finish, hcomplete, hdata, deserializeResponse_serialize hsize,
    if_true]

/-- A session with every piece of a response yields it. -/
theorem finish_complete {frags : List Fragment} {resp : ChunkResponse}
    (hfrag : Fragmentation frags (serializeResponse resp))
    (hsize : resp.chunkData.length < 2 ^ 32)
    (h : Collected frags (Finset.range frags.length) r') :
    m.finish target r'
      = (.ok (some resp),
        if resp.chunkId ≠ target then
          (m.remove resp.chunkId).remove target
        else m.remove resp.chunkId) :=
  finish_response ((h.isComplete_iff hfrag.pos).2 rfl)
    (h.reassemble hfrag) hsize

/-- A table whose one session holds some pieces of a response yields the
response with the last missing piece, in whatever order they come. -/
theorem feed_sole {frags : List Fragment} {resp : ChunkResponse}
    (hfrag : Fragmentation frags (serializeResponse resp))
    (hsize : resp.chunkData.length < 2 ^ 32) (id : ChunkId)
    (order : List ChunkId) {ids : Finset Nat} {p : PendingRetrieval}
    (hp : Collected frags ids p.reassembler)
    {fed : List (IterOrder ChunkId × Fragment)} (hne : fed ≠ [])
    (hmem : ∀ x ∈ fed, x.2 ∈ frags)
    (hnew : ∀ x ∈ fed, x.2.fragmentId ∉ ids)
    (hnodup : (fed.map fun x => x.2.fragmentId).Nodup)
    (hall : ids ∪ (fed.map fun x => x.2.fragmentId).toFinset
      = Finset.range frags.length) :
    (feed ⟨(∅ : FMap ChunkId PendingRetrieval).insert id p, order⟩
        (fed.map fun x => (x.1, serializeFragment x.2))).1
      = List.replicate (fed.length - 1) (Except.ok none)
        ++ [Except.ok (some resp)] := by
  induction fed generalizing ids p with
  | nil => exact absurd rfl hne
  | cons x fed ih =>
      obtain ⟨o, f⟩ := x
      have hf : f ∈ frags := hmem (o, f) List.mem_cons_self
      have hfresh : f.fragmentId ∉ ids := hnew (o, f) List.mem_cons_self
      obtain ⟨hcan, r', hadd, hr'⟩ := hp.add hfrag hf hfresh
      have hfind : o.find ((∅ : FMap ChunkId PendingRetrieval).insert id p)
          (fun _ p => p.reassembler.canAccept f) = some (id, p) := by
        rw [IterOrder.find_insert_empty, hcan]
        rfl
      have hstep := processFragment_add
        (m := ⟨(∅ : FMap ChunkId PendingRetrieval).insert id p, order⟩)
        (hfrag.valid hf) hfind hadd
      rw [FMap.insert_insert] at hstep
      simp only [List.map_cons, List.nodup_cons] at hnodup
      rw [List.map_cons, List.toFinset_cons, Finset.union_insert,
        ← Finset.insert_union] at hall
      cases fed with
      | nil =>
          -- the last piece: every index is there
          simp only [List.map_nil, List.toFinset_nil, Finset.union_empty]
            at hall
          rw [hall] at hr'
          rw [finish_complete hfrag hsize hr'] at hstep
          simp only [List.map_cons, feed, hstep]
          rfl
      | cons y fed =>
          have hmiss : insert f.fragmentId ids
              ≠ Finset.range frags.length := by
            intro heq
            have hy : y.2.fragmentId ∈ insert f.fragmentId ids := by
              rw [heq, ← hall, Finset.mem_union]
              exact Or.inr (by simp)
            rw [Finset.mem_insert] at hy
            rcases hy with hy | hy
            · exact hnodup.1 (by simp [hy])
            · exact hnew y (by simp) hy
          have hinc : r'.isComplete = false := by
            rw [← Bool.not_eq_true, hr'.isComplete_iff hfrag.pos]
            exact hmiss
          rw [finish_incomplete hinc] at hstep
          have hrec := ih (p := { p with reassembler := r' }) hr'
            (List.cons_ne_nil _ _)
            (fun x hx => hmem x (List.mem_cons_of_mem _ hx))
            (fun x hx => by
              rw [Finset.mem_insert, not_or]
              refine ⟨?_, hnew x (List.mem_cons_of_mem _ hx)⟩
              rintro heq
              exact hnodup.1 (List.mem_map.2 ⟨x, hx, heq⟩))
            hnodup.2 hall
          rw [List.map_cons, feed, hstep]
          simp only
          rw [hrec]
          rfl

end RetrievalManager

end StaticNet
