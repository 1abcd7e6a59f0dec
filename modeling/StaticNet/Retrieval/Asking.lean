/-
Several requests with one reply block, at their holders.

A holder collects the pieces of all requests of one block in one session,
so what completes there is a request, and perhaps not the one whose piece
came last (`requestOf_asked`). `Serving` is the run invariant of the whole
network: the route (`Crossing`), the holders' sessions and the pieces on
their way (`Holding`) and, when there is one request only, what is left
of it (`Sole`).
-/
import StaticNet.Retrieval.Overtaken
import StaticNet.Retrieval.Reassembly

namespace StaticNet

-- =========== queries

/-- The chunks asked of a holder. -/
def asked (queries : List Query) (holder : NodeId) : List ChunkId :=
  (queries.filter fun q => q.holder = holder).map Query.chunkId

/-- One piece of a query's request. -/
def Query.piece (surb : Surb) (q : Query) (f : Fragment) : RequestPiece :=
  ⟨q.holder, padTo BODY_SIZE (surbRequestBody surb.sessionId f)⟩

theorem Query.pieces_eq (surb : Surb) (q : Query) :
    q.pieces surb = (requestPieces surb q.chunkId).map (q.piece surb) := by
  rw [pieces, buildSurbRequestBodies, List.map_map]
  rfl

/-- The pieces of the response to a query. -/
def Query.response (chunks : NodeId → ChunkId → Option (List UInt8))
    (q : Query) : List Fragment :=
  fragmentPayload (serializeResponse (q.expected chunks))

theorem mem_asked {queries : List Query} {holder : NodeId} {c : ChunkId} :
    c ∈ asked queries holder
      ↔ ∃ q ∈ queries, q.holder = holder ∧ q.chunkId = c := by
  simp only [asked, List.mem_map, List.mem_filter, decide_eq_true_eq]
  exact ⟨fun ⟨q, ⟨hq, hh⟩, hc⟩ => ⟨q, hq, hh, hc⟩,
    fun ⟨q, hq, hh, hc⟩ => ⟨q, ⟨hq, hh⟩, hc⟩⟩

-- ======= the holders

/-- What the holders of the queries have collected, by the indices of the
pieces, and where the other pieces are for. -/
structure Holding (surb : Surb) (queries : List Query)
    (ids : NodeId → Finset Nat) (net : SharedNet) : Prop where
  tables : ∀ q ∈ queries,
    Asks surb (asked queries q.holder) (ids q.holder) (net.tables q.holder)
  pieces : ∀ p ∈ net.pieces, ∃ q ∈ queries, ∃ f,
    f ∈ requestPieces surb q.chunkId ∧ p = q.piece surb f

/-- A piece has gone into its holder's table. -/
def SharedNet.fed (net : SharedNet) (k : Nat) (holder : NodeId)
    (table : ReassemblyManager) : SharedNet :=
  { net with
    tables := Function.update net.tables holder table
    pieces := net.pieces.eraseIdx k }

section Pieces

variable {P : Prims} {chunks : NodeId → ChunkId → Option (List UInt8)}
  {draws : Nat → Bytes 32} {k now : Nat} {piece : RequestPiece}
  {request : Option (List UInt8)} {table : ReassemblyManager}

/-- A piece that completes no request, or one that is not answered. -/
theorem SharedNet.movePiece_none (net : SharedNet)
    (hk : net.pieces[k]? = some piece)
    (hreq : requestOf (net.tables piece.holder) piece.body now
      = (request, table))
    (hserve : request.bind (serveChunkRequest P
      (fun i => draws (net.replies.length + i)) (chunks piece.holder))
        = none) :
    net.movePiece P chunks draws k now = net.fed k piece.holder table := by
  simp only [movePiece, hk, hreq, hserve]
  rfl

/-- A piece that completes a request which is answered. -/
theorem SharedNet.movePiece_some (net : SharedNet)
    {packets : SurbReplyPackets} (hk : net.pieces[k]? = some piece)
    (hreq : requestOf (net.tables piece.holder) piece.body now
      = (request, table))
    (hserve : request.bind (serveChunkRequest P
      (fun i => draws (net.replies.length + i)) (chunks piece.holder))
        = some packets) :
    net.movePiece P chunks draws k now
      = (net.fed k piece.holder table).send packets := by
  simp only [movePiece, hk, hreq, hserve]
  rfl

end Pieces

section Holders

variable {P : Prims} {d : PacketDraws} {layers : List Layer}
  {destination : NodeId} {draws : Nat → Bytes 32}
  {chunks : NodeId → ChunkId → Option (List UInt8)}
  {net : SharedNet} {surb : Surb} {queries : List Query}
  {ids : NodeId → Finset Nat}

theorem Holding.fed (h : Holding surb queries ids net) (k : Nat)
    {holder : NodeId} {table : ReassemblyManager} {held : Finset Nat}
    (htable : Asks surb (asked queries holder) held table) :
    Holding surb queries (Function.update ids holder held)
      (net.fed k holder table) := by
  refine ⟨fun q hq => ?_, fun p hp => ?_⟩
  · simp only [SharedNet.fed]
    by_cases hid : q.holder = holder
    · rw [hid, Function.update_self, Function.update_self]
      exact htable
    · rw [Function.update_of_ne hid, Function.update_of_ne hid]
      exact h.tables q hq
  · exact h.pieces p (List.mem_of_mem_eraseIdx hp)

/-- A whole request is answered. -/
theorem serveChunkRequest_ok {nonces : Nat → Bytes 32} {q : Query}
    {head : Fragment} {more : List Fragment}
    (hwf : (hybridSurb P d destination layers).WellFormed)
    (hfrags : q.response chunks = head :: more) :
    serveChunkRequest P nonces (chunks q.holder)
        (serializeRequest (surbRequest q.chunkId
          (hybridSurb P d destination layers)))
      = some (replyPackets P d layers destination nonces head more) := by
  have hreq : deserializeRequest (serializeRequest
        (surbRequest q.chunkId (hybridSurb P d destination layers)))
      = .ok (surbRequest q.chunkId (hybridSurb P d destination layers)) := by
    refine deserializeRequest_serialize (Nat.zero_le _) fun surb hsurb => ?_
    rw [← Option.some.inj hsurb]
    exact Surb.length_serialize_le hwf
  have hanswer : handleRetrievalRequestWithSurb P nonces _
      (chunks q.holder q.chunkId) = _ := handleRequest_ok hwf hfrags
  unfold serveChunkRequest
  rw [hreq]
  simp only [surbRequest, Option.isSome_some, if_true] at hanswer ⊢
  rw [hanswer]
  rfl

variable (draws chunks) in
/-- A piece reaches its holder. -/
theorem Holding.movePiece
    (hwf : (hybridSurb P d destination layers).WellFormed)
    (h : Holding (hybridSurb P d destination layers) queries ids net)
    {q : Query} (hq : q ∈ queries) {f : Fragment}
    (hf : f ∈ requestPieces (hybridSurb P d destination layers) q.chunkId)
    {k now : Nat} (hk : net.pieces[k]?
      = some (q.piece (hybridSurb P d destination layers) f))
    (hlive : (net.tables q.holder).Live (requestKey d.sessionId) now) :
    ∃ table held, Asks (hybridSurb P d destination layers)
        (asked queries q.holder) held table
      ∧ ((net.movePiece P chunks draws k now = net.fed k q.holder table
          ∧ held = insert f.fragmentId (ids q.holder)
          ∧ (f.fragmentId ∉ ids q.holder → held ≠ Finset.range
            (requestPieces (hybridSurb P d destination layers)
              q.chunkId).length))
        ∨ (held = ∅ ∧ insert f.fragmentId (ids q.holder) = Finset.range
            (requestPieces (hybridSurb P d destination layers)
              q.chunkId).length
          ∧ ∃ asker ∈ queries, asker.holder = q.holder
            ∧ ∀ head more, asker.response chunks = head :: more →
              net.movePiece P chunks draws k now
                = (net.fed k q.holder table).send
                  (replyPackets P d layers destination
                    (fun i => draws (net.replies.length + i)) head
                    more))) := by
  have hfrag := requestPieces_fragmentation hwf q.chunkId
  have hget := hfrag.getElem?_id hf
  have hc : q.chunkId ∈ asked queries q.holder :=
    mem_asked.2 ⟨q, hq, rfl, rfl⟩
  have hout := requestOf_asked hwf (h.tables q hq) hlive hc hget
  simp only at hout
  generalize hreqs : requestOf (net.tables q.holder) (padTo BODY_SIZE
    (surbRequestBody (hybridSurb P d destination layers).sessionId f)) now
      = out at hout
  obtain ⟨request, table⟩ := out
  refine ⟨table, ?_⟩
  rcases hout with ⟨hin, hreq, hasks⟩ | ⟨hin, hmiss, hreq, hasks⟩
    | ⟨hin, hall, ⟨c, hmem, hreq⟩, hasks⟩
  · simp only at hreq
    subst hreq
    exact ⟨_, by rw [Finset.insert_eq_of_mem hin]; exact hasks,
      Or.inl ⟨net.movePiece_none hk hreqs rfl, rfl,
        fun hnot => absurd hin hnot⟩⟩
  · simp only at hreq
    subst hreq
    exact ⟨_, hasks, Or.inl ⟨net.movePiece_none hk hreqs rfl, rfl,
      fun _ => hmiss⟩⟩
  · simp only at hreq
    subst hreq
    obtain ⟨asker, hasker, hholder, rfl⟩ := mem_asked.1 hmem
    refine ⟨∅, hasks, Or.inr ⟨rfl, hall, asker, hasker, hholder, ?_⟩⟩
    intro head more hfrags
    refine net.movePiece_some hk hreqs ?_
    rw [Option.bind_some]
    simp only [Query.piece, ← hholder]
    exact serveChunkRequest_ok hwf hfrags

end Holders

-- ===== the invariant

/-- Queries whose answers fit, over a route that carries them. -/
structure Answerable (P : Prims) (d : PacketDraws) (layers : List Layer)
    (destination : NodeId)
    (chunks : NodeId → ChunkId → Option (List UInt8))
    (queries : List Query) : Prop where
  returns : Returns P d layers
  wellFormed : (hybridSurb P d destination layers).WellFormed
  fits : ∀ q ∈ queries, (serializeResponse (q.expected chunks)).length
    ≤ MAX_FRAGMENTS_PER_MESSAGE * MAX_FRAGMENT_DATA
  sendable : ∀ q ∈ queries, ∀ head more, q.response chunks = head :: more →
    Sendable P d layers destination head

/-- What is left of an only query: the pieces of its request that its
holder lacks, or its answer. -/
inductive Sole (surb : Surb)
    (chunks : NodeId → ChunkId → Option (List UInt8)) (q : Query) :
    Finset Nat → List RequestPiece → List Fragment → List Fragment → Prop
  | asking (missing : List Fragment) (hne : missing ≠ [])
      (hmem : ∀ f ∈ missing, f ∈ requestPieces surb q.chunkId)
      (hnodup : (missing.map Fragment.fragmentId).Nodup) :
      Sole surb chunks q
        (Finset.range (requestPieces surb q.chunkId).length
          \ (missing.map Fragment.fragmentId).toFinset)
        (missing.map (q.piece surb)) [] []
  | answered (held : Finset Nat) (head : Fragment) (rest : List Fragment)
      (hfrags : q.response chunks = head :: rest) :
      Sole surb chunks q held [] [head] rest

structure Serving (P : Prims) (d : PacketDraws) (layers : List Layer)
    (destination : NodeId) (kem : NodeId → List UInt8)
    (draws : Nat → Bytes 32)
    (chunks : NodeId → ChunkId → Option (List UInt8))
    (queries : List Query) (net : SharedNet) (heads rest : List Fragment)
    (ids : NodeId → Finset Nat) : Prop where
  crossing : Crossing P d layers destination kem draws net heads rest
  holding : Holding (hybridSurb P d destination layers) queries ids net
  tails : ∀ f ∈ rest, f.Valid ∧ f.fragmentId ≠ 0
  sole : ∀ q, queries = [q] →
    Sole (hybridSurb P d destination layers) chunks q (ids q.holder)
      net.pieces heads rest

section Sole

variable {surb : Surb} {chunks : NodeId → ChunkId → Option (List UInt8)}
  {q : Query} {held : Finset Nat} {heads rest : List Fragment}

/-- A piece's body tells the fragment. -/
theorem Query.piece_inj {f f' : Fragment} (hf : f.Valid) (hf' : f'.Valid)
    (h : q.piece surb f = q.piece surb f') : f = f' := by
  obtain ⟨-, -, hread, -⟩ := piece_fields hf surb.sessionId
  obtain ⟨-, -, hread', -⟩ := piece_fields hf' surb.sessionId
  rw [show padTo BODY_SIZE (surbRequestBody surb.sessionId f)
    = padTo BODY_SIZE (surbRequestBody surb.sessionId f')
    from congrArg RequestPiece.body h, hread'] at hread
  exact (Except.ok.inj hread).symm

/-- A piece of the only query reaches its holder: others are missing, or
it was the last. -/
theorem Sole.piece (hwf : surb.WellFormed) {pieces : List RequestPiece}
    (h : Sole surb chunks q held pieces heads rest) {k : Nat}
    {f : Fragment} (hf : f ∈ requestPieces surb q.chunkId)
    (hk : pieces[k]? = some (q.piece surb f)) :
    heads = [] ∧ rest = [] ∧ f.fragmentId ∉ held
      ∧ (insert f.fragmentId held
          ≠ Finset.range (requestPieces surb q.chunkId).length →
        Sole surb chunks q (insert f.fragmentId held) (pieces.eraseIdx k)
          heads rest)
      ∧ (insert f.fragmentId held
          = Finset.range (requestPieces surb q.chunkId).length →
        pieces.eraseIdx k = []) := by
  have hfrag := requestPieces_fragmentation hwf q.chunkId
  cases h with
  | answered held head rest hfrags => cases hk
  | asking missing hne hmem hnodup =>
      rw [List.getElem?_map] at hk
      obtain ⟨g, hg, hpiece⟩ := Option.map_eq_some_iff.1 hk
      have hgmem := hmem g (List.mem_of_getElem? hg)
      obtain rfl := Query.piece_inj (hfrag.valid hgmem) (hfrag.valid hf)
        hpiece
      obtain ⟨hlt, hget⟩ := List.getElem?_eq_some_iff.1 hg
      have hperm : (g :: missing.eraseIdx k).Perm missing := by
        rw [← hget]
        exact List.getElem_cons_eraseIdx_perm hlt
      have hids := hperm.map Fragment.fragmentId
      rw [List.map_cons] at hids
      have hnd := List.nodup_cons.1 (hids.nodup_iff.2 hnodup)
      have hset : (missing.map Fragment.fragmentId).toFinset
          = insert g.fragmentId
            ((missing.eraseIdx k).map Fragment.fragmentId).toFinset := by
        rw [← List.toFinset_eq_of_perm _ _ hids, List.toFinset_cons]
      have hrange : g.fragmentId
          ∈ Finset.range (requestPieces surb q.chunkId).length :=
        Finset.mem_range.2
          (List.getElem?_eq_some_iff.1 (hfrag.getElem?_id hf)).1
      have hadd : insert g.fragmentId
          (Finset.range (requestPieces surb q.chunkId).length
            \ (missing.map Fragment.fragmentId).toFinset)
          = Finset.range (requestPieces surb q.chunkId).length
            \ ((missing.eraseIdx k).map Fragment.fragmentId).toFinset := by
        rw [hset]
        exact Finset.sdiff_insert_insert_of_mem_of_notMem hrange
          (by rw [List.mem_toFinset]; exact hnd.1)
      have hleft : ∀ g ∈ missing.eraseIdx k,
          g ∈ requestPieces surb q.chunkId :=
        fun g hg => hmem g (List.mem_of_mem_eraseIdx hg)
      refine ⟨rfl, rfl, ?_, fun hmiss => ?_, fun hall => ?_⟩
      · rw [hset]
        simp
      · rw [hadd] at hmiss ⊢
        rw [List.eraseIdx_map]
        refine .asking _ ?_ hleft hnd.2
        intro hnil
        rw [hnil] at hmiss
        exact hmiss (by simp)
      · rw [hadd, Finset.sdiff_eq_self_iff_disjoint] at hall
        rw [List.eraseIdx_map, List.map_eq_nil_iff,
          List.eq_nil_iff_forall_not_mem]
        intro g hg
        have hin := Finset.mem_range.2 (List.getElem?_eq_some_iff.1
          (hfrag.getElem?_id (hleft g hg))).1
        refine Finset.disjoint_left.1 hall hin ?_
        rw [List.mem_toFinset]
        exact List.mem_map_of_mem hg

/-- Once no piece is on its way, the query has been answered. -/
theorem Sole.answer (h : Sole surb chunks q held [] heads rest) :
    ∃ head, heads = [head] ∧ q.response chunks = head :: rest := by
  generalize hpieces : ([] : List RequestPiece) = pieces at h
  cases h with
  | asking missing hne hmem hnodup =>
      exact absurd (List.map_eq_nil_iff.1 hpieces.symm) hne
  | answered held head rest hfrags => exact ⟨head, rfl, hfrags⟩

end Sole

-- ============= moves

section Moves

variable {P : Prims} {d : PacketDraws} {layers : List Layer}
  {destination : NodeId} {kem : NodeId → List UInt8}
  {draws : Nat → Bytes 32}
  {chunks : NodeId → ChunkId → Option (List UInt8)}
  {queries : List Query} {net net' : SharedNet}
  {heads rest : List Fragment} {ids : NodeId → Finset Nat}

/-- Only the session of the block counts. -/
theorem Asks.congr {surb : Surb} {cs : List ChunkId} {held : Finset Nat}
    {m m' : ReassemblyManager} (h : Asks surb cs held m)
    (hget : m'.sessions.get (requestKey surb.sessionId)
      = m.sessions.get (requestKey surb.sessionId)) :
    Asks surb cs held m' := by
  unfold Asks at h ⊢
  rw [hget]
  exact h

/-- Nothing happens to the pieces and the sessions of the block. -/
theorem Serving.route
    (h : Serving P d layers destination kem draws chunks queries net heads
      rest ids)
    (hcrossing : Crossing P d layers destination kem draws net' heads rest)
    (htables : ∀ holder,
      (net'.tables holder).sessions.get (requestKey d.sessionId)
        = (net.tables holder).sessions.get (requestKey d.sessionId))
    (hpieces : net'.pieces = net.pieces) :
    Serving P d layers destination kem draws chunks queries net' heads rest
      ids := by
  refine ⟨hcrossing, ⟨fun q hq => ?_, ?_⟩, h.tails, ?_⟩
  · exact (h.holding.tables q hq).congr (htables q.holder)
  · rw [hpieces]
    exact h.holding.pieces
  · rw [hpieces]
    exact h.sole

variable (P kem) in
theorem SharedNet.moveFirst_holders (net : SharedNet) (k : Nat)
    (draw : MixDraws) :
    (net.moveFirst P kem k draw).tables = net.tables
      ∧ (net.moveFirst P kem k draw).pieces = net.pieces
      ∧ (net.moveFirst P kem k draw).replies = net.replies := by
  rcases net.moveFirst_cases P kem k draw with hsame | ⟨_, _, _, -, hmove⟩
  · rw [hsame]
    exact ⟨rfl, rfl, rfl⟩
  · rw [hmove]
    exact ⟨rfl, rfl, rfl⟩

/-- The pieces after the first are not first pieces. -/
theorem Fragmentation.tail {head : Fragment} {more : List Fragment}
    {payload : List UInt8} (h : Fragmentation (head :: more) payload)
    {f : Fragment} (hf : f ∈ more) : f.Valid ∧ f.fragmentId ≠ 0 := by
  refine ⟨h.valid (List.mem_cons_of_mem _ hf), ?_⟩
  obtain ⟨i, hi, hget⟩ := List.mem_iff_getElem.1 hf
  have hpiece := (h.piece (i + 1) f (by
    rw [List.getElem?_cons_succ, List.getElem?_eq_getElem hi, hget])).1
  rw [hpiece]
  exact Nat.succ_ne_zero i

/-- A piece reaches its holder. -/
theorem Serving.movePiece
    (hans : Answerable P d layers destination chunks queries)
    (h : Serving P d layers destination kem draws chunks queries net heads
      rest ids) {tags : List Mac} {k now : Nat}
    (hallowed : net.Allowed P chunks draws d.sessionId tags
      (.piece k now)) :
    (∃ heads rest ids, Serving P d layers destination kem draws chunks
        queries (net.movePiece P chunks draws k now) heads rest ids)
      ∧ ((net.movePiece P chunks draws k now).Lossless
        ↔ net.Lossless) := by
  cases hk : net.pieces[k]? with
  | none =>
      have hsame : net.movePiece P chunks draws k now = net := by
        simp only [SharedNet.movePiece, hk]
      rw [hsame]
      exact ⟨⟨heads, rest, ids, h⟩, Iff.rfl⟩
  | some piece =>
      obtain ⟨q, hq, f, hf, rfl⟩ :=
        h.holding.pieces piece (List.mem_of_getElem? hk)
      have hsole := fun hone => (h.sole q hone).piece hans.wellFormed hf hk
      obtain ⟨table, held, hasks, ⟨hmove, hheld, hmiss⟩
        | ⟨hheld, hall, asker, hasker, hholder, hserve⟩⟩ :=
        h.holding.movePiece draws chunks hans.wellFormed hq hf hk (hallowed.1 _ hk)
      · rw [hmove]
        refine ⟨⟨heads, rest, _, h.crossing.holders _ _,
          h.holding.fed k hasks, h.tails, ?_⟩, Iff.rfl⟩
        intro q' hone
        obtain rfl : q = q' := by
          rw [hone] at hq
          exact List.mem_singleton.1 hq
        obtain ⟨-, -, hnot, hnext, -⟩ := hsole hone
        rw [Function.update_self, hheld]
        refine hnext ?_
        rw [← hheld]
        exact hmiss hnot
      · have hfrag : Fragmentation (asker.response chunks) _ :=
          fragmentPayload_fragmentation (hans.fits asker hasker)
        obtain ⟨head, more, hfrags⟩ :=
          List.exists_cons_of_length_pos hfrag.pos
        rw [hfrags] at hfrag
        have hmove := hserve head more hfrags
        have hnonces := hallowed.2
        rw [hmove] at hnonces ⊢
        have hlen : (rest ++ more).length
            = ((net.fed k q.holder table).send
              (replyPackets P d layers destination
                (fun i => draws (net.replies.length + i)) head
                more)).replies.length := by
          simp [SharedNet.send, SharedNet.fed, replyPackets,
            buildSessionReplies, h.crossing.length_replies]
        rw [← hlen] at hnonces
        have hholding := h.holding.fed k hasks
        have hcrossing : Crossing P d layers destination kem draws
            (net.fed k q.holder table) heads rest :=
          h.crossing.holders _ _
        refine ⟨⟨heads ++ [head], rest ++ more, _,
          hcrossing.send hans.returns
            (hans.sendable asker hasker head more hfrags) hnonces,
          ⟨hholding.tables, hholding.pieces⟩, ?_, ?_⟩, ?_⟩
        · intro g hg
          rcases List.mem_append.1 hg with hg | hg
          · exact h.tails g hg
          · exact hfrag.tail hg
        · intro q' hone
          obtain rfl : q = q' := by
            rw [hone] at hq
            exact List.mem_singleton.1 hq
          obtain rfl : asker = q := by
            rw [hone] at hasker
            exact List.mem_singleton.1 hasker
          obtain ⟨rfl, rfl, -, -, hlast⟩ := hsole hone
          have hpieces : ((net.fed k asker.holder table).send
              (replyPackets P d layers destination
                (fun i => draws (net.replies.length + i)) head
                more)).pieces = [] := hlast hall
          rw [hpieces]
          exact .answered _ head more hfrags
        · refine ⟨fun hl t ht => hl t (List.mem_append_left _ ht),
            fun hl t ht => ?_⟩
          rcases List.mem_append.1 ht with ht | ht
          · exact hl t ht
          · obtain ⟨reply, -, rfl⟩ := List.mem_map.1 ht
            intro hlost
            cases hlost

/-- One move of the network. -/
theorem Serving.move
    (hans : Answerable P d layers destination chunks queries)
    {tags : List Mac} (htags : ∀ l ∈ layers, (l.keys P).tag ∈ tags)
    (h : Serving P d layers destination kem draws chunks queries net heads
      rest ids) {mv : SharedMove}
    (hallowed : net.Allowed P chunks draws d.sessionId tags mv) :
    (∃ heads rest ids, Serving P d layers destination kem draws chunks
        queries (net.move P kem chunks draws mv) heads rest ids)
      ∧ ((net.move P kem chunks draws mv).Lossless
        ↔ net.Lossless ∧ net.Follows mv) := by
  cases mv with
  | piece k now =>
      obtain ⟨hnext, hlossless⟩ := h.movePiece hans hallowed
      exact ⟨hnext, hlossless.trans (and_iff_left trivial).symm⟩
  | first k draw =>
      obtain ⟨htables, hpieces, hreplies⟩ :=
        net.moveFirst_holders P kem k draw
      refine ⟨⟨heads, rest, ids, h.route
        (h.crossing.moveFirst hans.returns k draw)
        (fun holder => by rw [SharedNet.move, htables]) hpieces⟩, ?_⟩
      simp only [SharedNet.move, SharedNet.Lossless, hreplies,
        SharedNet.Follows, and_true]
  | reply k now =>
      obtain ⟨hnext, hlossless⟩ :=
        h.crossing.moveReply hans.returns hallowed
      have hsame := net.moveReply_eq (P := P) k now ⟨[], .lost⟩
      refine ⟨⟨heads, rest, ids, h.route hnext (fun holder => ?_) ?_⟩,
        hlossless⟩
      · rw [SharedNet.move, hsame]
      · rw [SharedNet.move, hsame]
  | other id node =>
      exact ⟨⟨heads, rest, ids, h.route
        (h.crossing.moveOther htags hallowed) (fun _ => rfl) rfl⟩,
        (and_iff_left trivial).symm⟩
  | busy id table =>
      refine ⟨⟨heads, rest, ids, h.route
        (h.crossing.holders _ net.pieces) (fun holder => ?_) rfl⟩,
        (and_iff_left trivial).symm⟩
      show (Function.update net.tables id table holder).sessions.get _ = _
      by_cases hid : holder = id
      · rw [hid, Function.update_self]
        exact hallowed
      · rw [Function.update_of_ne hid]

/-- A run of the network: the invariant holds to its end, and a session
reply is lost exactly if one overtakes the first packets. -/
theorem Serving.run
    (hans : Answerable P d layers destination chunks queries)
    {tags : List Mac} (htags : ∀ l ∈ layers, (l.keys P).tag ∈ tags)
    (h : Serving P d layers destination kem draws chunks queries net heads
      rest ids) {moves : List SharedMove}
    (hall : SharedNet.AllAllowed P kem chunks draws d.sessionId tags net
      moves) :
    (∃ heads rest ids, Serving P d layers destination kem draws chunks
        queries (net.run P kem chunks draws moves) heads rest ids)
      ∧ ((net.run P kem chunks draws moves).Lossless
        ↔ net.Lossless
          ∧ SharedNet.AllFollow P kem chunks draws net moves) := by
  induction moves generalizing net heads rest ids with
  | nil => exact ⟨⟨heads, rest, ids, h⟩, (and_iff_left trivial).symm⟩
  | cons mv moves ih =>
      obtain ⟨⟨heads', rest', ids', hnext⟩, hstep⟩ :=
        h.move hans htags hall.1
      obtain ⟨hend, hrun⟩ := ih hnext hall.2
      refine ⟨hend, hrun.trans ?_⟩
      rw [hstep, SharedNet.AllFollow, and_assoc]

end Moves

end StaticNet
