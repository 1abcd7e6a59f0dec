/-
The host buffer (`HostBuffer::insert` in `static-node/src/runner.rs`):
recently bartered own chunks, kept for a quick reseed.

An insert writes a map, a queue and a byte counter one after the other,
and an eviction loop takes from all three. `Lists` is what holds inside
that loop: the ids still to be looked at are the keys of the map, and the
counter is what the map holds. The loop then stops at the shortest prefix
that has to go (`Lists.makeRoom`).

The data that is counted is in memory all at once, so the sums of the
source stay far below the end of `u64` and are sums here.
-/
import StaticNet.Node.Basic

namespace StaticNet

namespace HostBuffer

variable {b : HostBuffer} {c : ChunkId} {ids : List ChunkId} {len : Nat}

-- ==== what is counted

/-- The bytes a map holds for some chunks. -/
def bytesOf (m : FMap ChunkId (List UInt8 × Nat)) (ids : List ChunkId) :
    Nat :=
  (ids.map (m.weightAt fun e => e.1.length)).sum

/-- For all of its keys, each named once, that is the map's total. -/
theorem bytesOf_keys {m : FMap ChunkId (List UInt8 × Nat)}
    (hnodup : ids.Nodup) (hkeys : ids.toFinset = m.keys) :
    bytesOf m ids = m.sumBy fun e => e.1.length := by
  unfold bytesOf FMap.sumBy
  rw [← hkeys, List.sum_toFinset _ hnodup]

theorem bytesOf_append (m : FMap ChunkId (List UInt8 × Nat))
    (ids ids' : List ChunkId) :
    bytesOf m (ids ++ ids') = bytesOf m ids + bytesOf m ids' := by
  unfold bytesOf
  rw [List.map_append, List.sum_append]

/-- Maps that agree on some chunks hold as much for them. -/
theorem bytesOf_congr {m m' : FMap ChunkId (List UInt8 × Nat)}
    (h : ∀ c ∈ ids, m.get c = m'.get c) : bytesOf m ids = bytesOf m' ids := by
  unfold bytesOf
  refine congrArg List.sum (List.map_congr_left fun c hc => ?_)
  unfold FMap.weightAt
  rw [h c hc]

/-- The ids are the keys of the map, and the counter is its total. -/
structure Lists (b : HostBuffer) (ids : List ChunkId) : Prop where
  nodup : ids.Nodup
  keys : ids.toFinset = b.buffer.keys
  counted : b.currentSize = b.buffer.sumBy fun e => e.1.length

theorem Lists.get_eq_none (h : Lists b ids) (hc : c ∉ ids) :
    b.buffer.get c = none := by
  rw [← List.mem_toFinset, h.keys, b.buffer.mem_keys, Bool.not_eq_true,
    Option.isSome_eq_false_iff, Option.isNone_iff_eq_none] at hc
  exact hc

theorem Lists.currentSize_eq (h : Lists b ids) :
    b.currentSize = bytesOf b.buffer ids :=
  h.counted.trans (bytesOf_keys h.nodup h.keys).symm

-- ==== taking one out

theorem drop_of_get {data : List UInt8} {t : Nat}
    (h : b.buffer.get c = some (data, t)) :
    b.drop c = { b with
      buffer := b.buffer.erase c
      currentSize := b.currentSize - data.length } := by
  simp only [drop, h]

theorem drop_of_none (h : b.buffer.get c = none) : b.drop c = b := by
  simp only [drop, h]

theorem drop_maxSize : (b.drop c).maxSize = b.maxSize := by
  cases h : b.buffer.get c with
  | none => rw [drop_of_none h]
  | some e => rw [drop_of_get h]

theorem drop_get (c' : ChunkId) : (b.drop c).buffer.get c'
    = if c' = c then none else b.buffer.get c' := by
  cases h : b.buffer.get c with
  | none =>
      rw [drop_of_none h]
      split
      next heq => rw [heq, h]
      next => rfl
  | some e =>
      rw [drop_of_get h]
      exact FMap.get_erase _ _ _

/-- What is taken out was counted. -/
theorem Lists.length_le (h : Lists b ids) {data : List UInt8} {t : Nat}
    (hget : b.buffer.get c = some (data, t)) :
    data.length ≤ b.currentSize := by
  have hsum := FMap.sumBy_erase b.buffer (fun e => e.1.length) c
  rw [FMap.weightAt_of_get hget] at hsum
  rw [h.counted, ← hsum]
  exact Nat.le_add_left _ _

theorem Lists.drop (h : Lists b ids) :
    Lists (b.drop c) (ids.filter fun id => id != c) := by
  cases hget : b.buffer.get c with
  | none =>
      have habsent : c ∉ ids := by
        rw [← List.mem_toFinset, h.keys, b.buffer.mem_keys, hget]
        exact Bool.false_ne_true
      have hall : (ids.filter fun id => id != c) = ids := by
        rw [List.filter_eq_self]
        intro id hid
        exact bne_iff_ne.2 fun heq => habsent (heq ▸ hid)
      rw [drop_of_none hget, hall]
      exact h
  | some e =>
      rw [drop_of_get hget]
      refine ⟨h.nodup.filter _, ?_, ?_⟩
      · show _ = b.buffer.keys.erase c
        rw [← h.keys]
        ext id
        simp only [List.mem_toFinset, List.mem_filter, Finset.mem_erase,
          bne_iff_ne]
        exact and_comm
      · have hsum := FMap.sumBy_erase b.buffer (fun e => e.1.length) c
        rw [FMap.weightAt_of_get hget] at hsum
        have hcounted := h.counted
        show b.currentSize - e.1.length
          = (b.buffer.erase c).sumBy fun e => e.1.length
        omega

/-- In the loop it is the front that is taken out. -/
theorem Lists.drop_front {old : ChunkId} {rest : List ChunkId}
    (h : Lists b (old :: rest)) : Lists (b.drop old) rest := by
  have hnodup := List.nodup_cons.1 h.nodup
  have hrest : ((old :: rest).filter fun id => id != old) = rest := by
    rw [List.filter_cons_of_neg (by simp), List.filter_eq_self]
    intro id hid
    exact bne_iff_ne.2 fun heq => hnodup.1 (heq ▸ hid)
  rw [← hrest]
  exact h.drop

-- ========== the loop

/-- `evicted` is the shortest prefix of the queue that has to go. -/
structure Shortest (b : HostBuffer) (len : Nat)
    (evicted kept : List ChunkId) : Prop where
  enough : bytesOf b.buffer kept + len ≤ b.maxSize
  needed : ∀ pre post, evicted ++ kept = pre ++ post →
    pre.length < evicted.length → b.maxSize < bytesOf b.buffer post + len

/-- One more at the front, which has to go as well. -/
theorem Shortest.cons {old : ChunkId} {evicted kept : List ChunkId}
    (h : Shortest (b.drop old) len evicted kept)
    (hlists : Lists b (old :: (evicted ++ kept)))
    (hbig : b.maxSize < b.currentSize + len) :
    Shortest b len (old :: evicted) kept := by
  have hold := (List.nodup_cons.1 hlists.nodup).1
  have hsame : ∀ ids, ids ⊆ evicted ++ kept →
      bytesOf (b.drop old).buffer ids = bytesOf b.buffer ids := by
    intro ids hids
    refine bytesOf_congr fun c hc => ?_
    have hne : c ≠ old := fun heq => hold (heq ▸ hids hc)
    rw [drop_get, if_neg hne]
  constructor
  · have henough := h.enough
    rwa [drop_maxSize, hsame kept (List.subset_append_right _ _)]
      at henough
  · intro pre post heq hshort
    cases pre with
    | nil =>
        rw [← List.nil_append post, ← heq, List.cons_append,
          ← hlists.currentSize_eq]
        exact hbig
    | cons first pre =>
        rw [List.cons_append, List.cons_append, List.cons.injEq] at heq
        have hneeded := h.needed pre post heq.2 (Nat.lt_of_succ_lt_succ
          hshort)
        have hpost : post ⊆ evicted ++ kept := by
          rw [heq.2]
          exact List.subset_append_right _ _
        rwa [drop_maxSize, hsame post hpost] at hneeded

/-- The loop takes the shortest prefix that has to go, and nothing
else. -/
theorem Lists.makeRoom (h : Lists b ids) (hlen : len ≤ b.maxSize) :
    ∃ evicted kept, ids = evicted ++ kept ∧ Shortest b len evicted kept
      ∧ Lists (makeRoom len ids b) kept
      ∧ (makeRoom len ids b).order = kept
      ∧ (makeRoom len ids b).maxSize = b.maxSize
      ∧ ∀ c, (makeRoom len ids b).buffer.get c
        = if c ∈ kept then b.buffer.get c else none := by
  induction ids generalizing b with
  | nil =>
      refine ⟨[], [], rfl, ⟨?_, ?_⟩, ⟨h.nodup, h.keys, h.counted⟩, rfl, rfl,
        ?_⟩
      · exact (Nat.zero_add len).le.trans hlen
      · intro pre post _ hshort
        exact absurd hshort (Nat.not_lt_zero _)
      · intro c
        rw [if_neg List.not_mem_nil]
        exact h.get_eq_none List.not_mem_nil
  | cons old rest ih =>
      unfold HostBuffer.makeRoom
      by_cases hbig : b.maxSize < b.currentSize + len
      · rw [if_pos hbig]
        obtain ⟨evicted, kept, rfl, hshortest, hlists, horder, hmax, hget⟩ :=
          ih h.drop_front (hlen.trans drop_maxSize.ge)
        refine ⟨old :: evicted, kept, rfl, hshortest.cons h hbig, hlists,
          horder, hmax.trans drop_maxSize, ?_⟩
        intro c
        rw [hget]
        by_cases hc : c ∈ kept
        · have hne : c ≠ old := fun heq => (List.nodup_cons.1 h.nodup).1
            (List.mem_append_right _ (heq ▸ hc))
          rw [if_pos hc, if_pos hc, drop_get, if_neg hne]
        · rw [if_neg hc, if_neg hc]
      · rw [if_neg hbig]
        refine ⟨[], old :: rest, rfl, ⟨?_, ?_⟩,
          ⟨h.nodup, h.keys, h.counted⟩, rfl, rfl, ?_⟩
        · rw [← h.currentSize_eq]
          exact Nat.le_of_not_lt hbig
        · intro pre post _ hshort
          exact absurd hshort (Nat.not_lt_zero _)
        · intro c
          by_cases hc : c ∈ old :: rest
          · rw [if_pos hc]
          · rw [if_neg hc]
            exact h.get_eq_none hc

-- ======== one insert

/-- The queue and the map that an insert finds room in: an older copy of
the chunk is taken out first. -/
def withoutCopy (b : HostBuffer) (c : ChunkId) : HostBuffer :=
  if b.buffer.contains c then
    { b.drop c with order := b.order.filter fun id => id != c }
  else b

theorem insert_of_fits {data : List UInt8} {t : Nat}
    (h : data.length ≤ b.maxSize) :
    b.insert c data t =
      let b := makeRoom data.length (b.withoutCopy c).order (b.withoutCopy c)
      { b with
        order := b.order ++ [c]
        currentSize := b.currentSize + data.length
        buffer := b.buffer.insert c (data, t) } :=
  if_neg (Nat.not_lt.2 h)

/-- The map and the queue describe one another, and the counter is within
the bound. -/
structure Sound (b : HostBuffer) : Prop where
  lists : Lists b b.order
  bounded : b.currentSize ≤ b.maxSize

theorem sound_new (maxSize : Nat) : Sound (new maxSize) where
  lists := ⟨.nil, rfl, rfl⟩
  bounded := Nat.zero_le _

/-- Taking the older copy out leaves the others, in their order. -/
theorem Lists.withoutCopy (h : Lists b b.order) :
    (b.withoutCopy c).order = (b.order.filter fun id => id != c)
      ∧ (b.withoutCopy c).maxSize = b.maxSize
      ∧ (∀ c', c' ≠ c →
        (b.withoutCopy c).buffer.get c' = b.buffer.get c')
      ∧ Lists (b.withoutCopy c) (b.order.filter fun id => id != c) := by
  have hdrop := h.drop (c := c)
  unfold HostBuffer.withoutCopy
  cases hheld : b.buffer.contains c with
  | true =>
      refine ⟨rfl, drop_maxSize, ?_,
        ⟨hdrop.nodup, hdrop.keys, hdrop.counted⟩⟩
      intro c' hne
      exact (drop_get c').trans (if_neg hne)
  | false =>
      have hnone : b.buffer.get c = none := by
        rw [← Option.isNone_iff_eq_none, ← Option.isSome_eq_false_iff]
        exact hheld
      have hall : (b.order.filter fun id => id != c) = b.order := by
        rw [List.filter_eq_self]
        intro id hid
        refine bne_iff_ne.2 fun heq => ?_
        have hkey : id ∈ b.buffer.keys := by
          rw [← h.keys, List.mem_toFinset]
          exact hid
        rw [b.buffer.mem_keys, heq, hnone] at hkey
        exact Bool.false_ne_true hkey
      rw [hall]
      exact ⟨rfl, rfl, fun _ _ => rfl, h⟩

/-- A chunk whose bytes are new goes to the back. -/
theorem Lists.store (h : Lists b ids) (hnew : c ∉ ids) (data : List UInt8)
    (t : Nat) (order : List ChunkId) :
    Lists { b with
      order := order
      currentSize := b.currentSize + data.length
      buffer := b.buffer.insert c (data, t) } (ids ++ [c]) := by
  refine ⟨?_, ?_, ?_⟩
  · rw [← List.concat_eq_append]
    exact h.nodup.concat hnew
  · rw [List.toFinset_append, h.keys, Finset.union_comm]
    rfl
  · have hsum := FMap.sumBy_insert b.buffer (fun e => e.1.length) c (data, t)
    rw [FMap.weightAt_of_none (h.get_eq_none hnew)] at hsum
    show b.currentSize + data.length = _
    rw [h.counted]
    exact hsum.symm

/-- An insert with what it stores. -/
structure Stored where
  chunkId : ChunkId
  data : List UInt8
  createdAt : Nat

def put (b : HostBuffer) (e : Stored) : HostBuffer :=
  b.insert e.chunkId e.data e.createdAt

/-- What an insert of data that can fit does to the buffer. -/
structure Replaces (b : HostBuffer) (e : Stored)
    (evicted kept : List ChunkId) : Prop where
  /-- the queue, without the chunk itself, in two parts -/
  queue : (b.order.filter fun id => id != e.chunkId) = evicted ++ kept
  shortest : Shortest b e.data.length evicted kept
  order : (b.put e).order = kept ++ [e.chunkId]
  buffer : ∀ c, (b.put e).buffer.get c
    = if c = e.chunkId then some (e.data, e.createdAt)
      else if c ∈ kept then b.buffer.get c else none

theorem Sound.put (h : Sound b) (e : Stored)
    (hfits : e.data.length ≤ b.maxSize) :
    (∃ evicted kept, Replaces b e evicted kept) ∧ Sound (b.put e)
      ∧ (b.put e).maxSize = b.maxSize := by
  obtain ⟨horder, hmax, hsame, hlists⟩ := h.lists.withoutCopy
    (c := e.chunkId)
  obtain ⟨evicted, kept, hqueue, hshortest, hroom, hleft, hmax', hget⟩ :=
    hlists.makeRoom (hfits.trans hmax.ge)
  have hput : b.put e = _ := insert_of_fits hfits
  rw [horder] at hput
  have hothers : ∀ c ∈ evicted ++ kept, c ≠ e.chunkId := by
    intro c hc
    rw [← hqueue] at hc
    exact bne_iff_ne.1 (List.mem_filter.1 hc).2
  have hnew : e.chunkId ∉ kept :=
    fun hin => hothers _ (List.mem_append_right _ hin) rfl
  have hbytes : ∀ ids, ids ⊆ evicted ++ kept →
      bytesOf (b.withoutCopy e.chunkId).buffer ids
        = bytesOf b.buffer ids :=
    fun ids hids => bytesOf_congr fun c hc => hsame c (hothers c (hids hc))
  have hsuffix : ∀ pre post, evicted ++ kept = pre ++ post →
      post ⊆ evicted ++ kept := by
    intro pre post heq
    rw [heq]
    exact List.subset_append_right _ _
  have henough := hshortest.enough
  rw [hmax, hbytes kept (List.subset_append_right _ _)] at henough
  rw [hput]
  refine ⟨⟨evicted, kept, hqueue, ⟨henough, ?_⟩, ?_, ?_⟩, ⟨?_, ?_⟩,
    hmax'.trans hmax⟩
  · intro pre post heq hshort
    have hneeded := hshortest.needed pre post heq hshort
    rwa [hmax, hbytes post (hsuffix pre post heq)] at hneeded
  · rw [hput]
    exact congrArg (· ++ [e.chunkId]) hleft
  · intro c
    rw [hput]
    refine (FMap.get_insert _ _ _ _).trans ?_
    by_cases hc : c = e.chunkId
    · rw [if_pos hc, if_pos hc]
    · rw [if_neg hc, if_neg hc, hget, hsame c hc]
  · have hstored := hroom.store hnew e.data e.createdAt (kept ++ [e.chunkId])
    dsimp only
    rw [hleft]
    exact hstored
  · show _ + _ ≤ _
    rw [hroom.currentSize_eq, hmax', hmax]
    refine le_trans (Nat.add_le_add_right ?_ _) henough
    refine (bytesOf_congr fun c hc => ?_).le
    rw [hget, if_pos hc, hsame c (hothers c (List.mem_append_right _ hc))]

/-- With the queue and the bytes that are there within the bound nothing
has to go. -/
theorem Sound.put_room (h : Sound b) (e : Stored)
    (hroom : b.currentSize + e.data.length ≤ b.maxSize) :
    (b.put e).currentSize ≤ b.currentSize + e.data.length
      ∧ ∀ c, (b.put e).buffer.get c
        = if c = e.chunkId then some (e.data, e.createdAt)
          else b.buffer.get c := by
  obtain ⟨⟨evicted, kept, hr⟩, hsound, -⟩ :=
    h.put e ((Nat.le_add_left _ _).trans hroom)
  have hsub : (evicted ++ kept).Sublist b.order :=
    hr.queue ▸ List.filter_sublist
  have hbytes : bytesOf b.buffer (evicted ++ kept) ≤ b.currentSize := by
    rw [h.lists.currentSize_eq]
    exact (hsub.map _).sum_le_sum fun _ _ => Nat.zero_le _
  have hall : evicted = [] := by
    by_contra hne
    have hneeded := hr.shortest.needed [] (evicted ++ kept) rfl
      (List.length_pos_iff.2 hne)
    omega
  rw [hall, List.nil_append] at hbytes
  have hqueue := hr.queue
  rw [hall, List.nil_append] at hqueue
  constructor
  · have hkept : bytesOf (b.put e).buffer kept = bytesOf b.buffer kept := by
      refine bytesOf_congr fun c hc => ?_
      have hne : c ≠ e.chunkId := by
        rw [← hqueue] at hc
        exact bne_iff_ne.1 (List.mem_filter.1 hc).2
      rw [hr.buffer, if_neg hne, if_pos hc]
    have hlast : bytesOf (b.put e).buffer [e.chunkId] = e.data.length := by
      have hget := hr.buffer e.chunkId
      rw [if_pos rfl] at hget
      exact FMap.weightAt_of_get hget
    rw [hsound.lists.currentSize_eq, hr.order, bytesOf_append, hkept, hlast]
    exact Nat.add_le_add_right hbytes _
  · intro c
    rw [hr.buffer]
    by_cases hc : c = e.chunkId
    · rw [if_pos hc, if_pos hc]
    · rw [if_neg hc, if_neg hc]
      split
      · rfl
      next hout =>
        refine (h.lists.get_eq_none fun hin => hout ?_).symm
        rw [← hqueue]
        exact List.mem_filter.2 ⟨hin, bne_iff_ne.2 hc⟩

-- ==== the subtractions, checked

/-- `drop` with a checked subtraction. -/
def dropChecked (b : HostBuffer) (c : ChunkId) : Option HostBuffer :=
  match b.buffer.get c with
  | some (data, _) =>
      if data.length ≤ b.currentSize then some (b.drop c) else none
  | none => some b

def makeRoomChecked (len : Nat) :
    List ChunkId → HostBuffer → Option HostBuffer
  | [], b => some { b with order := [] }
  | old :: rest, b =>
      if b.maxSize < b.currentSize + len then
        (b.dropChecked old).bind (makeRoomChecked len rest)
      else some { b with order := old :: rest }

/-- `insert`, failing where one of its subtractions would saturate. -/
def putChecked (b : HostBuffer) (e : Stored) : Option HostBuffer :=
  if b.maxSize < e.data.length then some b
  else
    let copied :=
      if b.buffer.contains e.chunkId then
        (b.dropChecked e.chunkId).map fun b' => { b' with
          order := b.order.filter fun id => id != e.chunkId }
      else some b
    copied.bind fun b =>
      (makeRoomChecked e.data.length b.order b).map fun b => { b with
        order := b.order ++ [e.chunkId]
        currentSize := b.currentSize + e.data.length
        buffer := b.buffer.insert e.chunkId (e.data, e.createdAt) }

theorem Lists.dropChecked (h : Lists b ids) :
    b.dropChecked c = some (b.drop c) := by
  unfold HostBuffer.dropChecked
  split
  next data t hget => rw [if_pos (h.length_le hget)]
  next hget => rw [drop_of_none hget]

theorem Lists.makeRoomChecked (h : Lists b ids) :
    makeRoomChecked len ids b = some (HostBuffer.makeRoom len ids b) := by
  induction ids generalizing b with
  | nil => rfl
  | cons old rest ih =>
      unfold HostBuffer.makeRoomChecked HostBuffer.makeRoom
      by_cases hbig : b.maxSize < b.currentSize + len
      · rw [if_pos hbig, if_pos hbig, h.dropChecked]
        exact ih h.drop_front
      · rw [if_neg hbig, if_neg hbig]

theorem Sound.putChecked (h : Sound b) (e : Stored) :
    b.putChecked e = some (b.put e) := by
  by_cases hbig : b.maxSize < e.data.length
  · exact (if_pos hbig).trans (congrArg some (if_pos hbig).symm)
  · obtain ⟨horder, -, -, hlists⟩ := h.lists.withoutCopy (c := e.chunkId)
    have hput : b.put e = _ := insert_of_fits (Nat.le_of_not_lt hbig)
    rw [hput, horder]
    unfold HostBuffer.putChecked
    rw [if_neg hbig]
    have hcopied : (if b.buffer.contains e.chunkId then
        (b.dropChecked e.chunkId).map fun b' => { b' with
          order := b.order.filter fun id => id != e.chunkId }
        else some b) = some (b.withoutCopy e.chunkId) := by
      rw [h.lists.dropChecked]
      unfold HostBuffer.withoutCopy
      split <;> rfl
    dsimp only
    rw [hcopied, Option.bind_some, horder, hlists.makeRoomChecked,
      Option.map_some]

-- =========== the run

/-- A buffer after some inserts. -/
def run (maxSize : Nat) (inserts : List Stored) : HostBuffer :=
  inserts.foldl put (new maxSize)

theorem run_append (maxSize : Nat) (inserts : List Stored) (e : Stored) :
    run maxSize (inserts ++ [e]) = (run maxSize inserts).put e :=
  List.foldl_append

theorem sound_run (maxSize : Nat) (inserts : List Stored) :
    Sound (run maxSize inserts)
      ∧ (run maxSize inserts).maxSize = maxSize := by
  induction inserts using List.reverseRecOn with
  | nil => exact ⟨sound_new maxSize, rfl⟩
  | append_singleton inserts e ih =>
      obtain ⟨hsound, hmax⟩ := ih
      rw [run_append]
      by_cases hbig : (run maxSize inserts).maxSize < e.data.length
      · have hsame : (run maxSize inserts).put e = run maxSize inserts :=
          if_pos hbig
        rw [hsame]
        exact ⟨hsound, hmax⟩
      · obtain ⟨-, hsound', hmax'⟩ := hsound.put e (Nat.le_of_not_lt hbig)
        exact ⟨hsound', hmax'.trans hmax⟩

/-- Inserts that fit together push nothing out: the buffer has the last of
each chunk. -/
theorem get_run_room {maxSize : Nat} {inserts : List Stored}
    (hroom : (inserts.map fun e => e.data.length).sum ≤ maxSize)
    (c : ChunkId) :
    (run maxSize inserts).buffer.get c
      = (inserts.reverse.find? fun e => e.chunkId = c).map fun e =>
          (e.data, e.createdAt) := by
  suffices h : (run maxSize inserts).currentSize
      ≤ (inserts.map fun e => e.data.length).sum
        ∧ (run maxSize inserts).buffer.get c
          = (inserts.reverse.find? fun e => e.chunkId = c).map fun e =>
              (e.data, e.createdAt) from h.2
  induction inserts using List.reverseRecOn with
  | nil => exact ⟨Nat.zero_le _, rfl⟩
  | append_singleton inserts e ih =>
      rw [List.map_append, List.sum_append, List.map_singleton,
        List.sum_singleton] at hroom
      obtain ⟨hsize, hget⟩ := ih ((Nat.le_add_right _ _).trans hroom)
      obtain ⟨hsound, hmax⟩ := sound_run maxSize inserts
      obtain ⟨hsize', hget'⟩ := hsound.put_room e (by omega)
      rw [run_append, hget', List.map_append, List.sum_append, List.map_singleton,
        List.sum_singleton, List.reverse_append, List.reverse_singleton,
        List.singleton_append, List.find?_cons]
      refine ⟨by omega, ?_⟩
      by_cases hc : c = e.chunkId
      · rw [if_pos hc, decide_eq_true hc.symm]
        rfl
      · rw [if_neg hc, decide_eq_false (Ne.symm hc), hget]

/-- After any inserts: the map and the queue describe one another and the
counter is what the map holds, within the bound; and whatever is inserted
next, it evicts the shortest prefix that has to go and takes the last
place, or is too large and changes nothing, and no subtraction
saturates. -/
theorem host_buffer_replaces (maxSize : Nat) (inserts : List Stored) :
    (run maxSize inserts).maxSize = maxSize
      ∧ Sound (run maxSize inserts)
      ∧ ∀ e : Stored,
        (maxSize < e.data.length →
            (run maxSize inserts).put e = run maxSize inserts)
          ∧ (e.data.length ≤ maxSize →
            ∃ evicted kept,
              Replaces (run maxSize inserts) e evicted kept)
          ∧ (run maxSize inserts).putChecked e
            = some ((run maxSize inserts).put e) := by
  obtain ⟨hsound, hmax⟩ := sound_run maxSize inserts
  refine ⟨hmax, hsound, fun e => ⟨?_, ?_, hsound.putChecked e⟩⟩
  · intro hbig
    rw [← hmax] at hbig
    exact if_pos hbig
  · intro hfits
    exact (hsound.put e (hfits.trans hmax.ge)).1

/-- The third of three chunks pushes the oldest out. -/
example : (run 5 [⟨Bytes.fill 32 1, [7, 7], 0⟩, ⟨Bytes.fill 32 2, [8, 8], 0⟩,
    ⟨Bytes.fill 32 3, [9, 9], 0⟩]).order
    = [Bytes.fill 32 2, Bytes.fill 32 3] := by
  decide

end HostBuffer

end StaticNet
