/-
How many responses a retrieval table returns.

A response is complete only when its first piece is there, and a session
that has returned one is gone. So a table returns no more responses than
its sessions hold first pieces and the bodies fed to it bring
(`take_heads`), whatever else it is fed and in whatever order it scans.
-/
import StaticNet.Retrieval.Reply

namespace StaticNet

-- ============ events

/-- What happens to the requester's table: a session is opened, or a body
arrives. -/
inductive RetrievalEvent
  | opened (key : ChunkId) (now : Nat)
  | body (o : IterOrder ChunkId) (bytes : List UInt8)

namespace RetrievalEvent

/-- The body that arrives, if one does. -/
def bytes? : RetrievalEvent → Option (List UInt8)
  | .opened _ _ => none
  | .body _ bytes => some bytes

def isOpened : RetrievalEvent → Bool
  | .opened _ _ => true
  | .body _ _ => false

/-- A body fed in an order. -/
def fed (x : IterOrder ChunkId × List UInt8) : RetrievalEvent :=
  .body x.1 x.2

end RetrievalEvent

/-- The response a call returns, if it returns one. -/
def returned : FeedResult → List ChunkResponse
  | .ok (some response) => [response]
  | .ok none => []
  | .error _ => []

namespace RetrievalManager

/-- The responses that these events return, and the table after. -/
def take (m : RetrievalManager) :
    List RetrievalEvent → List ChunkResponse × RetrievalManager
  | [] => ([], m)
  | .opened key now :: events => (m.startRetrieval key now).take events
  | .body o bytes :: events =>
      let step := m.processFragment o bytes
      let tail := step.2.take events
      (returned step.1 ++ tail.1, tail.2)

/-- How many sessions hold a first piece. -/
def heads (m : RetrievalManager) : Nat :=
  m.pending.sumBy fun p => (p.reassembler.fragments.contains 0).toNat

end RetrievalManager

/-- Is this body a first piece? -/
def isHead (body : List UInt8) : Bool :=
  (deserializeFragment body).toOption.any fun f => f.fragmentId = 0

-- ====== first pieces

/-- Adding a fragment puts a first piece there only if it is one. -/
theorem Reassembler.contains_addFragment (r : Reassembler) (f : Fragment) :
    ((r.addFragment f).2.fragments.contains 0).toNat
      ≤ (r.fragments.contains 0).toNat
        + (decide (f.fragmentId = 0)).toNat := by
  have hstore : ∀ r : Reassembler,
      ((r.store f).2.fragments.contains 0).toNat
        ≤ (r.fragments.contains 0).toNat
          + (decide (f.fragmentId = 0)).toNat := by
    intro r
    unfold Reassembler.store
    by_cases hin : r.fragments.contains f.fragmentId = true
    · rw [if_pos hin]
      exact Nat.le_add_right _ _
    · rw [if_neg hin]
      by_cases hzero : f.fragmentId = 0
      · rw [decide_eq_true hzero]
        exact Nat.le_trans (Bool.toNat_le _) (Nat.le_add_left _ _)
      · simp only [FMap.contains, FMap.get_insert_ne _ _ (Ne.symm hzero)]
        exact Nat.le_add_right _ _
  unfold Reassembler.addFragment
  by_cases hbad : f.totalFragments = 0
      ∨ MAX_FRAGMENTS_PER_MESSAGE < f.totalFragments
  · rw [if_pos hbad]
    exact Nat.le_add_right _ _
  rw [if_neg hbad]
  by_cases hid : f.totalFragments ≤ f.fragmentId
  · rw [if_pos hid]
    exact Nat.le_add_right _ _
  rw [if_neg hid]
  by_cases hdata : MAX_FRAGMENT_DATA < f.data.length
  · rw [if_pos hdata]
    exact Nat.le_add_right _ _
  rw [if_neg hdata]
  cases r.totalExpected with
  | none => exact hstore { r with totalExpected := some f.totalFragments }
  | some expected =>
      simp only
      by_cases htotal : expected ≠ f.totalFragments
      · rw [if_pos htotal]
        exact Nat.le_add_right _ _
      · rw [if_neg htotal]
        exact hstore r

/-- What is put together from at least one piece has a first one. -/
theorem Reassembler.contains_of_reassemble {r : Reassembler}
    {data : List UInt8} (h : r.reassemble = .ok data) (hne : data ≠ []) :
    r.fragments.contains 0 = true := by
  unfold Reassembler.reassemble at h
  cases htotal : r.totalExpected with
  | none => rw [htotal] at h; cases h
  | some total =>
      rw [htotal] at h
      cases total with
      | zero => exact absurd (Except.ok.inj h).symm hne
      | succ n =>
          simp only [Reassembler.gather] at h
          cases hget : r.fragments.get 0 with
          | none => rw [hget] at h; cases h
          | some data => exact (FMap.contains_eq_true _ _).2 ⟨data, hget⟩

namespace RetrievalManager

variable {m : RetrievalManager} {target : ChunkId} {p : PendingRetrieval}
  {o : IterOrder ChunkId} {body : List UInt8}

theorem heads_remove (m : RetrievalManager) (id : ChunkId) :
    (m.remove id).heads ≤ m.heads := by
  have h := m.pending.sumBy_erase
    (fun p => (p.reassembler.fragments.contains 0).toNat) id
  exact Nat.le_of_add_right_le (Nat.le_of_eq h)

/-- Removing a session with a first piece takes one away. -/
theorem heads_remove_held (hget : m.pending.get target = some p)
    (hhead : p.reassembler.fragments.contains 0 = true) :
    (m.remove target).heads + 1 = m.heads := by
  have h := m.pending.sumBy_erase
    (fun p => (p.reassembler.fragments.contains 0).toNat) target
  rw [FMap.weightAt_of_get hget, hhead] at h
  exact h

/-- A session that returns a response gives its first piece for it. -/
theorem finish_heads (hget : m.pending.get target = some p) :
    (m.finish target p.reassembler).2.heads
        + (returned (m.finish target p.reassembler).1).length
      ≤ m.heads := by
  unfold finish
  cases p.reassembler.isComplete with
  | false => exact Nat.le_refl _
  | true =>
      rw [if_pos rfl]
      cases hdata : p.reassembler.reassemble with
      | error e => exact Nat.le_refl _
      | ok data =>
          simp only
          cases hresp : deserializeResponse data with
          | error e => exact Nat.le_refl _
          | ok response =>
              have hne : data ≠ [] := by
                rintro rfl
                cases hresp
              have hhead := Reassembler.contains_of_reassemble hdata hne
              simp only [returned, List.length_singleton]
              by_cases hid : response.chunkId = target
              · rw [if_neg (not_not.2 hid), hid]
                exact Nat.le_of_eq (heads_remove_held hget hhead)
              · rw [if_pos hid]
                have hkept : (m.remove response.chunkId).pending.get target
                    = some p := by
                  rw [← hget]
                  exact FMap.get_erase_ne _ (Ne.symm hid)
                rw [heads_remove_held hkept hhead]
                exact heads_remove m _

/-- One body: what it returns is paid by the first pieces there are. -/
theorem processFragment_heads (m : RetrievalManager)
    (o : IterOrder ChunkId) (body : List UInt8) :
    (m.processFragment o body).2.heads
        + (returned (m.processFragment o body).1).length
      ≤ m.heads + (isHead body).toNat := by
  unfold processFragment
  cases hf : deserializeFragment body with
  | error e => exact Nat.le_add_right _ _
  | ok f =>
      have hhead : isHead body = decide (f.fragmentId = 0) := by
        rw [isHead, hf]
        rfl
      rw [hhead]
      simp only
      by_cases hbad : f.totalFragments = 0
          ∨ MAX_FRAGMENTS_PER_MESSAGE < f.totalFragments
          ∨ f.totalFragments ≤ f.fragmentId
      · rw [if_pos hbad]
        exact Nat.le_add_right _ _
      rw [if_neg hbad]
      cases hfind : o.find m.pending
          (fun _ p => p.reassembler.canAccept f) with
      | none => exact Nat.le_add_right _ _
      | some found =>
          obtain ⟨target, p⟩ := found
          have hget := (IterOrder.find_some hfind).1
          have hadd := p.reassembler.contains_addFragment f
          simp only
          generalize p.reassembler.addFragment f = added at hadd
          have hsum := m.pending.sumBy_insert
            (fun p => (p.reassembler.fragments.contains 0).toNat) target
            { p with reassembler := added.2 }
          rw [FMap.weightAt_of_get hget] at hsum
          set next : RetrievalManager :=
            ⟨m.pending.insert target { p with reassembler := added.2 },
              m.order⟩ with hset
          have hself : next.pending.get target
              = some { p with reassembler := added.2 } :=
            FMap.get_insert_self _ _ _
          have hnext : next.heads
              ≤ m.heads + (decide (f.fragmentId = 0)).toNat := by
            rw [hset]
            unfold heads
            simp only at hsum ⊢
            omega
          have hfinish := finish_heads hself
          simp only at hfinish
          clear_value next
          by_cases hok : added.1 = true
          · rw [if_pos hok]
            exact Nat.le_trans hfinish hnext
          · rw [if_neg hok]
            exact hnext

-- ============== runs

/-- Opening a session brings no first piece. -/
theorem heads_startRetrieval (m : RetrievalManager) (key : ChunkId)
    (now : Nat) : (m.startRetrieval key now).heads ≤ m.heads := by
  unfold startRetrieval
  cases hin : m.pending.contains key with
  | true =>
      rw [if_pos rfl]
      obtain ⟨p, hp⟩ := (FMap.contains_eq_true _ _).1 hin
      have hsum := m.pending.sumBy_modify
        (fun p => (p.reassembler.fragments.contains 0).toNat)
        (fun p => { p with createdAt := now }) hp
      exact Nat.le_of_eq (Nat.add_right_cancel hsum)
  | false =>
      rw [if_neg (by decide)]
      have hadd : ∀ pending : FMap ChunkId PendingRetrieval,
          (pending.insert key ⟨key, Reassembler.new now, now⟩).sumBy
              (fun p => (p.reassembler.fragments.contains 0).toNat)
            ≤ pending.sumBy
              (fun p => (p.reassembler.fragments.contains 0).toNat) := by
        intro pending
        have hsum := pending.sumBy_insert
          (fun p => (p.reassembler.fragments.contains 0).toNat) key
          ⟨key, Reassembler.new now, now⟩
        simp only [Reassembler.new, FMap.contains, FMap.get_empty] at hsum
        exact Nat.le_of_add_right_le (Nat.le_of_eq hsum)
      refine Nat.le_trans (hadd _) ?_
      cases m.order with
      | nil => exact Nat.le_refl _
      | cons oldest rest =>
          simp only
          by_cases hfull : MAX_PENDING_RETRIEVALS ≤ m.pending.len
          · rw [if_pos hfull]
            exact heads_remove m oldest
          · rw [if_neg hfull]
            exact Nat.le_refl _

/-- No more responses than first pieces. -/
theorem take_heads (m : RetrievalManager) (events : List RetrievalEvent) :
    (m.take events).1.length
      ≤ m.heads + (events.filterMap RetrievalEvent.bytes?).countP isHead := by
  induction events generalizing m with
  | nil => exact Nat.zero_le _
  | cons event events ih =>
      cases event with
      | opened key now =>
          exact Nat.le_trans (ih (m.startRetrieval key now))
            (Nat.add_le_add_right (m.heads_startRetrieval key now) _)
      | body o bytes =>
          have hstep := m.processFragment_heads o bytes
          have hrest := ih (m.processFragment o bytes).2
          simp only [take, RetrievalEvent.bytes?, List.length_append,
            List.filterMap_cons, List.countP_cons]
          cases hhead : isHead bytes with
          | true =>
              rw [hhead, Bool.toNat_true] at hstep
              rw [if_pos rfl]
              omega
          | false =>
              rw [hhead, Bool.toNat_false] at hstep
              rw [if_neg (by decide)]
              omega

/-- A table with no session returns nothing until one is opened. -/
theorem processFragment_empty (hm : m.pending = ∅)
    (o : IterOrder ChunkId) (body : List UInt8) :
    returned (m.processFragment o body).1 = []
      ∧ (m.processFragment o body).2 = m := by
  have hfind : ∀ p : ChunkId → PendingRetrieval → Bool,
      o.find m.pending p = none := by
    intro p
    rw [hm]
    cases hfind : o.find ∅ p with
    | none => rfl
    | some found => cases (IterOrder.find_some hfind).1
  unfold processFragment
  cases deserializeFragment body with
  | error e => exact ⟨rfl, rfl⟩
  | ok f =>
      simp only [hfind]
      by_cases hbad : f.totalFragments = 0
          ∨ MAX_FRAGMENTS_PER_MESSAGE < f.totalFragments
          ∨ f.totalFragments ≤ f.fragmentId
      · rw [if_pos hbad]
        exact ⟨rfl, rfl⟩
      · rw [if_neg hbad]
        exact ⟨rfl, rfl⟩

-- ======= one session

theorem feed_append (m : RetrievalManager)
    (inputs more : List (IterOrder ChunkId × List UInt8)) :
    (m.feed (inputs ++ more)).1
      = (m.feed inputs).1 ++ ((m.feed inputs).2.feed more).1 := by
  induction inputs generalizing m with
  | nil => rfl
  | cons x inputs ih =>
      obtain ⟨o, bytes⟩ := x
      simp only [List.cons_append, feed, ih]

theorem length_feed (m : RetrievalManager)
    (inputs : List (IterOrder ChunkId × List UInt8)) :
    (m.feed inputs).1.length = inputs.length := by
  induction inputs generalizing m with
  | nil => rfl
  | cons x inputs ih => simp only [feed, List.length_cons, ih]

theorem take_append (m : RetrievalManager)
    (events more : List RetrievalEvent) :
    (m.take (events ++ more)).1
      = (m.take events).1 ++ ((m.take events).2.take more).1 := by
  induction events generalizing m with
  | nil => rfl
  | cons event events ih =>
      cases event with
      | opened key now => exact ih _
      | body o bytes =>
          simp only [List.cons_append, take, ih, List.append_assoc]

/-- Bodies alone return what feeding them does. -/
theorem take_bodies (m : RetrievalManager)
    (inputs : List (IterOrder ChunkId × List UInt8)) :
    (m.take (inputs.map RetrievalEvent.fed)).1
      = (m.feed inputs).1.flatMap returned := by
  induction inputs generalizing m with
  | nil => rfl
  | cons x inputs ih =>
      simp only [List.map_cons, RetrievalEvent.fed, take, feed,
        List.flatMap_cons, ih]

/-- To a table with no session, bodies do nothing. -/
theorem take_unopened (hm : m.pending = ∅)
    (inputs : List (IterOrder ChunkId × List UInt8)) :
    m.take (inputs.map RetrievalEvent.fed) = ([], m) := by
  induction inputs with
  | nil => rfl
  | cons x inputs ih =>
      obtain ⟨hnone, hsame⟩ :=
        processFragment_empty hm x.1 x.2
      simp only [List.map_cons, RetrievalEvent.fed, take, hnone, hsame, ih,
        List.append_nil]

/-- A new session returns a response when it gets all of its pieces, and
nothing when it gets only some of them. -/
theorem feed_some {frags : List Fragment} {resp : ChunkResponse}
    (hfrag : Fragmentation frags (serializeResponse resp))
    (hsize : resp.chunkData.length < 2 ^ 32) (key : ChunkId) (now : Nat)
    (o : IterOrder ChunkId) {spare : List (List UInt8)}
    {inputs : List (IterOrder ChunkId × List UInt8)}
    (h : (inputs.map Prod.snd ++ spare).Perm (frags.map serializeFragment)) :
    ((new.startRetrieval key now).feed inputs).1.flatMap returned
      = if spare = [] then [resp] else [] := by
  have hrest : (spare.map fun body => (o, body)).map Prod.snd = spare := by
    rw [List.map_map]
    exact List.map_id _
  have hall : ((inputs ++ spare.map fun body => (o, body)).map
      Prod.snd).Perm (frags.map serializeFragment) := by
    rw [List.map_append, hrest]
    exact h
  have hfeed := feed_pieces hfrag hsize key now hall
  rw [feed_append] at hfeed
  by_cases hnil : spare = []
  · subst hnil
    simp only [List.map_nil, feed, List.append_nil] at hfeed
    rw [if_pos rfl, hfeed, List.flatMap_append]
    have hnone : (List.replicate (inputs.length - 1)
        (.ok none : FeedResult)).flatMap returned = [] := by
      rw [List.flatMap_eq_nil_iff]
      intro x hx
      rw [(List.mem_replicate.1 hx).2]
      rfl
    rw [hnone]
    rfl
  · rw [if_neg hnil, List.flatMap_eq_nil_iff]
    intro x hx
    have hlen := length_feed (new.startRetrieval key now) inputs
    obtain ⟨i, hi, hget⟩ := List.mem_iff_getElem.1 hx
    have hspare := List.length_pos_of_ne_nil hnil
    have hall := congrArg (fun l : List FeedResult => l[i]?) hfeed
    rw [List.getElem?_append_left hi, List.getElem?_eq_getElem hi, hget,
      List.getElem?_append_left (by
        rw [List.length_replicate, List.length_append, List.length_map]
        omega), List.getElem?_replicate, if_pos (by
        rw [List.length_append, List.length_map]
        omega)] at hall
    rw [Option.some.inj hall]
    rfl

end RetrievalManager

/-- Events that open at most one session: bodies, or bodies before and
after it. -/
theorem opened_once {events : List RetrievalEvent}
    (h : events.countP RetrievalEvent.isOpened ≤ 1) :
    (∃ inputs, events = List.map RetrievalEvent.fed inputs)
      ∨ ∃ before key now after, events
        = List.map RetrievalEvent.fed before
          ++ .opened key now :: List.map RetrievalEvent.fed after := by
  have hbodies : ∀ events : List RetrievalEvent,
      events.countP RetrievalEvent.isOpened = 0 →
      ∃ inputs, events = List.map RetrievalEvent.fed inputs := by
    intro events hzero
    induction events with
    | nil => exact ⟨[], rfl⟩
    | cons event events ih =>
        rw [List.countP_cons] at hzero
        obtain ⟨inputs, rfl⟩ := ih (by omega)
        cases event with
        | opened key now =>
            simp only [RetrievalEvent.isOpened, if_true] at hzero
            omega
        | body o bytes => exact ⟨(o, bytes) :: inputs, rfl⟩
  induction events with
  | nil => exact Or.inl ⟨[], rfl⟩
  | cons event events ih =>
      rw [List.countP_cons] at h
      cases event with
      | opened key now =>
          simp only [RetrievalEvent.isOpened, if_true] at h
          obtain ⟨after, rfl⟩ := hbodies events (by omega)
          exact Or.inr ⟨[], key, now, after, rfl⟩
      | body o bytes =>
          rcases ih (by omega) with ⟨inputs, rfl⟩
            | ⟨before, key, now, after, rfl⟩
          · exact Or.inl ⟨(o, bytes) :: inputs, rfl⟩
          · exact Or.inr ⟨(o, bytes) :: before, key, now, after, rfl⟩

theorem filterMap_fed (inputs : List (IterOrder ChunkId × List UInt8)) :
    (inputs.map RetrievalEvent.fed).filterMap RetrievalEvent.bytes?
      = inputs.map Prod.snd := by
  induction inputs with
  | nil => rfl
  | cons x inputs ih =>
      rw [List.map_cons, List.map_cons, ← ih]
      rfl

/-- With one session at most, a response whose bodies have arrived, all
but some, is returned if none is missing and the session was there before
them. -/
theorem take_once {frags : List Fragment} {resp : ChunkResponse}
    (hfrag : Fragmentation frags (serializeResponse resp))
    (hsize : resp.chunkData.length < 2 ^ 32)
    {events : List RetrievalEvent} (missing : List (List UInt8))
    (hopens : events.countP RetrievalEvent.isOpened ≤ 1)
    (h : (events.filterMap RetrievalEvent.bytes? ++ missing).Perm
      (frags.map serializeFragment)) :
    (RetrievalManager.new.take events).1
      = if missing = [] ∧ (events.head?).any RetrievalEvent.isOpened
        then [resp] else [] := by
  rcases opened_once hopens with ⟨inputs, rfl⟩
    | ⟨before, key, now, after, rfl⟩
  · rw [RetrievalManager.take_unopened rfl, if_neg]
    rintro ⟨-, hhead⟩
    cases inputs with
    | nil => cases hhead
    | cons x inputs => cases hhead
  · rw [RetrievalManager.take_append, RetrievalManager.take_unopened rfl,
      RetrievalManager.take, RetrievalManager.take_bodies, List.nil_append]
    have hspare : (after.map Prod.snd
        ++ (before.map Prod.snd ++ missing)).Perm
          (frags.map serializeFragment) := by
      refine List.Perm.trans ?_ h
      rw [List.filterMap_append, filterMap_fed, List.filterMap_cons,
        RetrievalEvent.bytes?, filterMap_fed, ← List.append_assoc]
      exact List.perm_append_comm.append_right _
    have hone := fun o => RetrievalManager.feed_some hfrag hsize key now o
      hspare
    cases before with
    | nil =>
        have hone := hone IterOrder.bytewise
        simp only [List.map_nil, List.nil_append] at hone ⊢
        rw [hone]
        simp only [List.head?_cons, Option.any_some,
          RetrievalEvent.isOpened, and_true]
    | cons x before =>
        rw [hone x.1, if_neg (by simp), if_neg]
        rintro ⟨-, hhead⟩
        cases hhead

end StaticNet
