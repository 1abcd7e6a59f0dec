/-
Does every message reach its handler, once?

# Where it breaks

Three of the dispatchers collect every fragment, so after each message
they are empty again, whatever its type. The maintenance dispatcher
collects only from the fragment with the type byte on: of a maintenance
message whose fragment 0 does not come first it never sees the earlier
fragments. The message is lost, and the session it leaves behind takes
fragments of later messages.

# The proof

`Gathered` and `Collected` say which fragments of the current message
each path has. A fragment adds its index (`Collected.offer`); the last
one empties every path that has seen them all, and the type byte decides
which of them calls a handler (`route_own`, `route_other`). So between
messages all paths are empty (`Idle`), and the messages can be taken one
at a time, up to the first that is not served.
-/
import StaticNet.Compute.Messages
import StaticNet.Node.Inbound

namespace StaticNet

-- ========== messages

/-- A fragment that arrives. -/
structure Parcel where
  arrival : Arrival
  fragment : Fragment

def Parcel.body (p : Parcel) : List UInt8 := serializeFragment p.fragment

/-- A message with its fragments in the order they arrive: `final` is
the last to. -/
structure Message where
  kind : BodyType
  content : List UInt8
  earlier : List Parcel
  final : Parcel
  fits : (kind.byte :: content).length
    ≤ MAX_FRAGMENTS_PER_MESSAGE * MAX_FRAGMENT_DATA
  whole : ((earlier ++ [final]).map Parcel.fragment).Perm
    (fragmentPayload (kind.byte :: content))

def Message.parcels (m : Message) : List Parcel := m.earlier ++ [m.final]

/-- The first to arrive. -/
def Message.first (m : Message) : Parcel := m.earlier.headD m.final

def Message.payload (m : Message) : List UInt8 := m.kind.byte :: m.content

def Message.frags (m : Message) : List Fragment := fragmentPayload m.payload

/-- Deliver packets one after the other: the handlers invoked and the
state after. -/
def inboundAll (P : Prims) (C : Codec) (mode : NodeMode) :
    List Parcel → Dispatcher → List Call × Dispatcher
  | [], d => ([], d)
  | p :: ps, d =>
      let r := handleInbound P C mode p.arrival p.body d
      let rest := inboundAll P C mode ps r.2
      (r.1 ++ rest.1, rest.2)

/-- A body does not find a partly filled reassembler expired. -/
structure Fresh (now : Nat) (d : Dispatcher) : Prop where
  maintenance : d.maintenance.totalExpected = none
    ∨ now - d.maintenance.createdAt < 300
  compute : d.compute.totalExpected = none
    ∨ now - d.compute.createdAt < 300
  verification : d.verification.totalExpected = none
    ∨ now - d.verification.createdAt < 300
  lifecycle : d.lifecycle.totalExpected = none
    ∨ now - d.lifecycle.createdAt < 300

/-- All within the timeout: no session expires between two fragments. -/
def InTime (P : Prims) (C : Codec) (mode : NodeMode) :
    List Parcel → Dispatcher → Prop
  | [], _ => True
  | p :: ps, d => Fresh p.arrival.now d
      ∧ InTime P C mode ps (handleInbound P C mode p.arrival p.body d).2

/-- A reassembler that has nothing. -/
def Reassembler.Empty (r : Reassembler) : Prop :=
  r.totalExpected = none ∧ r.fragments = ∅

/-- No pending retrieval and nothing collected. -/
structure Idle (d : Dispatcher) : Prop where
  retriever : d.retriever.pending = ∅
  maintenance : d.maintenance.Empty
  compute : d.compute.Empty
  verification : d.verification.Empty
  lifecycle : d.lifecycle.Empty

variable {P : Prims} {C : Codec} {mode : NodeMode} {m : Message}
  {d : Dispatcher} {r : Reassembler} {f : Fragment} {ids : Finset Nat}
  {a : Arrival}

theorem inboundAll_append (ps qs : List Parcel) (d : Dispatcher) :
    inboundAll P C mode (ps ++ qs) d
      = ((inboundAll P C mode ps d).1
          ++ (inboundAll P C mode qs (inboundAll P C mode ps d).2).1,
        (inboundAll P C mode qs (inboundAll P C mode ps d).2).2) := by
  induction ps generalizing d with
  | nil => rfl
  | cons p ps ih =>
      show ((handleInbound P C mode p.arrival p.body d).1
        ++ (inboundAll P C mode (ps ++ qs) _).1,
          (inboundAll P C mode (ps ++ qs) _).2) = _
      rw [ih, ← List.append_assoc]
      rfl

theorem inTime_append {ps qs : List Parcel} {d : Dispatcher} :
    InTime P C mode (ps ++ qs) d ↔ InTime P C mode ps d
      ∧ InTime P C mode qs (inboundAll P C mode ps d).2 := by
  induction ps generalizing d with
  | nil => exact (true_and _).symm.to_iff
  | cons p ps ih =>
      show _ ∧ InTime P C mode (ps ++ qs) _ ↔ (_ ∧ _) ∧ _
      rw [ih, and_assoc]
      rfl

-- ======== collecting

theorem Message.fragmentation (m : Message) :
    Fragmentation m.frags m.payload :=
  fragmentPayload_fragmentation m.fits

theorem collected_empty_iff {frags : List Fragment} :
    Collected frags ∅ r ↔ r.Empty := by
  constructor
  · intro h
    refine ⟨h.total, FMap.ext_get fun i => ?_⟩
    rw [h.held]
    rfl
  · rintro ⟨htotal, hfrags⟩
    refine ⟨htotal, fun i => ?_, fun _ hi => absurd hi
      (Finset.notMem_empty _)⟩
    rw [hfrags]
    rfl

/-- The timeout only empties what is empty. -/
theorem Collected.cleanup {frags : List Fragment} {now : Nat}
    (h : Collected frags ids r)
    (hfresh : r.totalExpected = none ∨ now - r.createdAt < 300) :
    Collected frags ids (r.cleanupExpired now 300) := by
  unfold Reassembler.cleanupExpired Reassembler.isExpired
  split
  next hexp =>
    rw [decide_eq_true_eq] at hexp
    have hnone : r.totalExpected = none := by
      rcases hfresh with hnone | hlt
      · exact hnone
      · omega
    have hids : ids = ∅ := by
      by_contra hne
      rw [h.total, if_neg hne] at hnone
      cases hnone
    rw [hids]
    exact .new frags now
  next => exact h

/-- A missing fragment is taken; the last one completes the message. -/
theorem Collected.offer {frags : List Fragment} {payload : List UInt8}
    {now : Nat} (h : Collected frags ids r)
    (hfrag : Fragmentation frags payload) (hf : f ∈ frags)
    (hnew : f.fragmentId ∉ ids)
    (hfresh : r.totalExpected = none ∨ now - r.createdAt < 300) :
    (insert f.fragmentId ids = Finset.range frags.length →
        r.offer now f = (some payload, .new now))
      ∧ (insert f.fragmentId ids ≠ Finset.range frags.length →
        (r.offer now f).1 = none
          ∧ Collected frags (insert f.fragmentId ids)
            (r.offer now f).2) := by
  obtain ⟨-, r', hadd, hcol⟩ := (h.cleanup hfresh).add hfrag hf hnew
  have hiff := hcol.isComplete_iff hfrag.pos
  unfold Reassembler.offer
  rw [hadd]
  constructor
  · intro hfull
    have hcomplete := hiff.2 hfull
    rw [hfull] at hcol
    simp only [Bool.not_true, Bool.false_eq_true, if_false, hcomplete,
      hcol.reassemble hfrag]
  · intro hpart
    have hcomplete : r'.isComplete = false := by
      rw [Bool.eq_false_iff]
      exact fun hc => hpart (hiff.1 hc)
    simp only [Bool.not_true, Bool.false_eq_true, if_false, hcomplete,
      Bool.not_false, if_true]
    exact ⟨trivial, hcol⟩

-- =========== routing

/-- The call a message asks for, when its last fragment arrives so. -/
def Message.callAt (m : Message) (a : Arrival) : Call :=
  .handler m.kind m.payload (m.kind.dispatch.sender a)

/-- What becomes of a complete message in its own dispatcher. -/
def Message.served (P : Prims) (C : Codec) (a : Arrival) (m : Message) :
    List Call :=
  if C.accepts P a.now m.kind m.payload then [m.callAt a] else []

theorem find_type (x : Dispatch) (t : BodyType) (content : List UInt8) :
    (x.types.find? fun t' => (t.byte :: content).head? == some t'.byte)
      = if x = t.dispatch then some t else none := by
  cases x <;> cases t <;> rfl

theorem route_own (m : Message) (a : Arrival) :
    routePayload P C a m.kind.dispatch m.payload = m.served P C a := by
  unfold routePayload Message.payload
  rw [find_type, if_pos rfl]
  rfl

theorem route_other {x : Dispatch} (h : x ≠ m.kind.dispatch) :
    routePayload P C a x m.payload = [] := by
  unfold routePayload Message.payload
  rw [find_type, if_neg h]

-- ==== the collecting dispatchers

/-- What the three that collect everything have of a message. -/
structure Gathered (m : Message) (ids : Finset Nat) (d : Dispatcher) :
    Prop where
  retriever : d.retriever.pending = ∅
  compute : Collected m.frags ids d.compute
  verification : Collected m.frags ids d.verification
  lifecycle : Collected m.frags ids d.lifecycle

theorem Message.parses (m : Message) (hf : f ∈ m.frags) :
    deserializeFragment (serializeFragment f) = .ok f :=
  deserializeFragment_serialize (m.fragmentation.valid hf)

/-- Without a pending retrieval the retriever ignores a body. -/
theorem handleResponseBody_idle {manager : RetrievalManager}
    (h : manager.pending = ∅) (body : List UInt8) :
    handleResponseBody a body manager = ([], manager) := by
  have hnone : ∀ f : Fragment, a.order.find manager.pending
      (fun _ p => p.reassembler.canAccept f) = none := by
    intro f
    rw [h]
    cases hfind : a.order.find (∅ : FMap ChunkId PendingRetrieval)
        (fun _ p => p.reassembler.canAccept f) with
    | none => rfl
    | some e => exact absurd (IterOrder.find_some hfind).1 nofun
  unfold handleResponseBody RetrievalManager.processFragment
  cases deserializeFragment body with
  | error e => rfl
  | ok f =>
      dsimp only
      by_cases hbad : f.totalFragments = 0
          ∨ MAX_FRAGMENTS_PER_MESSAGE < f.totalFragments
          ∨ f.totalFragments ≤ f.fragmentId
      · rw [if_pos hbad]
      · rw [if_neg hbad, hnone f]

/-- A collecting dispatcher takes the fragment, and empties itself with
the last one. -/
theorem handleFragment_collected (x : Dispatch)
    (h : Collected m.frags ids r) (hf : f ∈ m.frags)
    (hnew : f.fragmentId ∉ ids)
    (hfresh : r.totalExpected = none ∨ a.now - r.createdAt < 300) :
    (insert f.fragmentId ids = Finset.range m.frags.length →
        handleFragment P C a x (serializeFragment f) r
          = (routePayload P C a x m.payload, .new a.now))
      ∧ (insert f.fragmentId ids ≠ Finset.range m.frags.length →
        (handleFragment P C a x (serializeFragment f) r).1 = []
          ∧ Collected m.frags (insert f.fragmentId ids)
            (handleFragment P C a x (serializeFragment f) r).2) := by
  obtain ⟨hlast, hnext⟩ := h.offer m.fragmentation hf hnew hfresh
  unfold handleFragment handleClaimed
  rw [m.parses hf]
  constructor
  · intro hfull
    dsimp only
    rw [hlast hfull]
  · intro hpart
    obtain ⟨hnone, hcol⟩ := hnext hpart
    dsimp only
    rw [hnone]
    exact ⟨rfl, hcol⟩

theorem empty_new (now : Nat) : (Reassembler.new now).Empty := ⟨rfl, rfl⟩

/-- The maintenance dispatcher's part of a call. -/
def maintenanceOf (P : Prims) (C : Codec) (p : Parcel) (d : Dispatcher) :
    List Call × Reassembler :=
  handleMaintenanceFragment P C p.arrival p.body d.maintenance

/-- A fragment that is not the last: the three take it, and only the
maintenance dispatcher may call a handler. -/
theorem Gathered.next {p : Parcel} (h : Gathered m ids d)
    (hmode : mode ≠ .backupOnly) (hfresh : Fresh p.arrival.now d)
    (hf : p.fragment ∈ m.frags) (hnew : p.fragment.fragmentId ∉ ids)
    (hpart : insert p.fragment.fragmentId ids
      ≠ Finset.range m.frags.length) :
    (handleInbound P C mode p.arrival p.body d).1
        = (maintenanceOf P C p d).1
      ∧ (handleInbound P C mode p.arrival p.body d).2.maintenance
        = (maintenanceOf P C p d).2
      ∧ Gathered m (insert p.fragment.fragmentId ids)
          (handleInbound P C mode p.arrival p.body d).2 := by
  obtain ⟨hcompute, hcompute'⟩ := (handleFragment_collected (P := P)
    (C := C) .compute h.compute hf hnew hfresh.compute).2 hpart
  obtain ⟨hverif, hverif'⟩ := (handleFragment_collected (P := P)
    (C := C) .verification h.verification hf hnew
    hfresh.verification).2 hpart
  obtain ⟨hlife, hlife'⟩ := (handleFragment_collected (P := P)
    (C := C) .lifecycle h.lifecycle hf hnew hfresh.lifecycle).2 hpart
  unfold handleInbound handleComputeFragment handleVerificationFragment
    handleLifecycleFragment Parcel.body
  rw [if_neg hmode, handleResponseBody_idle h.retriever]
  dsimp only
  rw [hcompute, hverif, hlife, List.append_nil, List.append_nil,
    List.append_nil]
  exact ⟨rfl, rfl, ⟨h.retriever, hcompute', hverif', hlife'⟩⟩

/-- The last one: the three are empty again, and the one the message is
for calls its handler. -/
theorem Gathered.last {p : Parcel} (h : Gathered m ids d)
    (hmode : mode ≠ .backupOnly) (hfresh : Fresh p.arrival.now d)
    (hf : p.fragment ∈ m.frags) (hnew : p.fragment.fragmentId ∉ ids)
    (hfull : insert p.fragment.fragmentId ids
      = Finset.range m.frags.length) :
    (handleInbound P C mode p.arrival p.body d).1
        = (maintenanceOf P C p d).1
          ++ (if m.kind.dispatch = .maintenance then []
            else m.served P C p.arrival)
      ∧ (handleInbound P C mode p.arrival p.body d).2.maintenance
        = (maintenanceOf P C p d).2
      ∧ Gathered m ∅ (handleInbound P C mode p.arrival p.body d).2 := by
  have hcompute := (handleFragment_collected (P := P) (C := C) .compute
    h.compute hf hnew hfresh.compute).1 hfull
  have hverif := (handleFragment_collected (P := P) (C := C) .verification
    h.verification hf hnew hfresh.verification).1 hfull
  have hlife := (handleFragment_collected (P := P) (C := C) .lifecycle
    h.lifecycle hf hnew hfresh.lifecycle).1 hfull
  have hroute : routePayload P C p.arrival .compute m.payload
        ++ routePayload P C p.arrival .verification m.payload
        ++ routePayload P C p.arrival .lifecycle m.payload
      = if m.kind.dispatch = .maintenance then []
        else m.served P C p.arrival := by
    rw [← route_own]
    cases hk : m.kind.dispatch with
    | maintenance =>
        rw [if_pos rfl, route_other (by rw [hk]; exact nofun),
          route_other (by rw [hk]; exact nofun),
          route_other (by rw [hk]; exact nofun)]
        rfl
    | compute =>
        rw [route_other (x := .verification) (by rw [hk]; exact nofun),
          route_other (x := .lifecycle) (by rw [hk]; exact nofun)]
        simp
    | verification =>
        rw [route_other (x := .compute) (by rw [hk]; exact nofun),
          route_other (x := .lifecycle) (by rw [hk]; exact nofun)]
        simp
    | lifecycle =>
        rw [route_other (x := .compute) (by rw [hk]; exact nofun),
          route_other (x := .verification) (by rw [hk]; exact nofun)]
        simp
  unfold handleInbound handleComputeFragment handleVerificationFragment
    handleLifecycleFragment Parcel.body
  rw [if_neg hmode, handleResponseBody_idle h.retriever]
  dsimp only
  rw [hcompute, hverif, hlife, ← hroute, List.nil_append,
    List.append_assoc, List.append_assoc, List.append_assoc]
  exact ⟨rfl, rfl, ⟨h.retriever, .new _ _, .new _ _, .new _ _⟩⟩

-- ==== the maintenance dispatcher

/-- The first fragment begins with the type byte. -/
theorem Message.head_data (m : Message) (hf : f ∈ m.frags)
    (hid : f.fragmentId = 0) : f.data.head? = some m.kind.byte := by
  unfold Message.frags fragmentPayload at hf
  obtain ⟨i, -, rfl⟩ := List.mem_map.1 hf
  have hi : i = 0 := hid
  subst hi
  rfl

theorem Message.starts (m : Message) (hf : f ∈ m.frags)
    (hid : f.fragmentId = 0) (hk : m.kind.dispatch = .maintenance) :
    startsMaintenance f = true := by
  unfold startsMaintenance
  rw [m.head_data hf hid, hid]
  cases hkind : m.kind <;> rw [hkind] at hk <;> first | rfl | cases hk

theorem Message.not_starts (m : Message) (hf : f ∈ m.frags)
    (h : f.fragmentId ≠ 0 ∨ m.kind.dispatch ≠ .maintenance) :
    startsMaintenance f = false := by
  unfold startsMaintenance
  by_cases hid : f.fragmentId = 0
  · rw [m.head_data hf hid]
    have hk := h.resolve_left (not_not.2 hid)
    cases hkind : m.kind <;> rw [hkind] at hk <;>
      first | exact absurd rfl hk | (rw [hid]; rfl)
  · rw [beq_eq_false_iff_ne.2 hid]
    rfl

/-- What does not start a message is left alone by an empty
reassembler. -/
theorem maintenance_skips {p : Parcel} (h : d.maintenance.Empty)
    (hf : p.fragment ∈ m.frags)
    (hstart : startsMaintenance p.fragment = false) :
    maintenanceOf P C p d = ([], d.maintenance) := by
  unfold maintenanceOf handleMaintenanceFragment Parcel.body
  rw [m.parses hf]
  unfold continuesMaintenance
  dsimp only
  rw [hstart, h.1]
  rfl

/-- What starts a message, or is missing of one that is in progress, is
claimed. -/
theorem maintenance_claims {p : Parcel} {claimed : Finset Nat}
    (h : Collected m.frags claimed d.maintenance)
    (hf : p.fragment ∈ m.frags)
    (hnew : p.fragment.fragmentId ∉ claimed)
    (hclaim : startsMaintenance p.fragment = true ∨ claimed ≠ ∅)
    (hfresh : Fresh p.arrival.now d) :
    (insert p.fragment.fragmentId claimed = Finset.range m.frags.length →
        maintenanceOf P C p d
          = (routePayload P C p.arrival .maintenance m.payload,
            .new p.arrival.now))
      ∧ (insert p.fragment.fragmentId claimed
          ≠ Finset.range m.frags.length →
        (maintenanceOf P C p d).1 = []
          ∧ Collected m.frags (insert p.fragment.fragmentId claimed)
            (maintenanceOf P C p d).2) := by
  have hgate : (!startsMaintenance p.fragment
      && !continuesMaintenance d.maintenance p.fragment) = false := by
    rcases hclaim with hstart | hne
    · rw [hstart]
      rfl
    · have haccept := (h.add m.fragmentation hf hnew).1
      unfold continuesMaintenance
      rw [haccept, h.total, if_neg hne]
      simp
  have hsame : maintenanceOf P C p d
      = handleFragment P C p.arrival .maintenance p.body d.maintenance := by
    unfold maintenanceOf handleMaintenanceFragment handleFragment
      Parcel.body
    rw [m.parses hf]
    dsimp only
    rw [hgate]
    rfl
  rw [hsame]
  exact handleFragment_collected .maintenance h hf hnew hfresh.maintenance

-- ======= one message

/-- What is still to come of a message: all but the indices in `ids`. -/
structure ToCome (m : Message) (ids : Finset Nat) (ps : List Parcel) :
    Prop where
  piece : ∀ p ∈ ps ++ [m.final], p.fragment ∈ m.frags
  missing : ∀ p ∈ ps ++ [m.final], p.fragment.fragmentId ∉ ids
  once : ((ps ++ [m.final]).map fun p => p.fragment.fragmentId).Nodup
  rest : ∀ i < m.frags.length, i ∉ ids →
    ∃ p ∈ ps ++ [m.final], p.fragment.fragmentId = i

theorem Message.fragmentIds (m : Message) :
    m.frags.map Fragment.fragmentId = List.range m.frags.length := by
  unfold Message.frags fragmentPayload
  rw [List.map_map, List.length_map, List.length_range]
  exact List.map_id _

theorem Message.toCome (m : Message) : ToCome m ∅ m.earlier := by
  have hperm := m.whole.map Fragment.fragmentId
  rw [List.map_map] at hperm
  have hids : ((m.earlier ++ [m.final]).map
      fun p => p.fragment.fragmentId).Perm (List.range m.frags.length) := by
    rw [← m.fragmentIds]
    exact hperm
  refine ⟨?_, fun _ _ => Finset.notMem_empty _, ?_, ?_⟩
  · intro p hp
    exact m.whole.subset (List.mem_map_of_mem hp)
  · exact hids.nodup_iff.2 List.nodup_range
  · intro i hi _
    exact List.mem_map.1 (hids.mem_iff.2 (List.mem_range.2 hi))

section ToCome

variable {p : Parcel} {ps : List Parcel}

theorem ToCome.step (h : ToCome m ids (p :: ps)) :
    ToCome m (insert p.fragment.fragmentId ids) ps := by
  obtain ⟨hpiece, hmissing, honce, hrest⟩ := h
  rw [List.cons_append, List.map_cons, List.nodup_cons] at honce
  refine ⟨fun q hq => hpiece q (List.mem_cons_of_mem _ hq), ?_, honce.2,
    ?_⟩
  · intro q hq hmem
    rcases Finset.mem_insert.1 hmem with heq | hmem
    · exact honce.1 (List.mem_map.2 ⟨q, hq, heq⟩)
    · exact hmissing q (List.mem_cons_of_mem _ hq) hmem
  · intro i hi hout
    rw [Finset.mem_insert, not_or] at hout
    obtain ⟨q, hq, hid⟩ := hrest i hi hout.2
    rcases List.mem_cons.1 hq with rfl | hq
    · exact absurd hid.symm hout.1
    · exact ⟨q, hq, hid⟩

/-- Before the final one a fragment is missing. -/
theorem ToCome.not_full (h : ToCome m ids (p :: ps)) :
    insert p.fragment.fragmentId ids ≠ Finset.range m.frags.length := by
  have hfinal := h.step.missing m.final (by simp)
  have hpiece := h.step.piece m.final (by simp)
  intro heq
  apply hfinal
  rw [heq, Finset.mem_range]
  obtain ⟨i, hi, hget⟩ := List.mem_iff_getElem.1 hpiece
  rw [(m.fragmentation.piece i _ (by
    rw [List.getElem?_eq_getElem hi, hget])).1]
  exact hi

/-- The final one is the last that is missing. -/
theorem ToCome.full (h : ToCome m ids [])
    (hbound : ∀ i ∈ ids, i < m.frags.length) :
    insert m.final.fragment.fragmentId ids
      = Finset.range m.frags.length := by
  ext i
  rw [Finset.mem_insert, Finset.mem_range]
  constructor
  · rintro (rfl | hi)
    · obtain ⟨j, hj, hget⟩ :=
        List.mem_iff_getElem.1 (h.piece m.final (by simp))
      rw [(m.fragmentation.piece j _ (by
        rw [List.getElem?_eq_getElem hj, hget])).1]
      exact hj
    · exact hbound i hi
  · intro hi
    by_cases hin : i ∈ ids
    · exact .inr hin
    · obtain ⟨q, hq, hid⟩ := h.rest i hi hin
      obtain rfl : q = m.final := by simpa using hq
      exact .inl hid.symm

end ToCome

/-- A run of fragments before the final one calls no handler, if each
keeps an invariant and calls none. -/
theorem inboundAll_quiet {J : Finset Nat → Dispatcher → Prop}
    (hstep : ∀ ids d (p : Parcel), J ids d → Fresh p.arrival.now d →
      p.fragment ∈ m.frags → p.fragment.fragmentId ∉ ids →
      insert p.fragment.fragmentId ids ≠ Finset.range m.frags.length →
        (handleInbound P C mode p.arrival p.body d).1 = []
          ∧ J (insert p.fragment.fragmentId ids)
            (handleInbound P C mode p.arrival p.body d).2)
    {ps : List Parcel} {ids : Finset Nat} {d : Dispatcher} (hJ : J ids d)
    (hcome : ToCome m ids ps) (htime : InTime P C mode ps d) :
    (inboundAll P C mode ps d).1 = []
      ∧ ∃ ids', J ids' (inboundAll P C mode ps d).2 ∧ ToCome m ids' [] := by
  induction ps generalizing ids d with
  | nil => exact ⟨rfl, ids, hJ, hcome⟩
  | cons p ps ih =>
      obtain ⟨hfresh, htime⟩ := htime
      obtain ⟨hcalls, hJ'⟩ := hstep ids d p hJ hfresh
        (hcome.piece p (by simp)) (hcome.missing p (by simp))
        hcome.not_full
      obtain ⟨hrest, ids', hJ'', hcome'⟩ := ih hJ' hcome.step htime
      refine ⟨?_, ids', hJ'', hcome'⟩
      show (handleInbound P C mode p.arrival p.body d).1
        ++ (inboundAll P C mode ps _).1 = []
      rw [hcalls, hrest]
      rfl

theorem idle_of_gathered (h : Gathered m ∅ d) (hm : d.maintenance.Empty) :
    Idle d :=
  ⟨h.retriever, hm, collected_empty_iff.1 h.compute,
    collected_empty_iff.1 h.verification, collected_empty_iff.1 h.lifecycle⟩

theorem Idle.gathered (h : Idle d) (m : Message) : Gathered m ∅ d :=
  ⟨h.retriever, collected_empty_iff.2 h.compute,
    collected_empty_iff.2 h.verification, collected_empty_iff.2 h.lifecycle⟩

/-- The run of a message is that of its earlier fragments and then the
final one. -/
theorem inboundAll_parcels (m : Message) (d : Dispatcher) :
    inboundAll P C mode m.parcels d
      = ((inboundAll P C mode m.earlier d).1
          ++ (handleInbound P C mode m.final.arrival m.final.body
            (inboundAll P C mode m.earlier d).2).1,
        (handleInbound P C mode m.final.arrival m.final.body
          (inboundAll P C mode m.earlier d).2).2) := by
  unfold Message.parcels
  rw [inboundAll_append]
  show (_ ++ (_ ++ []), _) = _
  rw [List.append_nil]
  rfl

theorem inTime_parcels (h : InTime P C mode m.parcels d) :
    InTime P C mode m.earlier d
      ∧ Fresh m.final.arrival.now (inboundAll P C mode m.earlier d).2 := by
  obtain ⟨hearlier, hfinal⟩ := inTime_append.1 h
  exact ⟨hearlier, hfinal.1⟩

/-- A message of another dispatcher passes the maintenance dispatcher
by. -/
theorem served_foreign (hmode : mode ≠ .backupOnly)
    (hk : m.kind.dispatch ≠ .maintenance) (hd : Idle d)
    (htime : InTime P C mode m.parcels d) :
    (inboundAll P C mode m.parcels d).1 = m.served P C m.final.arrival
      ∧ Idle (inboundAll P C mode m.parcels d).2 := by
  obtain ⟨hearlier, hfresh⟩ := inTime_parcels htime
  obtain ⟨hquiet, ids, ⟨hgathered, hempty⟩, hcome⟩ := inboundAll_quiet
    (J := fun ids d => Gathered m ids d ∧ d.maintenance.Empty) (by
      intro ids d p ⟨hg, he⟩ hfresh hf hnew hpart
      obtain ⟨hcalls, hm, hg'⟩ := hg.next (P := P) (C := C) hmode hfresh hf
        hnew hpart
      have hskip := maintenance_skips (P := P) (C := C) he hf
        (m.not_starts hf (.inr hk))
      rw [hskip] at hcalls hm
      exact ⟨hcalls, hg', by rw [hm]; exact he⟩)
    ⟨hd.gathered m, hd.maintenance⟩ m.toCome hearlier
  have hf := hcome.piece m.final (by simp)
  obtain ⟨hcalls, hm, hg'⟩ := hgathered.last (P := P) (C := C) hmode hfresh
    hf (hcome.missing m.final (by simp))
    (hcome.full hgathered.compute.bound)
  have hskip := maintenance_skips (P := P) (C := C) hempty hf
    (m.not_starts hf (.inr hk))
  rw [hskip] at hcalls hm
  rw [inboundAll_parcels, hquiet, hcalls, if_neg hk]
  exact ⟨rfl, idle_of_gathered hg' (by rw [hm]; exact hempty)⟩

section Maintenance

variable {p : Parcel}

/-- The maintenance dispatcher keeps up with the others. -/
theorem own_next (hmode : mode ≠ .backupOnly)
    (h : Gathered m ids d) (hm : Collected m.frags ids d.maintenance)
    (hfresh : Fresh p.arrival.now d) (hf : p.fragment ∈ m.frags)
    (hnew : p.fragment.fragmentId ∉ ids)
    (hclaim : startsMaintenance p.fragment = true ∨ ids ≠ ∅)
    (hpart : insert p.fragment.fragmentId ids
      ≠ Finset.range m.frags.length) :
    (handleInbound P C mode p.arrival p.body d).1 = []
      ∧ Gathered m (insert p.fragment.fragmentId ids)
          (handleInbound P C mode p.arrival p.body d).2
      ∧ Collected m.frags (insert p.fragment.fragmentId ids)
          (handleInbound P C mode p.arrival p.body d).2.maintenance := by
  obtain ⟨hcalls, hsame, hg'⟩ := h.next (P := P) (C := C) hmode hfresh hf
    hnew hpart
  obtain ⟨hnone, hcol⟩ := (maintenance_claims (P := P) (C := C) hm hf hnew
    hclaim hfresh).2 hpart
  rw [hsame]
  exact ⟨hcalls.trans hnone, hg', hcol⟩

theorem own_last (hmode : mode ≠ .backupOnly)
    (hk : m.kind.dispatch = .maintenance)
    (h : Gathered m ids d) (hm : Collected m.frags ids d.maintenance)
    (hfresh : Fresh p.arrival.now d) (hf : p.fragment ∈ m.frags)
    (hnew : p.fragment.fragmentId ∉ ids)
    (hclaim : startsMaintenance p.fragment = true ∨ ids ≠ ∅)
    (hfull : insert p.fragment.fragmentId ids
      = Finset.range m.frags.length) :
    (handleInbound P C mode p.arrival p.body d).1 = m.served P C p.arrival
      ∧ Idle (handleInbound P C mode p.arrival p.body d).2 := by
  obtain ⟨hcalls, hsame, hg'⟩ := h.last (P := P) (C := C) hmode hfresh hf
    hnew hfull
  have hdone := (maintenance_claims (P := P) (C := C) hm hf hnew hclaim
    hfresh).1 hfull
  rw [hdone, if_pos hk, ← hk, route_own, List.append_nil] at hcalls
  rw [hdone] at hsame
  exact ⟨hcalls, idle_of_gathered hg' (by rw [hsame]; exact empty_new _)⟩

end Maintenance

/-- A maintenance message whose fragment 0 comes first is collected from
the start. -/
theorem served_maintenance (hmode : mode ≠ .backupOnly)
    (hk : m.kind.dispatch = .maintenance)
    (hfirst : m.first.fragment.fragmentId = 0) (hd : Idle d)
    (htime : InTime P C mode m.parcels d) :
    (inboundAll P C mode m.parcels d).1 = m.served P C m.final.arrival
      ∧ Idle (inboundAll P C mode m.parcels d).2 := by
  obtain ⟨hearlier, hfresh⟩ := inTime_parcels htime
  have hempty : Collected m.frags ∅ d.maintenance :=
    collected_empty_iff.2 hd.maintenance
  have hcome := m.toCome
  rw [inboundAll_parcels]
  unfold Message.first at hfirst
  cases hparcels : m.earlier with
  | nil =>
      rw [hparcels] at hfirst hcome hfresh
      have hf := hcome.piece m.final (by simp)
      exact own_last hmode hk (hd.gathered m) hempty hfresh hf
        (hcome.missing m.final (by simp)) (.inl (m.starts hf hfirst hk))
        (hcome.full (hd.gathered m).compute.bound)
  | cons p ps =>
      rw [hparcels] at hfirst hcome hearlier hfresh
      have hf := hcome.piece p (by simp)
      obtain ⟨hcalls, hg, hm⟩ := own_next (P := P) (C := C) hmode
        (hd.gathered m) hempty hearlier.1 hf (hcome.missing p (by simp))
        (.inl (m.starts hf hfirst hk)) hcome.not_full
      obtain ⟨hquiet, ids, ⟨hg', hm', hne⟩, hcome'⟩ := inboundAll_quiet
        (J := fun ids d => Gathered m ids d
          ∧ Collected m.frags ids d.maintenance ∧ ids ≠ ∅) (by
            intro ids d p ⟨hg, hm, hne⟩ hfresh hf hnew hpart
            obtain ⟨hcalls, hg', hm'⟩ := own_next (P := P) (C := C) hmode
              hg hm hfresh hf hnew (.inr hne) hpart
            exact ⟨hcalls, hg', hm', Finset.insert_ne_empty _ _⟩)
        ⟨hg, hm, Finset.insert_ne_empty _ _⟩ hcome.step hearlier.2
      obtain ⟨hlast, hidle⟩ := own_last (P := P) (C := C) hmode hk hg' hm'
        hfresh (hcome'.piece m.final (by simp))
        (hcome'.missing m.final (by simp)) (.inr hne)
        (hcome'.full hg'.compute.bound)
      refine ⟨?_, hidle⟩
      show ((handleInbound P C mode p.arrival p.body d).1
        ++ (inboundAll P C mode ps _).1) ++ _ = _
      rw [hcalls, hquiet]
      exact hlast

/-- The maintenance dispatcher has missed the fragment with index `i`. -/
structure Missed (m : Message) (i : Nat) (ids : Finset Nat)
    (d : Dispatcher) : Prop where
  gathered : Gathered m ids d
  seen : i ∈ ids
  claimed : ∃ claimed ⊆ ids, i ∉ claimed
    ∧ Collected m.frags claimed d.maintenance

/-- Without it the message is not complete, whatever it claims next. -/
theorem Missed.maintenance {i : Nat} {p : Parcel} (h : Missed m i ids d)
    (hi : i < m.frags.length) (hfresh : Fresh p.arrival.now d)
    (hf : p.fragment ∈ m.frags) (hnew : p.fragment.fragmentId ∉ ids) :
    (maintenanceOf P C p d).1 = []
      ∧ ∃ claimed ⊆ insert p.fragment.fragmentId ids, i ∉ claimed
        ∧ Collected m.frags claimed (maintenanceOf P C p d).2 := by
  obtain ⟨claimed, hsub, hout, hcol⟩ := h.claimed
  have hne : p.fragment.fragmentId ≠ i := by
    intro heq
    rw [heq] at hnew
    exact hnew h.seen
  by_cases hclaim : startsMaintenance p.fragment = true ∨ claimed ≠ ∅
  · have hmiss : i ∉ insert p.fragment.fragmentId claimed := by
      rw [Finset.mem_insert, not_or]
      exact ⟨hne.symm, hout⟩
    have hpart : insert p.fragment.fragmentId claimed
        ≠ Finset.range m.frags.length := by
      intro heq
      rw [heq] at hmiss
      exact hmiss (Finset.mem_range.2 hi)
    obtain ⟨hnone, hcol'⟩ := (maintenance_claims (P := P) (C := C) hcol hf
      (fun hmem => hnew (hsub hmem)) hclaim hfresh).2 hpart
    exact ⟨hnone, _, Finset.insert_subset_insert _ hsub, hmiss, hcol'⟩
  · rw [not_or, not_not] at hclaim
    obtain ⟨hstart, hempty⟩ := hclaim
    rw [hempty] at hcol
    have hskip := maintenance_skips (P := P) (C := C)
      (collected_empty_iff.1 hcol) hf (Bool.eq_false_iff.2 hstart)
    rw [hskip]
    exact ⟨rfl, ∅, Finset.empty_subset _, Finset.notMem_empty _, hcol⟩

/-- A maintenance message whose fragment 0 does not come first reaches no
handler. -/
theorem late_start_lost (hmode : mode ≠ .backupOnly)
    (hk : m.kind.dispatch = .maintenance)
    (hfirst : m.first.fragment.fragmentId ≠ 0) (hd : Idle d)
    (htime : InTime P C mode m.parcels d) :
    (inboundAll P C mode m.parcels d).1 = [] := by
  obtain ⟨hearlier, hfresh⟩ := inTime_parcels htime
  have hcome := m.toCome
  rw [inboundAll_parcels]
  unfold Message.first at hfirst
  cases hparcels : m.earlier with
  | nil =>
      -- a single fragment is fragment 0
      rw [hparcels] at hfirst hcome
      have hfull := hcome.full (hd.gathered m).compute.bound
      have hzero : 0 ∈ Finset.range m.frags.length :=
        Finset.mem_range.2 m.fragmentation.pos
      rw [← hfull, Finset.mem_insert] at hzero
      rcases hzero with hzero | hzero
      · exact absurd hzero.symm hfirst
      · exact absurd hzero (Finset.notMem_empty _)
  | cons p ps =>
      rw [hparcels] at hfirst hcome hearlier hfresh
      have hf := hcome.piece p (by simp)
      obtain ⟨hcalls, hsame, hg⟩ := (hd.gathered m).next (P := P) (C := C)
        hmode hearlier.1 hf (hcome.missing p (by simp)) hcome.not_full
      have hskip := maintenance_skips (P := P) (C := C) hd.maintenance hf
        (m.not_starts hf (.inl hfirst))
      rw [hskip] at hcalls hsame
      have hi : p.fragment.fragmentId < m.frags.length :=
        hg.compute.bound _ (Finset.mem_insert_self _ _)
      have hmissed : Missed m p.fragment.fragmentId
          (insert p.fragment.fragmentId ∅)
          (handleInbound P C mode p.arrival p.body d).2 := by
        refine ⟨hg, Finset.mem_insert_self _ _, ∅, Finset.empty_subset _,
          Finset.notMem_empty _, ?_⟩
        rw [hsame]
        exact collected_empty_iff.2 hd.maintenance
      obtain ⟨hquiet, ids, hmissed', hcome'⟩ := inboundAll_quiet
        (J := Missed m p.fragment.fragmentId) (by
          intro ids d q hmissed hfresh hf hnew hpart
          obtain ⟨hcalls, hsame, hg⟩ := hmissed.gathered.next (P := P)
            (C := C) hmode hfresh hf hnew hpart
          obtain ⟨hnone, hclaimed⟩ := hmissed.maintenance (P := P) (C := C)
            hi hfresh hf hnew
          refine ⟨hcalls.trans hnone, hg, ?_, ?_⟩
          · exact Finset.mem_insert_of_mem hmissed.seen
          · rw [hsame]
            exact hclaimed)
        hmissed hcome.step hearlier.2
      have hf' := hcome'.piece m.final (by simp)
      have hnew' := hcome'.missing m.final (by simp)
      obtain ⟨hcalls', -, -⟩ := hmissed'.gathered.last (P := P) (C := C)
        hmode hfresh hf' hnew' (hcome'.full hmissed'.gathered.compute.bound)
      rw [(hmissed'.maintenance (P := P) (C := C) hi hfresh hf' hnew').1,
        if_pos hk] at hcalls'
      show ((handleInbound P C mode p.arrival p.body d).1
        ++ (inboundAll P C mode ps _).1) ++ _ = _
      rw [hcalls, hquiet]
      exact hcalls'

-- ====== all messages

/-- The call the message asks for. -/
def Message.call (m : Message) : Call := m.callAt m.final.arrival

/-- The message deserializes, a proposal also validates, and of a
maintenance message fragment 0 comes first. -/
structure Message.Orderly (P : Prims) (C : Codec) (m : Message) :
    Prop where
  accepted : C.accepts P m.final.arrival.now m.kind m.payload = true
  start : m.kind.dispatch = .maintenance →
    m.first.fragment.fragmentId = 0

/-- One message after an idle state: it is served and the state is idle
again exactly when it is orderly. -/
theorem message_orderly (hmode : mode ≠ .backupOnly) (hd : Idle d)
    (htime : InTime P C mode m.parcels d) :
    (m.Orderly P C → (inboundAll P C mode m.parcels d).1 = [m.call]
        ∧ Idle (inboundAll P C mode m.parcels d).2)
      ∧ ((inboundAll P C mode m.parcels d).1 = [m.call] →
        m.Orderly P C) := by
  by_cases hlate : m.kind.dispatch = .maintenance
      ∧ m.first.fragment.fragmentId ≠ 0
  · have hlost := late_start_lost hmode hlate.1 hlate.2 hd htime
    constructor
    · intro h
      exact absurd (h.start hlate.1) hlate.2
    · intro h
      rw [hlost] at h
      cases h
  have hstart : m.kind.dispatch = .maintenance →
      m.first.fragment.fragmentId = 0 := by
    intro hk
    by_contra hne
    exact hlate ⟨hk, hne⟩
  have hserved : (inboundAll P C mode m.parcels d).1
        = m.served P C m.final.arrival
      ∧ Idle (inboundAll P C mode m.parcels d).2 := by
    by_cases hk : m.kind.dispatch = .maintenance
    · exact served_maintenance hmode hk (hstart hk) hd htime
    · exact served_foreign hmode hk hd htime
  obtain ⟨hcalls, hidle⟩ := hserved
  rw [hcalls]
  unfold Message.served
  constructor
  · intro h
    rw [if_pos h.accepted]
    exact ⟨rfl, hidle⟩
  · intro h
    split at h
    next haccepted => exact ⟨haccepted, hstart⟩
    next => cases h

/-- The handlers invoked are, after every message of a sequence, those
the messages so far ask for, in order, exactly when every message
deserializes (and validates, if it is a proposal) and every maintenance
message arrives with its fragment 0 first. -/
theorem inbound_served_iff (P : Prims) (C : Codec) (mode : NodeMode)
    (hmode : mode ≠ .backupOnly) (d : Dispatcher) (hd : Idle d)
    (ms : List Message)
    (htime : InTime P C mode (ms.flatMap Message.parcels) d) :
    (∀ k, (inboundAll P C mode ((ms.take k).flatMap Message.parcels) d).1
        = (ms.take k).map Message.call)
      ↔ ∀ m ∈ ms, m.Orderly P C := by
  induction ms generalizing d with
  | nil =>
      refine iff_of_true ?_ nofun
      intro k
      rw [List.take_nil]
      rfl
  | cons m rest ih =>
      rw [List.flatMap_cons, inTime_append] at htime
      obtain ⟨hnow, hlater⟩ := htime
      obtain ⟨hgood, hbad⟩ := message_orderly hmode hd hnow
      rw [List.forall_mem_cons]
      constructor
      · intro hall
        have hone := hall 1
        rw [List.take_succ_cons, List.take_zero, List.flatMap_cons,
          List.flatMap_nil, List.append_nil] at hone
        have hm := hbad hone
        obtain ⟨hcalls, hidle⟩ := hgood hm
        refine ⟨hm, (ih _ hidle hlater).1 ?_⟩
        intro k
        have hk := hall (k + 1)
        rw [List.take_succ_cons, List.flatMap_cons, inboundAll_append,
          List.map_cons, hcalls] at hk
        exact List.cons_injective hk
      · rintro ⟨hm, hrest⟩ k
        obtain ⟨hcalls, hidle⟩ := hgood hm
        cases k with
        | zero => rfl
        | succ k =>
            rw [List.take_succ_cons, List.flatMap_cons, inboundAll_append,
              List.map_cons, hcalls, (ih _ hidle hlater).2 hrest k]
            rfl

-- ======= the timeout

/-- All four reassemblers were set up at `t₀` or later. -/
structure Since (t₀ : Nat) (d : Dispatcher) : Prop where
  maintenance : t₀ ≤ d.maintenance.createdAt
  compute : t₀ ≤ d.compute.createdAt
  verification : t₀ ≤ d.verification.createdAt
  lifecycle : t₀ ≤ d.lifecycle.createdAt

theorem addFragment_createdAt (r : Reassembler) (f : Fragment) :
    (r.addFragment f).2.createdAt = r.createdAt := by
  have hstore : ∀ r : Reassembler, (r.store f).2.createdAt
      = r.createdAt := by
    intro r
    unfold Reassembler.store
    split <;> rfl
  unfold Reassembler.addFragment
  split
  · rfl
  split
  · rfl
  split
  · rfl
  split
  · exact hstore _
  · split
    · rfl
    · exact hstore _

/-- A session only starts over later. -/
theorem offer_createdAt {t₀ now : Nat} (h : t₀ ≤ r.createdAt)
    (hnow : t₀ ≤ now) (f : Fragment) :
    t₀ ≤ (r.offer now f).2.createdAt := by
  have hclean : t₀ ≤ (r.cleanupExpired now 300).createdAt := by
    unfold Reassembler.cleanupExpired
    split
    · exact hnow
    · exact h
  have hadd := addFragment_createdAt (r.cleanupExpired now 300) f
  unfold Reassembler.offer
  dsimp only
  split
  · rw [hadd]
    exact hclean
  split
  · rw [hadd]
    exact hclean
  split
  · exact hnow
  · exact hnow

theorem handleClaimed_createdAt {t₀ : Nat} (h : t₀ ≤ r.createdAt)
    (hnow : t₀ ≤ a.now) (x : Dispatch) (f : Fragment) :
    t₀ ≤ (handleClaimed P C a x f r).2.createdAt := by
  unfold handleClaimed
  dsimp only
  split
  · exact offer_createdAt h hnow f
  · exact offer_createdAt h hnow f

theorem Since.inbound {t₀ : Nat} (h : Since t₀ d) (hnow : t₀ ≤ a.now)
    (body : List UInt8) :
    Since t₀ (handleInbound P C mode a body d).2 := by
  have hcollect : ∀ (x : Dispatch) (r : Reassembler), t₀ ≤ r.createdAt →
      t₀ ≤ (handleFragment P C a x body r).2.createdAt := by
    intro x r hr
    unfold handleFragment
    split
    · exact hr
    · exact handleClaimed_createdAt hr hnow x _
  have hmaintenance : t₀ ≤ (handleMaintenanceFragment P C a body
      d.maintenance).2.createdAt := by
    unfold handleMaintenanceFragment
    split
    · exact h.maintenance
    · split
      · exact h.maintenance
      · exact handleClaimed_createdAt h.maintenance hnow _ _
  unfold handleInbound
  split
  · exact h
  · exact ⟨hmaintenance, hcollect _ _ h.compute, hcollect _ _ h.verification,
      hcollect _ _ h.lifecycle⟩

/-- Everything that arrives within the timeout of the setup arrives in
time. -/
theorem inTime_of_window {t₀ : Nat} {ps : List Parcel} {d : Dispatcher}
    (h : Since t₀ d)
    (hwindow : ∀ p ∈ ps, t₀ ≤ p.arrival.now ∧ p.arrival.now < t₀ + 300) :
    InTime P C mode ps d := by
  induction ps generalizing d with
  | nil => trivial
  | cons p ps ih =>
      obtain ⟨hlow, hhigh⟩ := hwindow p List.mem_cons_self
      refine ⟨⟨.inr ?_, .inr ?_, .inr ?_, .inr ?_⟩, ih (h.inbound hlow _)
        fun q hq => hwindow q (List.mem_cons_of_mem _ hq)⟩
      · have := h.maintenance
        omega
      · have := h.compute
        omega
      · have := h.verification
        omega
      · have := h.lifecycle
        omega

-- ==== two fragments, swapped

/-- A dispatcher at time 100 that has received nothing. -/
def idleDispatcher : Dispatcher :=
  ⟨RetrievalManager.new, .new 100, .new 100, .new 100, .new 100⟩

theorem idle_idleDispatcher : Idle idleDispatcher :=
  ⟨rfl, ⟨rfl, rfl⟩, ⟨rfl, rfl⟩, ⟨rfl, rfl⟩, ⟨rfl, rfl⟩⟩

def jsonZeros (n : Nat) : String :=
  ",".intercalate (List.replicate n "0")

/-- A commit as JSON text; the fields that it leaves out have defaults. -/
def commitJson : List UInt8 :=
  asBytes ("\x7b\"proposal_id\":[" ++ jsonZeros 32
    ++ "],\"from_node\":[" ++ jsonZeros 16 ++ "]\x7d")

/-- That text, and as many spaces as make it one byte too long for a
fragment. -/
def commitContent : List UInt8 :=
  commitJson ++ List.replicate (1012 - commitJson.length) 0x20

/-- What `serde_json` makes of it: white space may follow the text. -/
def commitCodec : Codec where
  parses t payload := t == .swapCommit
    && commitJson.isPrefixOf (payload.drop 1)
    && ((payload.drop 1).drop commitJson.length).all (· == 0x20)
  proposal _ := none

/-- The payload of the commit. -/
def longCommit : List UInt8 := 0x18 :: commitContent

theorem parses_longCommit :
    commitCodec.parses .swapCommit longCommit = true := by
  have hrest : longCommit.drop 1
      = commitJson ++ List.replicate (1012 - commitJson.length) 0x20 := rfl
  unfold commitCodec
  dsimp only
  rw [hrest, List.drop_left, Bool.and_eq_true, Bool.and_eq_true]
  refine ⟨⟨rfl, List.isPrefixOf_iff_prefix.2 (List.prefix_append _ _)⟩, ?_⟩
  rw [List.all_eq_true]
  intro b hb
  rw [(List.mem_replicate.1 hb).2]
  rfl

theorem length_commitContent : commitContent.length = 1012 := by
  have hshort : commitJson.length ≤ 1012 := by decide +kernel
  unfold commitContent
  rw [List.length_append, List.length_replicate]
  exact Nat.add_sub_of_le hshort

/-- One of its two fragments, as it arrives at time 200. -/
def commitParcel (i : Nat) : Parcel where
  arrival := ⟨200, Bytes.fill 16 1,
    IterOrder.bytewise⟩
  fragment := ⟨i, 2, (longCommit.drop (i * MAX_FRAGMENT_DATA)).take
    MAX_FRAGMENT_DATA⟩

theorem length_longCommit : longCommit.length = 1013 := by
  unfold longCommit
  rw [List.length_cons, length_commitContent]

theorem fragmentPayload_longCommit :
    fragmentPayload longCommit
      = [(commitParcel 0).fragment, (commitParcel 1).fragment] := by
  unfold fragmentPayload
  rw [length_longCommit]
  rfl

/-- The commit with its fragments in order. -/
def promptCommit : Message where
  kind := .swapCommit
  content := commitContent
  earlier := [commitParcel 0]
  final := commitParcel 1
  fits := by
    rw [List.length_cons, length_commitContent]
    decide
  whole := by
    show List.Perm _ (fragmentPayload longCommit)
    rw [fragmentPayload_longCommit]
    exact List.Perm.refl _

/-- The same with its fragments swapped. -/
def swappedCommit : Message where
  kind := .swapCommit
  content := commitContent
  earlier := [commitParcel 1]
  final := commitParcel 0
  fits := by
    rw [List.length_cons, length_commitContent]
    decide
  whole := by
    show List.Perm _ (fragmentPayload longCommit)
    rw [fragmentPayload_longCommit]
    exact List.Perm.swap _ _ _

theorem inTime_commit {ps : List Parcel}
    (h : ∀ p ∈ ps, p = commitParcel 0 ∨ p = commitParcel 1) :
    InTime Prims.plain commitCodec .full ps idleDispatcher := by
  have hsince : Since 100 idleDispatcher :=
    ⟨le_refl _, le_refl _, le_refl _, le_refl _⟩
  refine inTime_of_window hsince ?_
  intro p hp
  rcases h p hp with rfl | rfl
  · exact ⟨by decide, by decide⟩
  · exact ⟨by decide, by decide⟩

/-- In order, the commit is handled. -/
theorem inbound_served_prompt :
    (inboundAll Prims.plain commitCodec .full promptCommit.parcels
        idleDispatcher).1
      = [promptCommit.call] := by
  refine (inbound_served_iff Prims.plain commitCodec .full nofun
    idleDispatcher idle_idleDispatcher [promptCommit] ?_).2 ?_ 1
  · apply inTime_commit
    intro p hp
    have hp : p ∈ [commitParcel 0, commitParcel 1] := hp
    simpa using hp
  · intro m hm
    obtain rfl := List.mem_singleton.1 hm
    exact ⟨parses_longCommit, fun _ => rfl⟩

/-- Swapped, it reaches no handler, though both fragments arrive within a
second on a node that has received nothing else. -/
theorem swapped_commit_lost :
    Idle idleDispatcher
      ∧ InTime Prims.plain commitCodec .full swappedCommit.parcels
        idleDispatcher
      ∧ commitCodec.accepts Prims.plain swappedCommit.final.arrival.now
        swappedCommit.kind swappedCommit.payload = true
      ∧ (inboundAll Prims.plain commitCodec .full swappedCommit.parcels
        idleDispatcher).1 = [] := by
  have htime : InTime Prims.plain commitCodec .full swappedCommit.parcels
      idleDispatcher := by
    apply inTime_commit
    intro p hp
    have hp : p ∈ [commitParcel 1, commitParcel 0] := hp
    rw [List.mem_cons, List.mem_singleton] at hp
    exact hp.symm
  refine ⟨idle_idleDispatcher, htime, parses_longCommit, ?_⟩
  exact late_start_lost nofun rfl nofun idle_idleDispatcher htime

end StaticNet
