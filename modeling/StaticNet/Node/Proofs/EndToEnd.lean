/-
A message from one application to another: cut into fragments, sent as
packets through the network, put together again and handed to the one
handler it is for.

# What has to fit together

The network promises that the bodies come out at the destination, each
at most once, in some order (`Shipment.carried`). A fragment is neither
a chunk request nor a piece of one, because its first byte is zero
(`handleBody_fragment`), so the transport hands every body on. The
dispatchers promise to call the handler once when all fragments of a
message have come in (`served_foreign`, `served_maintenance`); that they
call nothing before (`Partly`) is shown for a message whose missing
fragments are still to come.
-/
import StaticNet.Bodies.RoundTrip
import StaticNet.Node.Proofs.Carried
import StaticNet.Node.Proofs.Delivery

namespace StaticNet

variable {P : Prims} {C : Codec} {mode : NodeMode}

-- ======== a fragment

/-- A fragment's index is small, so its first byte is zero. -/
theorem serializeFragment_head {f : Fragment} (h : f.Valid) :
    (serializeFragment f).getD 0 0 = 0 := by
  obtain ⟨-, hmax, hlt, -⟩ := h
  have hx : MAX_FRAGMENTS_PER_MESSAGE = 2048 := rfl
  have hsmall : f.fragmentId / 256 ^ 3 = 0 := by
    rw [Nat.div_eq_zero_iff]
    omega
  show UInt8.ofNat (f.fragmentId / 256 ^ 3) = 0
  rw [hsmall]
  rfl

/-- The transport keeps nothing of a fragment: it is for the
application. -/
theorem handleBody_fragment {f : Fragment} (h : f.Valid)
    (s : MessageState) (sender : NodeId) (now : Nat) :
    handleBody s sender (serializeFragment f) now
      = ([.inbound sender (serializeFragment f)], s) := by
  have hhead := serializeFragment_head h
  have hlen := length_serializeFragment f
  have hrequest : ∃ e, deserializeRequest (serializeFragment f)
      = .error e := by
    unfold deserializeRequest
    rw [hlen, hhead, if_neg (by decide), if_pos (by decide)]
    exact ⟨_, rfl⟩
  have hfeed : tryFeedSurbRequestFragment s.pendingRequests
      (serializeFragment f) now = (none, s.pendingRequests) := by
    unfold tryFeedSurbRequestFragment
    rw [hlen, hhead, if_neg (by decide), if_pos (by decide)]
  obtain ⟨e, he⟩ := hrequest
  unfold handleBody
  rw [he, hfeed]

-- ======== the bodies

/-- The fragments of a payload, for the end of a route. -/
def payloadShipment (sender : NodeId) (route : HybridRoute)
    (draws : Nat → PacketDraws) (payload : List UInt8) : Shipment where
  sender := sender
  route := route
  draws := draws
  bodies := (fragmentPayload payload).map serializeFragment

section Bodies

variable {sender : NodeId} {route : HybridRoute} {draws : Nat → PacketDraws}
  {payload : List UInt8} {frags : List Fragment}

theorem body_payload {k : Nat} {f : Fragment}
    (hf : (fragmentPayload payload)[k]? = some f) :
    (payloadShipment sender route draws payload).body k
      = serializeFragment f := by
  unfold Shipment.body payloadShipment
  rw [List.getD_eq_getElem?_getD, List.getElem?_map, hf]
  unfold padTo
  show serializeFragment f ++ List.replicate
    (BODY_SIZE - (serializeFragment f).length) 0 = _
  rw [length_serializeFragment, Nat.sub_self]
  exact List.append_nil _

theorem length_body_payload (body : List UInt8)
    (h : body ∈ (payloadShipment sender route draws payload).bodies) :
    body.length ≤ BODY_SIZE := by
  obtain ⟨f, -, rfl⟩ := List.mem_map.1 h
  exact Nat.le_of_eq (length_serializeFragment f)

/-- What is handed on of a payload: its bodies, each with its sender. -/
def HandedOn (S : Shipment) (ks : List Nat) (_ : ReassemblyManager)
    (out : List Outcome) : Prop :=
  List.Forall₂ (fun k o => ∃ via, o = .inbound via (S.body k)) ks out

theorem collects_payload (hfrag : Fragmentation (fragmentPayload payload)
    payload) :
    Shipment.Collects (payloadShipment sender route draws payload)
      (HandedOn (payloadShipment sender route draws payload))
      (fun _ => True) (fun _ _ => True) where
  body ks k s out via r h _ hk _ := by
    have hk' : k < (fragmentPayload payload).length := by
      unfold payloadShipment at hk
      rwa [List.length_map] at hk
    have hf := List.getElem?_eq_getElem hk'
    rw [body_payload hf,
      handleBody_fragment (hfrag.valid (List.mem_of_getElem? hf))]
    refine List.rel_append h (.cons ⟨via, ?_⟩ .nil)
    rw [body_payload hf]
  quiet _ _ _ _ h _ := h

/-- The bodies as parcels of fragments. -/
theorem takeInbound_parcels {clock : Nat → Arrival} {ks : List Nat}
    {bodies : List (NodeId × List UInt8)}
    (h : List.Forall₂ (fun k b => ∃ f, frags[k]? = some f
      ∧ b.2 = serializeFragment f) ks bodies) (i : Nat) (d : Dispatcher) :
    ∃ ps : List Parcel,
      takeInbound P C mode clock i bodies d = inboundAll P C mode ps d
      ∧ List.Forall₂ (fun k p => frags[k]? = some p.fragment) ks ps
      ∧ ∀ j b, bodies[j]? = some b → ∃ p, ps[j]? = some p
        ∧ p.arrival = { clock (i + j) with sender := b.1 } := by
  induction h generalizing i d with
  | nil => exact ⟨[], rfl, .nil, nofun⟩
  | @cons k b ks bodies hb _ ih =>
      obtain ⟨f, hf, hbody⟩ := hb
      obtain ⟨ps, hrun, hall, harrive⟩ := ih (i + 1)
        (handleInbound P C mode { clock i with sender := b.1 } b.2 d).2
      refine ⟨⟨{ clock i with sender := b.1 }, f⟩ :: ps, ?_, .cons hf hall,
        ?_⟩
      · unfold takeInbound inboundAll Parcel.body
        dsimp only
        rw [hrun, hbody]
      · intro j b' hget
        cases j with
        | zero =>
            obtain rfl := Option.some.inj hget
            exact ⟨_, rfl, rfl⟩
        | succ j =>
            obtain ⟨p, hp, harr⟩ := harrive j b' hget
            refine ⟨p, hp, ?_⟩
            rw [harr, Nat.add_assoc, Nat.add_comm 1 j]

end Bodies

-- ==== unfinished messages

section Unfinished

variable {m : Message} {d : Dispatcher} {ids : Finset Nat} {p : Parcel}

/-- The paths have some of a message, and the maintenance dispatcher no
more of it than the others. -/
structure Partly (m : Message) (ids : Finset Nat) (d : Dispatcher) :
    Prop where
  gathered : Gathered m ids d
  claimed : ∃ claimed ⊆ ids, Collected m.frags claimed d.maintenance

theorem Idle.partly (h : Idle d) (m : Message) : Partly m ∅ d :=
  ⟨h.gathered m, ∅, Finset.empty_subset _,
    collected_empty_iff.2 h.maintenance⟩

/-- A fragment that is not the last calls no handler. -/
theorem Partly.next (h : Partly m ids d) (hmode : mode ≠ .backupOnly)
    (hfresh : Fresh p.arrival.now d) (hf : p.fragment ∈ m.frags)
    (hnew : p.fragment.fragmentId ∉ ids)
    (hpart : insert p.fragment.fragmentId ids
      ≠ Finset.range m.frags.length) :
    (handleInbound P C mode p.arrival p.body d).1 = []
      ∧ Partly m (insert p.fragment.fragmentId ids)
        (handleInbound P C mode p.arrival p.body d).2 := by
  obtain ⟨hcalls, hsame, hg⟩ := h.gathered.next (P := P) (C := C) hmode
    hfresh hf hnew hpart
  obtain ⟨claimed, hsub, hcol⟩ := h.claimed
  have hmaintenance : (maintenanceOf P C p d).1 = []
      ∧ ∃ claimed' ⊆ insert p.fragment.fragmentId ids,
        Collected m.frags claimed' (maintenanceOf P C p d).2 := by
    by_cases hclaim : startsMaintenance p.fragment = true ∨ claimed ≠ ∅
    · have hpart' : insert p.fragment.fragmentId claimed
          ≠ Finset.range m.frags.length := by
        intro heq
        refine hpart (Finset.Subset.antisymm ?_ ?_)
        · intro i hi
          exact Finset.mem_range.2 (hg.compute.bound i hi)
        · rw [← heq]
          exact Finset.insert_subset_insert _ hsub
      obtain ⟨hnone, hcol'⟩ := (maintenance_claims (P := P) (C := C) hcol
        hf (fun hmem => hnew (hsub hmem)) hclaim hfresh).2 hpart'
      exact ⟨hnone, _, Finset.insert_subset_insert _ hsub, hcol'⟩
    · rw [not_or, not_not] at hclaim
      obtain ⟨hstart, rfl⟩ := hclaim
      have hskip := maintenance_skips (P := P) (C := C)
        (collected_empty_iff.1 hcol) hf (Bool.eq_false_iff.2 hstart)
      rw [hskip]
      exact ⟨rfl, ∅, Finset.empty_subset _, hcol⟩
  refine ⟨hcalls.trans hmaintenance.1, hg, ?_⟩
  rw [hsame]
  exact hmaintenance.2

/-- Before its last fragment a message calls no handler. -/
theorem earlier_quiet (hmode : mode ≠ .backupOnly) (hd : Idle d)
    (htime : InTime P C mode m.earlier d) :
    (inboundAll P C mode m.earlier d).1 = [] :=
  (inboundAll_quiet (fun _ _ _ h hfresh hf hnew hpart =>
    h.next hmode hfresh hf hnew hpart) (hd.partly m) m.toCome htime).1

end Unfinished

-- ==== all or nothing

section Served

variable {kind : BodyType} {content : List UInt8} {d : Dispatcher}
  {ks : List Nat} {ps : List Parcel}

/-- Parcels of all fragments are a message. -/
theorem message_of_parcels (ps : List Parcel)
    (hfits : (kind.byte :: content).length
      ≤ MAX_FRAGMENTS_PER_MESSAGE * MAX_FRAGMENT_DATA)
    (hwhole : (ps.map Parcel.fragment).Perm
      (fragmentPayload (kind.byte :: content))) :
    ∃ m : Message, m.kind = kind ∧ m.content = content ∧ m.parcels = ps := by
  have hne : ps ≠ [] := by
    rintro rfl
    have hpos := (fragmentPayload_fragmentation hfits).pos
    rw [← hwhole.length_eq] at hpos
    exact Nat.lt_irrefl 0 hpos
  exact ⟨⟨kind, content, ps.dropLast, ps.getLast hne, hfits, by
    rwa [List.dropLast_append_getLast hne]⟩, rfl, rfl,
    List.dropLast_append_getLast hne⟩

/-- The fragments at these indices are all of them when the indices
are. -/
theorem perm_fragments {frags : List Fragment}
    (hperm : ks.Perm (List.range frags.length))
    (hall : List.Forall₂ (fun k p => frags[k]? = some p.fragment) ks ps) :
    (ps.map Parcel.fragment).Perm frags := by
  have hmap : ps.map (fun p => some p.fragment) = ks.map (frags[·]?) := by
    clear hperm
    induction hall with
    | nil => rfl
    | cons hp _ ih => rw [List.map_cons, List.map_cons, hp, ih]
  have hrange : (List.range frags.length).map (frags[·]?)
      = frags.map some := by
    refine List.ext_getElem? fun i => ?_
    rw [List.getElem?_map, List.getElem?_map]
    by_cases hi : i < frags.length
    · rw [List.getElem?_range hi, List.getElem?_eq_getElem hi]
      exact congrArg some (List.getElem?_eq_getElem hi)
    · rw [List.getElem?_eq_none (by rw [List.length_range]; omega),
        List.getElem?_eq_none (by omega)]
      rfl
  have hsome : ((ps.map Parcel.fragment).map some).Perm
      (frags.map some) := by
    rw [List.map_map, ← hrange]
    show (ps.map fun p => some p.fragment).Perm _
    rw [hmap]
    exact hperm.map _
  exact (List.map_perm_map_iff (Option.some_injective _)).1 hsome

/-- The fragments at the other indices, as if they came in at `t₀`. -/
def phantoms (ks : List Nat) (t₀ : Nat) (frags : List Fragment) :
    List Parcel :=
  ((List.range frags.length).filter (· ∉ ks)).filterMap fun k =>
    frags[k]?.map (Parcel.mk ⟨t₀, Bytes.zero 16, IterOrder.bytewise⟩)

theorem phantoms_forall (ks : List Nat) (t₀ : Nat)
    (frags : List Fragment) :
    List.Forall₂ (fun k p => frags[k]? = some p.fragment)
      ((List.range frags.length).filter (· ∉ ks))
      (phantoms ks t₀ frags) := by
  have hall : ∀ js : List Nat, (∀ j ∈ js, j < frags.length) →
      List.Forall₂ (fun k (p : Parcel) => frags[k]? = some p.fragment) js
        (js.filterMap fun k => frags[k]?.map
          (Parcel.mk ⟨t₀, Bytes.zero 16, IterOrder.bytewise⟩)) := by
    intro js hjs
    induction js with
    | nil => exact .nil
    | cons j js ih =>
        have hget := List.getElem?_eq_getElem (hjs j List.mem_cons_self)
        rw [List.filterMap_cons, hget]
        exact .cons hget (ih fun i hi => hjs i (List.mem_cons_of_mem _ hi))
  exact hall _ fun j hj => List.mem_range.1 (List.mem_filter.1 hj).1

theorem perm_missing {frags : List Fragment} (hnodup : ks.Nodup)
    (hall : List.Forall₂ (fun k p => frags[k]? = some p.fragment) ks ps) :
    (ks ++ (List.range frags.length).filter (· ∉ ks)).Perm
      (List.range frags.length) := by
  have hbound : ∀ j ∈ ks, j < frags.length := by
    intro j hj
    clear hnodup
    induction hall with
    | nil => cases hj
    | cons hp _ ih =>
        rcases List.mem_cons.1 hj with rfl | hj
        · exact (List.getElem?_eq_some_iff.1 hp).1
        · exact ih hj
  refine (List.perm_ext_iff_of_nodup ?_ List.nodup_range).2 fun j => ?_
  · refine List.nodup_append.2 ⟨hnodup, List.nodup_range.filter _, ?_⟩
    rintro j hj _ hmem rfl
    exact of_decide_eq_true (List.mem_filter.1 hmem).2 hj
  · rw [List.mem_append, List.mem_filter, List.mem_range]
    constructor
    · rintro (hj | ⟨hj, -⟩)
      · exact hbound j hj
      · exact hj
    · intro hj
      by_cases hin : j ∈ ks
      · exact .inl hin
      · exact .inr ⟨hj, decide_eq_true hin⟩

/-- With a fragment missing, nothing is called. -/
theorem served_not (hmode : mode ≠ .backupOnly) (hd : Idle d) {t₀ : Nat}
    (hsince : Since t₀ d)
    (hfits : (kind.byte :: content).length
      ≤ MAX_FRAGMENTS_PER_MESSAGE * MAX_FRAGMENT_DATA)
    (hwindow : ∀ p ∈ ps, t₀ ≤ p.arrival.now ∧ p.arrival.now < t₀ + 300)
    (hnodup : ks.Nodup)
    (hall : List.Forall₂ (fun k p =>
      (fragmentPayload (kind.byte :: content))[k]? = some p.fragment) ks ps)
    {k : Nat} (hk : k < (fragmentPayload (kind.byte :: content)).length)
    (hmissing : k ∉ ks) :
    (inboundAll P C mode ps d).1 = [] := by
  have hfull := message_of_parcels (ps ++ phantoms ks t₀
    (fragmentPayload (kind.byte :: content))) hfits
  generalize fragmentPayload (kind.byte :: content) = frags
    at hall hk hfull
  obtain ⟨init, final, hlast⟩ : ∃ init final,
      phantoms ks t₀ frags = init ++ [final] := by
    have hmem : k ∈ (List.range frags.length).filter (· ∉ ks) :=
      List.mem_filter.2 ⟨List.mem_range.2 hk, decide_eq_true hmissing⟩
    have hne : phantoms ks t₀ frags ≠ [] := by
      intro hnil
      have hlen := (phantoms_forall ks t₀ frags).length_eq
      rw [hnil, List.length_nil, List.length_eq_zero_iff] at hlen
      rw [hlen] at hmem
      cases hmem
    exact ⟨_, _, (List.dropLast_append_getLast hne).symm⟩
  obtain ⟨m, -, -, hparcels⟩ := hfull
    (perm_fragments (perm_missing hnodup hall) (List.rel_append hall
      (phantoms_forall ks t₀ frags)))
  have hearlier : m.earlier = ps ++ init := by
    unfold Message.parcels at hparcels
    rw [hlast, ← List.append_assoc] at hparcels
    exact (List.append_inj' hparcels rfl).1
  have htime : InTime P C mode m.earlier d := by
    refine inTime_of_window hsince fun p hp => ?_
    rw [hearlier] at hp
    rcases List.mem_append.1 hp with hp | hp
    · exact hwindow p hp
    · have hmem : p ∈ phantoms ks t₀ frags := by
        rw [hlast]
        exact List.mem_append_left _ hp
      obtain ⟨j, -, hj⟩ := List.mem_filterMap.1 hmem
      obtain ⟨f, -, rfl⟩ := Option.map_eq_some_iff.1 hj
      exact ⟨Nat.le_refl _, by show t₀ < t₀ + 300; omega⟩
  have hquiet := earlier_quiet (C := C) hmode hd htime
  rw [hearlier, inboundAll_append] at hquiet
  exact (List.append_eq_nil_iff.1 hquiet).1

/-- What a complete payload comes to, with its last fragment arriving
so. -/
def callOf (P : Prims) (C : Codec) (kind : BodyType)
    (content : List UInt8) (a : Arrival) : List Call :=
  if C.accepts P a.now kind (kind.byte :: content) then
    [.handler kind (kind.byte :: content) (kind.dispatch.sender a)]
  else []

/-- With all fragments in, the handler is called, once. -/
theorem served_all (hmode : mode ≠ .backupOnly) (hd : Idle d) {t₀ : Nat}
    (hsince : Since t₀ d)
    (hfits : (kind.byte :: content).length
      ≤ MAX_FRAGMENTS_PER_MESSAGE * MAX_FRAGMENT_DATA)
    (hwindow : ∀ p ∈ ps, t₀ ≤ p.arrival.now ∧ p.arrival.now < t₀ + 300)
    (hwhole : (ps.map Parcel.fragment).Perm
      (fragmentPayload (kind.byte :: content)))
    (hfirst : kind.dispatch = .maintenance →
      ∀ p, ps.head? = some p → p.fragment.fragmentId = 0)
    {p : Parcel} (hlast : ps.getLast? = some p) :
    (inboundAll P C mode ps d).1 = callOf P C kind content p.arrival
      ∧ Idle (inboundAll P C mode ps d).2 := by
  obtain ⟨m, rfl, rfl, rfl⟩ := message_of_parcels ps hfits hwhole
  have htime : InTime P C mode m.parcels d :=
    inTime_of_window hsince hwindow
  have hfinal : m.final = p := by
    unfold Message.parcels at hlast
    rw [List.getLast?_concat] at hlast
    exact Option.some.inj hlast
  have hcall : m.served P C m.final.arrival
      = callOf P C m.kind m.content p.arrival := by
    rw [hfinal]
    rfl
  rw [← hcall]
  by_cases hk : m.kind.dispatch = .maintenance
  · refine served_maintenance hmode hk (hfirst hk m.first ?_) hd htime
    unfold Message.parcels Message.first
    cases m.earlier with
    | nil => rfl
    | cons q qs => rfl
  · exact served_foreign hmode hk hd htime

end Served

-- ======== end to end

/-- The bodies a node's application is handed. -/
def MixNet.received (net : MixNet) (id : NodeId) :
    List (NodeId × List UInt8) :=
  (net.handed id).filterMap Outcome.body?

/-- What a run makes of a payload: only the destination gets anything of
it, and that only fragments, each at most once. As long as one is missing
no handler is called; with the last one, that of the payload's type. -/
structure PayloadCarried (P : Prims) (C : Codec) (mode : NodeMode)
    (kind : BodyType) (content : List UInt8) (destination : NodeId)
    (clock : Nat → Arrival) (d : Dispatcher) (net : MixNet) : Prop where
  elsewhere : ∀ id, id ≠ destination → net.handed id = []
  bodies : ∀ o ∈ net.handed destination, ∃ via body, o = .inbound via body
  once : List.Subperm ((net.received destination).map Prod.snd)
    ((fragmentPayload (kind.byte :: content)).map serializeFragment)
  unfinished : (net.received destination).length
      < (fragmentPayload (kind.byte :: content)).length →
    (takeInbound P C mode clock 0 (net.received destination) d).1 = []
  finished : (net.received destination).length
      = (fragmentPayload (kind.byte :: content)).length →
    (kind.dispatch = .maintenance → ∀ b f,
      (net.received destination).head? = some b →
      deserializeFragment b.2 = .ok f → f.fragmentId = 0) →
    ∀ b, (net.received destination).getLast? = some b →
      (takeInbound P C mode clock 0 (net.received destination) d).1
        = callOf P C kind content
          { clock ((net.received destination).length - 1) with
            sender := b.1 }
      ∧ Idle (takeInbound P C mode clock 0 (net.received destination) d).2

section EndToEnd

variable {S : Shipment} {ks : List Nat} {out : List Outcome}

theorem handedOn_received {m : ReassemblyManager}
    (h : HandedOn S ks m out) :
    List.Forall₂ (fun k b => b.2 = S.body k) ks
        (out.filterMap Outcome.body?)
      ∧ ∀ o ∈ out, ∃ via body, o = .inbound via body := by
  unfold HandedOn at h
  induction h with
  | nil => exact ⟨.nil, nofun⟩
  | cons ho _ ih =>
      obtain ⟨via, rfl⟩ := ho
      refine ⟨.cons rfl ih.1, ?_⟩
      rw [List.forall_mem_cons]
      exact ⟨⟨via, _, rfl⟩, ih.2⟩

/-- The route of the packets ends at the destination. -/
theorem effectiveRoute_last {kemLookup : NodeId → Option (List UInt8)}
    {route : Route} {effective : HybridRoute}
    (h : effectiveRoute kemLookup route = .ok effective) :
    effective.hops.getLast?.map HybridRouteHop.nodeId
      = some route.destination := by
  unfold effectiveRoute at h
  cases hhops : hopsWithKem kemLookup route.hops with
  | error e =>
      rw [hhops] at h
      cases h
  | ok hops =>
      rw [hhops] at h
      dsimp only at h
      split at h
      next hne =>
        cases hlast : hopWithKem kemLookup
            ⟨(route.hops.getLast?.map RouteHop.publicKey).getD
              (Bytes.zero 32), route.destination⟩ with
        | error e =>
            rw [hlast] at h
            cases h
        | ok last =>
            rw [hlast] at h
            obtain rfl := Except.ok.inj h
            dsimp only
            rw [List.getLast?_concat]
            unfold hopWithKem at hlast
            split at hlast
            · cases hlast
            · obtain rfl := Except.ok.inj hlast
              rfl
      next heq =>
        obtain rfl := Except.ok.inj h
        exact not_not.1 heq

end EndToEnd

section Carried

variable {sender : NodeId} {route : HybridRoute} {draws : Nat → PacketDraws}
  {kind : BodyType} {content : List UInt8} {d : Dispatcher} {ks : List Nat}
  {net : MixNet} {destination : NodeId} {clock : Nat → Arrival} {t₀ : Nat}

theorem bodies_of {g : Nat → List UInt8} {rs : List (NodeId × List UInt8)}
    (h : List.Forall₂ (fun k b => b.2 = g k) ks rs) :
    rs.map Prod.snd = ks.map g := by
  induction h with
  | nil => rfl
  | cons hb _ ih => rw [List.map_cons, List.map_cons, hb, ih]

theorem map_body_payload {payload : List UInt8} :
    (List.range (fragmentPayload payload).length).map
        (payloadShipment sender route draws payload).body
      = (fragmentPayload payload).map serializeFragment := by
  refine List.ext_getElem (by simp) fun k hk hk' => ?_
  rw [List.length_map] at hk'
  rw [List.getElem_map, List.getElem_map, List.getElem_range]
  exact body_payload (List.getElem?_eq_getElem hk')

theorem le_length_of_covers {n : Nat} (h : ∀ k, k < n → k ∈ ks) :
    n ≤ ks.length := by
  have hle := (List.nodup_range.subperm fun k hk =>
    h k (List.mem_range.1 hk)).length_le
  rwa [List.length_range] at hle

section Arrivals

variable {ps : List Parcel} {bodies : List (NodeId × List UInt8)}

/-- The parcels arrive when their bodies do. -/
theorem arrive_within
    (hclock : ∀ i, t₀ ≤ (clock i).now ∧ (clock i).now < t₀ + 300)
    (hlen : ps.length = bodies.length)
    (harrive : ∀ j b, bodies[j]? = some b → ∃ p, ps[j]? = some p
      ∧ p.arrival = { clock (0 + j) with sender := b.1 }) :
    ∀ p ∈ ps, t₀ ≤ p.arrival.now ∧ p.arrival.now < t₀ + 300 := by
  intro p hp
  obtain ⟨j, hj, rfl⟩ := List.mem_iff_getElem.1 hp
  obtain ⟨p', hp', harr⟩ := harrive j _ (List.getElem?_eq_getElem (hlen ▸ hj))
  rw [List.getElem?_eq_getElem hj] at hp'
  rw [Option.some.inj hp', harr]
  exact hclock _

/-- The last parcel is that of the last body. -/
theorem arrive_last (hlen : ps.length = bodies.length)
    (harrive : ∀ j b, bodies[j]? = some b → ∃ p, ps[j]? = some p
      ∧ p.arrival = { clock (0 + j) with sender := b.1 })
    {b : NodeId × List UInt8} (hb : bodies.getLast? = some b) :
    ∃ p, ps.getLast? = some p ∧ p.arrival =
      { clock (bodies.length - 1) with sender := b.1 } := by
  rw [List.getLast?_eq_getElem?] at hb ⊢
  obtain ⟨p, hp, harr⟩ := harrive _ b hb
  rw [Nat.zero_add] at harr
  exact ⟨p, by rw [hlen, hp], harr⟩

/-- The first parcel holds the fragment of the first body. -/
theorem arrive_first {frags : List Fragment}
    (hvalid : ∀ f ∈ frags, f.Valid)
    (hserial : List.Forall₂ (fun k (b : NodeId × List UInt8) =>
      ∃ f, frags[k]? = some f ∧ b.2 = serializeFragment f) ks bodies)
    (hall : List.Forall₂ (fun k p => frags[k]? = some p.fragment) ks ps)
    {p : Parcel} (hp : ps.head? = some p) :
    ∃ b, bodies.head? = some b
      ∧ deserializeFragment b.2 = .ok p.fragment := by
  cases hall with
  | nil => cases hp
  | cons hk _ =>
      obtain rfl := Option.some.inj hp
      cases hserial with
      | cons hb _ =>
          obtain ⟨f, hf, hbody⟩ := hb
          obtain rfl := Option.some.inj (hf.symm.trans hk)
          refine ⟨_, rfl, ?_⟩
          rw [hbody]
          exact deserializeFragment_serialize
            (hvalid _ (List.mem_of_getElem? hf))

end Arrivals

/-- The bodies that came out, whatever their order, are what the
dispatchers make one message of. -/
theorem payloadCarried_of (hmode : mode ≠ .backupOnly) (hd : Idle d)
    (hsince : Since t₀ d)
    (hclock : ∀ i, t₀ ≤ (clock i).now ∧ (clock i).now < t₀ + 300)
    (hfits : (kind.byte :: content).length
      ≤ MAX_FRAGMENTS_PER_MESSAGE * MAX_FRAGMENT_DATA)
    (hnodup : ks.Nodup)
    (hbound : ∀ k ∈ ks,
      k < (fragmentPayload (kind.byte :: content)).length)
    (hout : HandedOn (payloadShipment sender route draws
      (kind.byte :: content)) ks
      (net.nodes destination).pendingRequests (net.handed destination))
    (helsewhere : ∀ id, id ≠ destination → net.handed id = []) :
    PayloadCarried P C mode kind content destination clock d net := by
  obtain ⟨hreceived, hbodies⟩ := handedOn_received hout
  have hfrag := fragmentPayload_fragmentation hfits
  have hserial : List.Forall₂ (fun k (b : NodeId × List UInt8) =>
      ∃ f, (fragmentPayload (kind.byte :: content))[k]? = some f
        ∧ b.2 = serializeFragment f) ks (net.received destination) := by
    refine ((List.forall₂_and_left _ _).2 ⟨hbound, hreceived⟩).imp ?_
    rintro k b ⟨hk, hb⟩
    have hf := List.getElem?_eq_getElem hk
    exact ⟨_, hf, hb.trans (body_payload hf)⟩
  have hparcels : ∃ ps : List Parcel,
      takeInbound P C mode clock 0 (net.received destination) d
        = inboundAll P C mode ps d
      ∧ List.Forall₂ (fun k p =>
        (fragmentPayload (kind.byte :: content))[k]? = some p.fragment) ks ps
      ∧ ∀ j b, (net.received destination)[j]? = some b → ∃ p,
        ps[j]? = some p
          ∧ p.arrival = { clock (0 + j) with sender := b.1 } :=
    takeInbound_parcels hserial 0 d
  obtain ⟨ps, hrun, hall, harrive⟩ := hparcels
  have hlenR := hserial.length_eq
  have hlenP : ps.length = (net.received destination).length :=
    hall.length_eq.symm.trans hlenR
  have hwindow := arrive_within hclock hlenP harrive
  have hsub : List.Subperm ks (List.range
      (fragmentPayload (kind.byte :: content)).length) :=
    hnodup.subperm fun k hk => List.mem_range.2 (hbound k hk)
  refine ⟨helsewhere, hbodies, ?_, fun hlt => ?_, fun heq hfirst b hb => ?_⟩
  · obtain ⟨l, hperm, hsublist⟩ := hsub
    have hbytes : (net.received destination).map Prod.snd = _ :=
      bodies_of hreceived
    rw [hbytes, ← map_body_payload]
    exact ⟨_, hperm.map _, hsublist.map _⟩
  · rw [hrun]
    obtain ⟨k, hk, hmissing⟩ : ∃ k,
        k < (fragmentPayload (kind.byte :: content)).length ∧ k ∉ ks := by
      by_contra hno
      push Not at hno
      exact absurd (le_length_of_covers hno) (by omega)
    exact served_not hmode hd hsince hfits hwindow hnodup hall hk hmissing
  · have hperm := hsub.perm_of_length_le (by rw [List.length_range]; omega)
    obtain ⟨p, hp, harr⟩ := arrive_last hlenP harrive hb
    rw [hrun, ← harr]
    refine served_all hmode hd hsince hfits hwindow
      (perm_fragments hperm hall) (fun hk p hp => ?_) hp
    obtain ⟨b, hb, hbody⟩ := arrive_first
      (fun f hf => hfrag.valid hf) hserial hall hp
    exact hfirst hk b _ hb hbody

/-- A payload that is sent to a destination over honest hops, whatever
happens to its packets on the way: they may be delivered in any order, any
number of times or not at all. Nothing of it comes out anywhere but at the
destination, and no fragment twice; when every packet was delivered at
least once on a connected route, all fragments are there. An idle
dispatcher that is handed these bodies, and no others, in time calls no
handler before the last one, and then the handler of the payload's type,
once, if the payload deserializes (a maintenance message needs its first
fragment to come first). -/
theorem payload_delivered (P : Prims) (hdh : P.DhCommutes)
    (haead : P.AeadCorrect) (C : Codec) (mode : NodeMode)
    (hmode : mode ≠ .backupOnly) (nodes : NodeId → MessageState)
    (sender : NodeId) (kind : BodyType) (content : List UInt8)
    (hfits : (kind.byte :: content).length
      ≤ MAX_FRAGMENTS_PER_MESSAGE * MAX_FRAGMENT_DATA)
    (route : Route) (kemLookup : NodeId → Option (List UInt8))
    (draws : Nat → PacketDraws) (packets : List SphinxPacket)
    (hok : createHybridPayloadPackets P draws (kind.byte :: content) route
      kemLookup = .ok packets)
    (effective : HybridRoute)
    (hroute : effectiveRoute kemLookup route = .ok effective)
    (hready : (payloadShipment sender effective draws
      (kind.byte :: content)).Ready P nodes)
    (moves : List NetMove)
    (hall : (payloadShipment sender effective draws
      (kind.byte :: content)).AllAllowed P (fun _ => True)
        (fun _ _ => True) ((payloadShipment sender effective draws
          (kind.byte :: content)).start nodes packets) moves)
    (d : Dispatcher) (hd : Idle d) (t₀ : Nat) (hsince : Since t₀ d)
    (clock : Nat → Arrival)
    (hclock : ∀ i, t₀ ≤ (clock i).now ∧ (clock i).now < t₀ + 300) :
    let S := payloadShipment sender effective draws (kind.byte :: content)
    let net := (S.start nodes packets).run P moves
    PayloadCarried P C mode kind content route.destination clock d net
      ∧ (S.AllLinked P (S.start nodes packets) moves → net.Settled →
        (net.received route.destination).length
          = (fragmentPayload (kind.byte :: content)).length) := by
  intro S net
  have hfrag := fragmentPayload_fragmentation hfits
  have hcount : S.bodies.length
      = (fragmentPayload (kind.byte :: content)).length :=
    List.length_map _
  have hlast : S.last = route.destination := by
    show (effective.hops.getLast?.map _).getD _ = _
    rw [effectiveRoute_last hroute]
    rfl
  have hbodies : bodyPackets P S.draws S.route 0 S.bodies = .ok packets := by
    unfold createHybridPayloadPackets at hok
    rw [hroute] at hok
    exact hok
  have hne : S.bodies ≠ [] := by
    rw [← List.length_pos_iff, hcount]
    exact hfrag.pos
  obtain ⟨ks, hnodup, hbound, hout, helsewhere, hcomplete⟩ :=
    Shipment.carried hdh haead hready hne hbodies (collects_payload hfrag)
      .nil hall
  rw [hlast] at hout helsewhere
  rw [hcount] at hbound hcomplete
  refine ⟨payloadCarried_of hmode hd hsince hclock hfits hnodup hbound hout
    helsewhere, fun hlinked hsettled => ?_⟩
  have hlen := (handedOn_received hout).1.length_eq
  have hle := le_length_of_covers (hcomplete hlinked hsettled)
  have hge := (hnodup.subperm fun k hk =>
    List.mem_range.2 (hbound k hk)).length_le
  rw [List.length_range] at hge
  exact hlen.symm.trans (Nat.le_antisymm hge hle)

end Carried

-- ====== a small mesh

/-- A transparent instance whose hop secrets are the coins they were drawn
with. -/
def Prims.drawn : Prims :=
  { Prims.plain with
    hkdfSalted := fun _ ikm _ => Bytes.ofList 32 (ikm.drop 32) }

theorem drawn_dhCommutes : Prims.drawn.DhCommutes := plain_dhCommutes

theorem drawn_aeadCorrect : Prims.drawn.AeadCorrect :=
  ⟨Prims.plain_aeadCorrect.open_seal, Prims.plain_aeadCorrect.length_seal⟩

/-- Each packet draws its own coins. -/
def drawnAt (k : Nat) : PacketDraws :=
  { quietDraws with coins := fun _ => Bytes.ofList 32 (leBytes 16 k) }

/-- A node that has seen nothing. -/
def meshNode (privateKey : Nat) (id : UInt8) (peers : Finset NodeId) :
    MessageState where
  mixNode := MixNode.new privateKey (Bytes.fill 16 id)
  kemSecret := List.replicate 2400 0
  pendingRequests := ReassemblyManager.new
  peerActivity := ∅
  connections := peers
  serveEnabled := true
  chunkHolder := ChunkHolder.new
  routingTable := RoutingTable.new (Bytes.fill 16 id)

/-- Two of them, the first with a connection to the second. -/
def meshNodes (id : NodeId) : MessageState :=
  if id = Bytes.fill 16 1 then meshNode 3 1 {Bytes.fill 16 2}
  else meshNode 4 2 ∅

def meshHop (privateKey : Nat) (id : UInt8) : HybridRouteHop :=
  (quietStop privateKey id).asHop .plain (List.replicate 1184 0)

/-- A route of two hops. -/
def shortRoute : HybridRoute where
  hops := [meshHop 3 1, meshHop 4 2]
  destination := Bytes.fill 16 2

/-- Bodies for the end of it. -/
def shortShipment (bodies : List (List UInt8)) : Shipment :=
  ⟨Bytes.fill 16 9, shortRoute, drawnAt, bodies⟩

/-- A first reading of every clock. -/
def firstReading : Reading := ⟨200, ⟨fun _ => 0, fun _ => 0, 200⟩, 200⟩

section Mesh

variable {bodies : List (List UInt8)} {packets : List SphinxPacket}

theorem mesh_honest : ∀ hop ∈ shortRoute.hops, ∀ d, HonestHybrid .drawn
    ⟨(meshNodes hop.nodeId).mixNode, (meshNodes hop.nodeId).kemSecret, d⟩
    hop := by
  have hpair : Prims.plain.KemPair (List.replicate 1184 0)
      (List.replicate 2400 0) :=
    Prims.plain_kemPair List.length_replicate List.length_replicate
  intro hop hmem d
  simp only [shortRoute, List.mem_cons, List.not_mem_nil, or_false] at hmem
  rcases hmem with rfl | rfl
  · exact ⟨rfl, rfl, hpair.public_length, hpair.inverts⟩
  · exact ⟨rfl, rfl, hpair.public_length, hpair.inverts⟩

theorem mesh_seenTags (id : NodeId) :
    (meshNodes id).mixNode.seenTags = ∅ := by
  unfold meshNodes
  split
  · rfl
  · rfl

theorem mesh_pendingRequests (id : NodeId) :
    (meshNodes id).pendingRequests = ReassemblyManager.new := by
  unfold meshNodes
  split
  · rfl
  · rfl

theorem mesh_connections (id : NodeId) : (meshNodes id).connections
    = if id = Bytes.fill 16 1 then {Bytes.fill 16 2} else ∅ := by
  unfold meshNodes
  split
  · rfl
  · rfl

theorem mesh_linked : (shortShipment bodies).Linked meshNodes := by
  intro a b hab
  have hpair : [a, b]
      = [(Bytes.fill 16 1 : NodeId), (Bytes.fill 16 2 : NodeId)] :=
    hab.eq_of_length rfl
  obtain ⟨rfl, hb⟩ := List.cons.inj hpair
  rw [mesh_connections, if_pos rfl]
  exact Finset.mem_singleton.2 (List.cons.inj hb).1

/-- The secret of every layer is the packet's coins. -/
theorem drawn_agree {k i : Nat} {hop : HybridRouteHop} {dh : SymmetricKey}
    {out : SymmetricKey × List UInt8}
    (h : hybridAgree .drawn (drawnAt k) i hop dh = .ok out) :
    out.1 = Bytes.ofList 32 (leBytes 16 k) := by
  have hshared : ∀ kem : SymmetricKey,
      Prims.drawn.hybridSharedSecret dh kem "sphinx/hybrid-hop" = kem := by
    intro kem
    have hdrop : (dh.toList ++ kem.toList).drop 32 = kem.toList :=
      List.drop_left' dh.length_toList
    show Bytes.ofList 32 ((dh.toList ++ kem.toList).drop 32) = kem
    rw [hdrop, Bytes.ofList_toList]
  unfold hybridAgree Prims.encapsulateTo at h
  split at h
  · cases h
  next kem ciphertext hkem =>
    split at hkem
    · cases hkem
    · obtain rfl := Except.ok.inj h
      rw [hshared]
      exact congrArg Prod.fst (Option.some.inj hkem).symm

/-- The tag of a packet's layers is the start of its coins. -/
theorem stamps_drawn :
    (shortShipment bodies).stamps .drawn
      = (List.range bodies.length).flatMap fun k =>
        [((Bytes.fill 16 1 : NodeId), Bytes.ofList 16 (leBytes 16 k)),
          ((Bytes.fill 16 2 : NodeId), Bytes.ofList 16 (leBytes 16 k))] := by
  unfold Shipment.stamps
  refine List.flatMap_congr fun k _ => ?_
  obtain ⟨layers, hlayers, -, hids, -⟩ := Shipment.opens_of_honest
    (S := shortShipment bodies) drawn_dhCommutes mesh_honest k
  obtain ⟨-, -, hall⟩ := chainLayers_spec drawn_dhCommutes rfl hlayers
  have hcut : (Bytes.ofList 32 (leBytes 16 k)).toList.take 16
      = leBytes 16 k := by
    show ((leBytes 16 k ++ List.replicate 32 0).take 32).take 16 = _
    rw [List.take_take, Nat.min_eq_left (by decide),
      List.take_left' (length_leBytes 16 k)]
  have htag : ∀ l ∈ layers, Shipment.stamp .drawn l
      = (l.nodeId, Bytes.ofList 16 (leBytes 16 k)) := by
    intro l hl
    obtain ⟨i, hi, rfl⟩ := List.mem_iff_getElem.1 hl
    obtain ⟨-, _, _, -, hagree⟩ := hall.get (hall.length_eq ▸ hi) hi
    show (layers[i].nodeId,
      (Bytes.ofList 16 (layers[i].shared.toList.take 16) : Mac)) = _
    rw [show layers[i].shared = _ from drawn_agree hagree, hcut]
  rw [Shipment.layers_eq hlayers, List.map_congr_left htag]
  have hpair := congrArg (List.map fun id =>
    ((id : NodeId), (Bytes.ofList 16 (leBytes 16 k) : Mac))) hids
  rw [List.map_map] at hpair
  exact hpair

/-- Packets with coins of their own leave traces of their own. -/
theorem ready_drawn (hfew : bodies.length ≤ MAX_FRAGMENTS_PER_MESSAGE) :
    (shortShipment bodies).Ready .drawn meshNodes := by
  refine ⟨mesh_honest, ?_, fun st _ => ?_⟩
  · rw [stamps_drawn, List.nodup_flatMap]
    refine ⟨fun k _ => ?_, ?_⟩
    · refine List.nodup_cons.2 ⟨fun hmem => ?_, List.nodup_singleton _⟩
      have hids : (Bytes.fill 16 1 : NodeId) = Bytes.fill 16 2 :=
        congrArg Prod.fst (List.mem_singleton.1 hmem)
      exact absurd hids (by decide)
    · refine List.Pairwise.imp_of_mem ?_ List.nodup_range
      intro a b ha hb hne st hsta hstb
      have hta : st.2 = Bytes.ofList 16 (leBytes 16 a) := by
        rcases List.mem_pair.1 hsta with rfl | rfl <;> rfl
      have htb : st.2 = Bytes.ofList 16 (leBytes 16 b) := by
        rcases List.mem_pair.1 hstb with rfl | rfl <;> rfl
      have hbytes := congrArg Bytes.toList (hta.symm.trans htb)
      simp only [Bytes.toList_ofList (length_leBytes _ _)] at hbytes
      rw [List.mem_range] at ha hb
      have hbound : MAX_FRAGMENTS_PER_MESSAGE < 256 ^ 16 := by decide
      exact hne (leBytes_inj (by omega) (by omega) hbytes)
  · rw [mesh_seenTags]
    exact Finset.notMem_empty _

theorem drawn_packets
    (hfits : ∀ body ∈ bodies, body.length ≤ BODY_SIZE) :
    ∃ packets, bodyPackets .drawn drawnAt shortRoute 0 bodies
      = .ok packets := by
  have hmax : shortRoute.hops.length ≤ MAX_HOPS := by decide
  exact Shipment.packets_of_honest (S := shortShipment bodies)
    drawn_dhCommutes mesh_honest (List.cons_ne_nil _ _) hmax hfits

/-- Through the first hop, each packet at least once, and then through the
second what has come of them, in any order: this is an allowed run, and
one that settles. -/
theorem mesh_rounds (bodies : List (List UInt8))
    (packets : List SphinxPacket) {timely : Reading → Prop}
    {quiet : ReassemblyManager → ReassemblyManager → Prop}
    (htimely : timely firstReading) (first last : List Nat)
    (hfew : (first ++ last).length ≤ MAX_SEEN_TAGS)
    (hfirst : ∀ i < packets.length, i ∈ first)
    (hlast : ∀ i ∈ last, packets.length ≤ i)
    (hall : ∀ i, packets.length ≤ i → i < packets.length + first.length →
      i ∈ last) :
    let S := shortShipment bodies
    let net := S.start meshNodes packets
    let moves := deliveries firstReading (first ++ last)
    S.AllAllowed .drawn timely quiet net moves
      ∧ S.AllLinked .drawn net moves ∧ (net.run .drawn moves).Settled := by
  intro S net moves
  have hpackets : ∀ letter ∈ net.sent, ∃ packet,
      letter.msg = .sphinx packet := by
    intro letter hmem
    obtain ⟨packet, -, rfl⟩ := List.mem_map.1 hmem
    exact ⟨packet, rfl⟩
  have hlen : net.sent.length = packets.length := List.length_map _
  have hself := MixNet.grown_self hpackets
  refine ⟨Shipment.allAllowed_deliveries hself htimely fun id => ?_,
    Shipment.allLinked_deliveries hself mesh_linked,
    MixNet.settled_rounds hpackets ?_ (hlen.symm ▸ hfirst)
      (hlen.symm ▸ hlast) (hlen.symm ▸ hall)⟩
  · show (meshNodes id).mixNode.seenTags.card + 0 + _ ≤ _
    rw [mesh_seenTags, Finset.card_empty]
    omega
  · intro id next hnext
    have hconn : next ∈ (meshNodes id).connections := hnext
    rw [mesh_connections] at hconn
    split at hconn
    · rw [Finset.mem_singleton.1 hconn]
      rfl
    · exact absurd hconn (Finset.notMem_empty _)

end Mesh

-- ==== three fragments

/-- The reader of a type whose messages are not JSON. -/
def BodyType.reader? : BodyType → Option BodyKind
  | .computeRequest => some .computeRequest
  | .computeResponse => some .computeResponse
  | .paymentRequest => some .paymentRequest
  | .paymentConfirmation => some .paymentConfirmation
  | .verificationChallenge => some .challenge
  | .verificationResponse => some .response
  | .missingChunkGossip => some .gossip
  | .heartbeat => some .heartbeat
  | _ => none

/-- The readers of the bodies. -/
def readerCodec : Codec where
  parses t payload := t.reader?.any fun kind =>
    (kind.deserialize.run payload).toOption.isSome
  proposal _ := none

/-- What follows the type byte in an answer to a challenge. -/
def answerContent (resp : VerificationResponse) : List UInt8 :=
  resp.chunkId.toList
    ++ (beBytes 4 resp.segmentIndex.toNat
    ++ (resp.nonce.toList
    ++ ([flagByte resp.found] ++ withLength resp.segmentData)))

section Answer

variable {resp : VerificationResponse}

theorem serialize_answer
    (h : resp.segmentData.length ≤ MAX_SEGMENT_DATA_SIZE) :
    Verification.serializeResponse resp
      = .ok (BodyType.verificationResponse.byte :: answerContent resp) :=
  if_neg (Nat.not_lt.2 h)

theorem accepts_answer (now : Nat)
    (h : resp.segmentData.length ≤ MAX_SEGMENT_DATA_SIZE) :
    readerCodec.accepts .drawn now .verificationResponse
      (BodyType.verificationResponse.byte :: answerContent resp)
        = true := by
  have hreads : BodyKind.response.deserialize.Reads
      (BodyType.verificationResponse.byte :: answerContent resp) []
      (Body.response resp) :=
    Cursor.Reads.last (reads_response (serialize_answer h) [])
      (Cursor.Reads.pure _ [])
  have hread := hreads.run
  rw [List.append_nil] at hread
  show (BodyKind.response.deserialize.run _).toOption.isSome = true
  rw [hread]
  rfl

theorem length_answer :
    (BodyType.verificationResponse.byte :: answerContent resp).length
      = 74 + resp.segmentData.length := by
  unfold answerContent withLength
  simp only [List.length_cons, List.length_append, Bytes.length_toList,
    length_beBytes, List.length_nil]
  omega

end Answer

/-- An answer with 2000 bytes of a segment. -/
def segmentAnswer : VerificationResponse :=
  ⟨Bytes.fill 32 5, 0, Bytes.fill 32 6, List.replicate 2000 7, true⟩

/-- Three packets, the first of them delivered twice, and what the first
hop sends on delivered last to first: the answer reaches its handler. -/
theorem payload_delivered_segment :
    ∃ packets,
      createHybridPayloadPackets .drawn drawnAt
          (BodyType.verificationResponse.byte :: answerContent segmentAnswer)
          shortRoute.classical (fun _ => some (List.replicate 1184 0))
        = .ok packets
      ∧ let net := ((payloadShipment (Bytes.fill 16 9) shortRoute drawnAt
            (BodyType.verificationResponse.byte
              :: answerContent segmentAnswer)).start meshNodes packets).run
          .drawn (deliveries firstReading ([2, 0, 0, 1] ++ [6, 5, 4, 3, 4]))
        net.Settled
          ∧ (net.received (Bytes.fill 16 2)).length = 3
          ∧ (takeInbound .drawn readerCodec .full
              (fun i => ⟨200 + i % 100, Bytes.fill 16 1,
                IterOrder.bytewise⟩)
              0 (net.received (Bytes.fill 16 2)) idleDispatcher).1
            = [.handler .verificationResponse
              (BodyType.verificationResponse.byte
                :: answerContent segmentAnswer) none] := by
  have hdata : segmentAnswer.segmentData.length = 2000 :=
    List.length_replicate
  have haccepts : ∀ now, readerCodec.accepts .drawn now
      .verificationResponse (BodyType.verificationResponse.byte
        :: answerContent segmentAnswer) = true :=
    fun now => accepts_answer now (by rw [hdata]; decide)
  have hlen := @length_answer segmentAnswer
  rw [hdata] at hlen
  generalize answerContent segmentAnswer = content at haccepts hlen ⊢
  have hthree : (fragmentPayload
      (BodyType.verificationResponse.byte :: content)).length = 3 := by
    unfold fragmentPayload
    rw [hlen]
    rfl
  have hbodies : (payloadShipment (Bytes.fill 16 9) shortRoute drawnAt
      (BodyType.verificationResponse.byte :: content)).bodies.length = 3 :=
    (List.length_map _).trans hthree
  have hroute : effectiveRoute (fun _ => some (List.replicate 1184 0))
      shortRoute.classical = .ok shortRoute := by
    rfl
  obtain ⟨packets, hpackets⟩ :=
    drawn_packets (@length_body_payload (Bytes.fill 16 9) shortRoute drawnAt
      (BodyType.verificationResponse.byte :: content))
  have hok : createHybridPayloadPackets .drawn drawnAt
      (BodyType.verificationResponse.byte :: content)
      shortRoute.classical (fun _ => some (List.replicate 1184 0))
        = .ok packets := by
    unfold createHybridPayloadPackets
    rw [hroute]
    exact hpackets
  have hpacked : packets.length = 3 := by
    rw [← (bodyPackets_get hpackets).length_eq, List.length_zipIdx]
    exact hbodies
  obtain ⟨hallowed, hlinked, hsettled⟩ :=
    @mesh_rounds (payloadShipment (Bytes.fill 16 9) shortRoute drawnAt
        (BodyType.verificationResponse.byte :: content)).bodies packets
      (fun _ => True) (fun _ _ => True) trivial [2, 0, 0, 1]
      [6, 5, 4, 3, 4] (by decide) (by rw [hpacked]; decide)
      (by rw [hpacked]; decide) (by
        rw [hpacked]
        intro i hlow hhigh
        have hi : i < 7 := hhigh
        simp only [List.mem_cons, List.not_mem_nil, or_false]
        omega)
  obtain ⟨hcarried, hcomplete⟩ := payload_delivered .drawn drawn_dhCommutes
    drawn_aeadCorrect readerCodec .full nofun meshNodes (Bytes.fill 16 9)
    .verificationResponse content (by rw [hlen]; decide)
    shortRoute.classical (fun _ => some (List.replicate 1184 0)) drawnAt
    packets hok shortRoute hroute (ready_drawn (hbodies.trans_le (by decide))) _
    hallowed idleDispatcher idle_idleDispatcher 100
    ⟨le_refl _, le_refl _, le_refl _, le_refl _⟩
    (fun i => ⟨200 + i % 100, Bytes.fill 16 1, IterOrder.bytewise⟩)
    (fun i => by
      have hlt := Nat.mod_lt i (Nat.succ_pos 99)
      constructor
      · show 100 ≤ 200 + i % 100
        omega
      · show 200 + i % 100 < 100 + 300
        omega)
  have hreceived := hcomplete hlinked hsettled
  have hfinished := hcarried.finished hreceived nofun
  rw [hthree] at hreceived
  refine ⟨packets, hok, hsettled, hreceived, ?_⟩
  have hsome := List.getLast?_isSome.2 (List.length_pos_iff.1
    (Nat.lt_of_lt_of_eq (Nat.succ_pos 2) hreceived.symm))
  obtain ⟨b, hb⟩ := Option.isSome_iff_exists.1 hsome
  refine (hfinished b hb).1.trans ?_
  unfold callOf
  rw [if_pos (haccepts _)]
  rfl

end StaticNet
