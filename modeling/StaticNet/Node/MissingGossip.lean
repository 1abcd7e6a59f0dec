/-
How often a missing chunk is reported, and how much of it is remembered
(`send_missing_chunk_gossip` in `static-node/src/runner.rs`).

A call is a report when some connection takes a packet of it. The map
holds the pairs that passed its check inside the window. A pair is entered
before the peers are looked up, so a call that finds nobody to send to
silences its pair as well; as long as every pair that passes is sent, the
map holds every pair that was reported inside the window, with the time of
its last report (`Tracks`), and it only ever forgets what is older.

Old entries are looked for when the map is full, and only old ones go. A
map that is full of young ones takes another pair in all the same, and
exceeds its bound.
-/
import StaticNet.Lib.Exact
import StaticNet.Node.Proofs.FirstHop

namespace StaticNet

open Exact

-- ========= the calls

/-- A call, with the connections that take its packets. -/
structure GossipCall extends ChunkGossip where
  takes : NodeId → SphinxPacket → Bool

namespace GossipCall

def pair (g : GossipCall) : ContentId × ChunkId := (g.contentId, g.chunkId)

/-- The call where it finds this map. -/
def on (g : GossipCall) (recent : FMap (ContentId × ChunkId) Nat) :
    GossipCall := { g with recent := recent }

/-- Some connection takes a packet of the report. -/
def reports (P : Prims) (g : GossipCall) : Bool :=
  (g.sendMissingChunkGossip P).any fun s =>
    s.calls.any fun call => g.takes call.1 call.2

/-- A report would get out: there is a route to a hybrid-capable peer, the
packets of it can be built, and the connection of the peer takes one. -/
def Reaches (P : Prims) (g : GossipCall) : Prop :=
  ∃ peer ∈ g.peers, ∃ path packets,
    (g.turn peer.nodeId).route peer.nodeId = some path
      ∧ (g.turn peer.nodeId).packets P g.payload path = .ok packets
      ∧ ∃ packet ∈ packets, g.takes peer.nodeId packet = true

variable {P : Prims} {g : GossipCall}

/-- A pair is reported exactly when the map lets it pass and the report
gets out. -/
theorem reports_iff :
    g.reports P = true ↔ g.isNew = true ∧ g.Reaches P := by
  unfold reports ChunkGossip.sendMissingChunkGossip Reaches
  by_cases hnew : g.isNew = true
  · rw [if_pos hnew, List.any_eq_true]
    simp only [List.any_eq_true, List.mem_filterMap]
    constructor
    · rintro ⟨s, ⟨peer, hpeer, hs⟩, call, hcall, htakes⟩
      obtain ⟨path, packets, hroute, hpackets, rfl⟩ :=
        ChunkGossip.toPeer_eq_some_iff.1 hs
      obtain ⟨packet, hpacket, rfl⟩ := List.mem_map.1 hcall
      exact ⟨hnew, peer, hpeer, path, packets, hroute, hpackets, packet,
        hpacket, htakes⟩
    · rintro ⟨-, peer, hpeer, path, packets, hroute, hpackets, packet,
        hpacket, htakes⟩
      have hto := ChunkGossip.toPeer_eq_some_iff.2
        ⟨path, packets, hroute, hpackets, rfl⟩
      exact ⟨_, ⟨peer, hpeer, hto⟩, _, List.mem_map_of_mem hpacket, htakes⟩
  · rw [if_neg hnew]
    exact iff_of_false (fun h => by cases h) fun h => hnew h.1

end GossipCall

/-- `missing_gossip_recent` after some calls, what they reported and when,
and the time of the last of them. -/
structure GossipRun where
  recent : FMap (ContentId × ChunkId) Nat
  reported : List ((ContentId × ChunkId) × Nat)
  clock : Nat

namespace GossipRun

def start : GossipRun := ⟨∅, [], 0⟩

def step (P : Prims) (s : GossipRun) (g : GossipCall) : GossipRun where
  recent := (g.on s.recent).recorded
  reported :=
    if (g.on s.recent).reports P then s.reported ++ [(g.pair, g.now)]
    else s.reported
  clock := g.now

/-- The clock does not step back. -/
def Forward (s : GossipRun) (g : GossipCall) : Prop := s.clock ≤ g.now

/-- The pairs that were reported inside the window before `now`. -/
def within (reported : List ((ContentId × ChunkId) × Nat)) (now : Nat) :
    Finset (ContentId × ChunkId) :=
  ((reported.filter fun x =>
    now - x.2 < MISSING_GOSSIP_DEDUP_TTL_SECS).map Prod.fst).toFinset

/-- A call reports its pair only if it was not reported inside the
window. -/
def Once (P : Prims) (s : GossipRun) (g : GossipCall) : Prop :=
  (g.on s.recent).reports P = true → g.pair ∉ within s.reported g.now

/-- A call reports a pair that was not reported inside the window, as long
as fewer pairs than the map may hold were. -/
def Told (P : Prims) (s : GossipRun) (g : GossipCall) : Prop :=
  g.pair ∉ within s.reported g.now →
    (within s.reported g.now).card < MISSING_GOSSIP_DEDUP_MAX →
    (g.on s.recent).reports P = true

def Bounded (s : GossipRun) : Prop :=
  s.recent.len ≤ MISSING_GOSSIP_DEDUP_MAX

/-- A call for a pair that was not reported inside the window finds fewer
pairs reported there than the map may hold, and somebody to send to. -/
def Room (P : Prims) (s : GossipRun) (g : GossipCall) : Prop :=
  g.pair ∉ within s.reported g.now →
    (within s.reported g.now).card < MISSING_GOSSIP_DEDUP_MAX
      ∧ g.Reaches P

/-- The map against what was reported. -/
structure Tracks (s : GossipRun) : Prop where
  logged : ∀ p t, s.recent.get p = some t → (p, t) ∈ s.reported
  past : ∀ x ∈ s.reported, x.2 ≤ s.clock
  young : ∀ p t, (p, t) ∈ s.reported →
    s.clock - t < MISSING_GOSSIP_DEDUP_TTL_SECS →
    ∃ u, s.recent.get p = some u ∧ t ≤ u

-- ======== the window

variable {P : Prims} {s : GossipRun} {g : GossipCall}
  {p : ContentId × ChunkId} {now t : Nat}

theorem mem_within {reported : List ((ContentId × ChunkId) × Nat)} :
    p ∈ within reported now ↔ ∃ t, (p, t) ∈ reported
      ∧ now - t < MISSING_GOSSIP_DEDUP_TTL_SECS := by
  simp [within]

theorem card_within_le (reported : List ((ContentId × ChunkId) × Nat))
    (now : Nat) :
    (within reported now).card ≤ reported.length := by
  refine (List.toFinset_card_le _).trans ?_
  rw [List.length_map]
  exact List.length_filter_le _ _

theorem tracks_start : Tracks start where
  logged := by
    intro p t h
    cases h
  past := by
    intro x h
    cases h
  young := by
    intro p t h
    cases h

/-- The map holds exactly the pairs of the window, besides old ones. -/
theorem Tracks.mem_within (h : s.Tracks) (hforward : s.clock ≤ now) :
    p ∈ within s.reported now ↔ ∃ t, s.recent.get p = some t
      ∧ now - t < MISSING_GOSSIP_DEDUP_TTL_SECS := by
  rw [GossipRun.mem_within]
  constructor
  · rintro ⟨t, hmem, hyoung⟩
    obtain ⟨u, hget, hu⟩ := h.young p t hmem (by omega)
    exact ⟨u, hget, by omega⟩
  · rintro ⟨t, hget, hyoung⟩
    exact ⟨t, h.logged p t hget, hyoung⟩

theorem Tracks.within_subset (h : s.Tracks) (hforward : s.clock ≤ now) :
    within s.reported now ⊆ s.recent.keys := by
  intro p hp
  obtain ⟨t, hget, -⟩ := (h.mem_within hforward).1 hp
  exact FMap.mem_keys_of_get hget

-- ========== one call

/-- What the sweep of a full map leaves is young or was young before. -/
theorem get_swept : (g.on s.recent).swept.get p
    = if MISSING_GOSSIP_DEDUP_MAX ≤ s.recent.len then
        (s.recent.get p).filter fun sent =>
          g.now - sent < MISSING_GOSSIP_DEDUP_TTL_SECS
      else s.recent.get p := by
  unfold ChunkGossip.swept
  change FMap.get (if MISSING_GOSSIP_DEDUP_MAX ≤ s.recent.len then _
    else s.recent) p = _
  split
  · rw [FMap.get_retain]
    rfl
  · rfl

theorem get_of_swept (h : (g.on s.recent).swept.get p = some t) :
    s.recent.get p = some t := by
  rw [get_swept] at h
  split at h
  · exact (Option.filter_eq_some_iff.1 h).1
  · exact h

theorem swept_of_young (h : s.recent.get p = some t)
    (hyoung : g.now - t < MISSING_GOSSIP_DEDUP_TTL_SECS) :
    (g.on s.recent).swept.get p = some t := by
  rw [get_swept]
  split
  · exact Option.filter_eq_some_iff.2 ⟨h, decide_eq_true hyoung⟩
  · exact h

/-- The map lets exactly the pairs pass that were not reported inside the
window. -/
theorem Tracks.isNew_iff (h : s.Tracks) (hforward : s.Forward g) :
    (g.on s.recent).isNew = true ↔ g.pair ∉ within s.reported g.now := by
  rw [h.mem_within hforward]
  unfold ChunkGossip.isNew
  rw [Option.all_eq_true]
  constructor
  · rintro hold ⟨t, hget, hyoung⟩
    have hlate := of_decide_eq_true (hold t (swept_of_young hget hyoung))
    exact absurd hyoung (Nat.not_lt.2 hlate)
  · intro hnone t hget
    refine decide_eq_true (Nat.le_of_not_lt fun hyoung => hnone ?_)
    exact ⟨t, get_of_swept hget, hyoung⟩

theorem length_reported_step :
    (s.step P g).reported.length ≤ s.reported.length + 1 := by
  unfold step
  dsimp only
  split
  · rw [List.length_append, List.length_singleton]
  · exact Nat.le_succ _

theorem step_of_known (h : (g.on s.recent).isNew = false) :
    s.step P g = ⟨(g.on s.recent).swept, s.reported, g.now⟩ := by
  have hsilent : (g.on s.recent).reports P = false := by
    rw [Bool.eq_false_iff, Ne, GossipCall.reports_iff, h]
    exact fun hreport => Bool.false_ne_true hreport.1
  unfold step ChunkGossip.recorded
  rw [h, hsilent]
  rfl

/-- A pair that passes is entered, whether or not it is reported. -/
theorem recent_of_new (h : (g.on s.recent).isNew = true) :
    (s.step P g).recent = (g.on s.recent).swept.insert g.pair g.now := by
  unfold step ChunkGossip.recorded
  rw [h]
  rfl

theorem step_of_report (h : (g.on s.recent).reports P = true) :
    s.step P g = ⟨(g.on s.recent).swept.insert g.pair g.now,
      s.reported ++ [(g.pair, g.now)], g.now⟩ := by
  have hnew := (GossipCall.reports_iff.1 h).1
  unfold step ChunkGossip.recorded
  rw [h, hnew]
  rfl

/-- Sweeping forgets nothing of the window. -/
theorem Tracks.swept (h : s.Tracks) (hforward : s.Forward g) :
    Tracks ⟨(g.on s.recent).swept, s.reported, g.now⟩ where
  logged := fun p t hget => h.logged p t (get_of_swept hget)
  past := fun x hx => (h.past x hx).trans hforward
  young := by
    intro p t hmem hyoung
    have hclock : s.clock ≤ g.now := hforward
    have hnow : g.now - t < MISSING_GOSSIP_DEDUP_TTL_SECS := hyoung
    obtain ⟨u, hget, hu⟩ := h.young p t hmem (by omega)
    exact ⟨u, swept_of_young hget (by omega), hu⟩

/-- A new report is tracked with its time. -/
theorem Tracks.report {m : FMap (ContentId × ChunkId) Nat}
    {reported : List ((ContentId × ChunkId) × Nat)}
    (h : Tracks ⟨m, reported, now⟩) :
    Tracks ⟨m.insert p now, reported ++ [(p, now)], now⟩ where
  logged := by
    intro q t hget
    rw [FMap.get_insert] at hget
    split at hget
    next heq =>
        rw [heq, ← Option.some.inj hget]
        exact List.mem_append_right _ List.mem_cons_self
    next => exact List.mem_append_left _ (h.logged q t hget)
  past := by
    intro x hx
    rcases List.mem_append.1 hx with hx | hx
    · exact h.past x hx
    · rw [List.mem_singleton.1 hx]
  young := by
    intro q t hmem hyoung
    dsimp only
    by_cases hq : q = p
    · refine ⟨now, by rw [hq, FMap.get_insert_self], ?_⟩
      rcases List.mem_append.1 hmem with hmem | hmem
      · exact h.past _ hmem
      · rw [(Prod.mk.inj (List.mem_singleton.1 hmem)).2]
    · rw [FMap.get_insert_ne _ _ hq]
      refine h.young q t ((List.mem_append.1 hmem).resolve_right ?_) hyoung
      exact fun hlast => hq (Prod.mk.inj (List.mem_singleton.1 hlast)).1

/-- A call with room is tracked: if its pair passes, it is reported. -/
theorem Tracks.step (h : s.Tracks) (hforward : s.Forward g)
    (hroom : s.Room P g) : (s.step P g).Tracks := by
  cases hnew : (g.on s.recent).isNew with
  | false =>
      rw [step_of_known hnew]
      exact h.swept hforward
  | true =>
      have hreaches := (hroom ((h.isNew_iff hforward).1 hnew)).2
      rw [step_of_report (GossipCall.reports_iff.2 ⟨hnew, hreaches⟩)]
      exact (h.swept hforward).report

-- ========= the bound

theorem len_swept_le : (g.on s.recent).swept.len ≤ s.recent.len := by
  refine Finset.card_le_card fun p hp => ?_
  obtain ⟨t, hget⟩ := (FMap.mem_keys_iff _ p).1 hp
  exact FMap.mem_keys_of_get (get_of_swept hget)

/-- A full map is swept down to the window. -/
theorem Tracks.len_swept (h : s.Tracks) (hforward : s.Forward g)
    (hfull : MISSING_GOSSIP_DEDUP_MAX ≤ s.recent.len) :
    (g.on s.recent).swept.len = (within s.reported g.now).card := by
  refine congrArg Finset.card (Finset.ext fun p => ?_)
  rw [h.mem_within hforward, FMap.mem_keys_iff]
  refine exists_congr fun t => ?_
  rw [get_swept, if_pos hfull, Option.filter_eq_some_iff, decide_eq_true_eq]

/-- A pair that passes keeps the bound exactly when the window is not
full. -/
theorem Tracks.bounded_of_new_iff (h : s.Tracks) (hforward : s.Forward g)
    (hnew : (g.on s.recent).isNew = true) :
    (s.step P g).Bounded
      ↔ (within s.reported g.now).card < MISSING_GOSSIP_DEDUP_MAX := by
  have hout := (h.isNew_iff hforward).1 hnew
  unfold Bounded
  rw [recent_of_new hnew]
  by_cases hfull : MISSING_GOSSIP_DEDUP_MAX ≤ s.recent.len
  · have habsent : (g.on s.recent).swept.contains g.pair = false := by
      rw [FMap.contains_eq_false, FMap.mem_keys_iff]
      rintro ⟨t, hget⟩
      refine hout ((h.mem_within hforward).2 ⟨t, get_of_swept hget, ?_⟩)
      rw [get_swept, if_pos hfull] at hget
      exact of_decide_eq_true (Option.filter_eq_some_iff.1 hget).2
    have hlen := FMap.len_insert_of_absent g.now habsent
    rw [h.len_swept hforward hfull] at hlen
    rw [hlen]
    exact Nat.succ_le_iff
  · refine iff_of_true ?_ ?_
    · have hone := Finset.card_insert_le g.pair (g.on s.recent).swept.keys
      have hswept := len_swept_le (s := s) (g := g)
      unfold FMap.len at hswept hfull
      refine le_trans hone ?_
      omega
    · have hsub := Finset.card_le_card (h.within_subset hforward)
      exact lt_of_le_of_lt hsub (Nat.lt_of_not_le hfull)

/-- One call does what it should and keeps the bound exactly when it has
room. -/
theorem Tracks.lawful_step_iff (h : s.Tracks) (hforward : s.Forward g)
    (hbounded : s.Bounded) :
    ((s.Once P g ∧ s.Told P g) ∧ (s.step P g).Bounded) ↔ s.Room P g := by
  have hpasses := h.isNew_iff hforward
  have hreports : (g.on s.recent).reports P = true
      ↔ (g.on s.recent).isNew = true ∧ g.Reaches P :=
    GossipCall.reports_iff
  cases hnew : (g.on s.recent).isNew with
  | false =>
      have hin : g.pair ∈ within s.reported g.now := by
        by_contra hout
        rw [hpasses.2 hout] at hnew
        cases hnew
      refine iff_of_true ⟨⟨fun hreport => ?_, fun hout => ?_⟩, ?_⟩
        fun hout => absurd hin hout
      · rw [hnew] at hreports
        exact absurd (hreports.1 hreport).1 Bool.false_ne_true
      · exact absurd hin hout
      · rw [step_of_known hnew]
        exact len_swept_le.trans hbounded
  | true =>
      have hout := hpasses.1 hnew
      rw [h.bounded_of_new_iff hforward hnew]
      constructor
      · rintro ⟨⟨-, htold⟩, hcard⟩ -
        exact ⟨hcard, (hreports.1 (htold hout hcard)).2⟩
      · intro hroom
        obtain ⟨hcard, hreaches⟩ := hroom hout
        exact ⟨⟨fun _ => hout, fun _ _ => hreports.2 ⟨hnew, hreaches⟩⟩,
          hcard⟩

-- =========== the run

variable {gs : List GossipCall}

/-- Calls that all reach somebody find room as long as they are few. -/
theorem room_of_few
    (hfew : s.reported.length + gs.length ≤ MISSING_GOSSIP_DEDUP_MAX)
    (hreach : ∀ g ∈ gs, g.Reaches P) :
    Along (step P) (Room P) s gs := by
  induction gs generalizing s with
  | nil => trivial
  | cons g gs ih =>
      rw [List.length_cons] at hfew
      refine ⟨fun _ => ⟨?_, hreach g List.mem_cons_self⟩, ih ?_ ?_⟩
      · have hcard := card_within_le s.reported g.now
        omega
      · have hone := length_reported_step (P := P) (s := s) (g := g)
        omega
      · exact fun g' hg' => hreach g' (List.mem_cons_of_mem _ hg')

theorem along_tracks (h : s.Tracks) (hforward : Along (step P) Forward s gs)
    (hroom : Along (step P) (Room P) s gs) :
    (gs.foldl (step P) s).Tracks := by
  induction gs generalizing s with
  | nil => exact h
  | cons g gs ih => exact ih (h.step hforward.1 hroom.1) hforward.2 hroom.2

/-- The laws of a run against the room its calls find. -/
theorem laws_iff_room (hforward : Along (step P) Forward start gs) :
    (Along (step P) (fun s g => s.Once P g ∧ s.Told P g) start gs
        ∧ Always (step P) Bounded start gs)
      ↔ Along (step P) (Room P) start gs :=
  along_and_always_iff_given (fun _ _ hf ht hroom => ht.step hf hroom)
    (fun _ _ hf ht hb => ht.lawful_step_iff hf hb) hforward tracks_start
    (Nat.zero_le _)

end GossipRun

open GossipRun

/-- Over all calls at times that do not go back: no pair is reported twice
inside the window, a pair that was not reported there is reported as long
as the window is not full, and the map stays within its bound, exactly when
every call for such a pair finds room and somebody to send to. -/
theorem missing_gossip_bounded_iff (P : Prims) (gs : List GossipCall)
    (hforward : Along (GossipRun.step P) Forward start gs) :
    (Along (GossipRun.step P) (fun s g => s.Once P g ∧ s.Told P g) start gs
        ∧ Always (GossipRun.step P) Bounded start gs)
      ↔ Along (GossipRun.step P) (Room P) start gs :=
  laws_iff_room hforward

/-- A chunk is missed, and four connected peers are told. -/
def lostCall (chunkId : ChunkId) (now : Nat) : GossipCall :=
  { lostReport with
    chunkId := chunkId
    now := now
    takes := fun _ _ => true }

theorem lostCall_reaches (chunkId : ChunkId) (now : Nat) :
    (lostCall chunkId now).Reaches .plain := by
  obtain ⟨path, hroute, hseal⟩ := fourTurn_route
  obtain ⟨packets, hpackets⟩ := (Turn.packets_ok_iff hroute).2
    (hseal (lostCall chunkId now).payload)
  obtain ⟨packet, hpacket⟩ :=
    List.exists_mem_of_ne_nil _ (Turn.packets_made hroute hpackets).1
  exact ⟨sizedNode 4, lostReport_fourth, path, packets, hroute, hpackets,
    packet, hpacket, rfl⟩

theorem forward_of_pairwise {s : GossipRun} {P : Prims}
    {gs : List GossipCall} (hstart : ∀ g ∈ gs, s.clock ≤ g.now)
    (h : gs.Pairwise fun g g' => g.now ≤ g'.now) :
    Along (GossipRun.step P) Forward s gs := by
  induction gs generalizing s with
  | nil => trivial
  | cons g gs ih =>
      rw [List.pairwise_cons] at h
      exact ⟨hstart g List.mem_cons_self, ih h.1 h.2⟩

/-- One chunk, missed at once, just inside the window and after it. -/
def missedThrice : List GossipCall :=
  [0, 599, 600].map (lostCall (Bytes.zero 32))

theorem missedThrice_forward :
    Along (GossipRun.step .plain) Forward start missedThrice :=
  forward_of_pairwise (fun _ _ => Nat.zero_le _)
    (List.pairwise_map.2 (by decide))

theorem missedThrice_reaches :
    ∀ g ∈ missedThrice, g.Reaches .plain := by
  intro g hg
  obtain ⟨now, -, rfl⟩ := List.mem_map.1 hg
  exact lostCall_reaches _ now

/-- It is reported at once and after the window, and not inside it. -/
theorem missing_gossip_bounded_iff_thrice :
    Along (GossipRun.step .plain) (fun s g => s.Once .plain g
        ∧ s.Told .plain g) start missedThrice
      ∧ Always (GossipRun.step .plain) Bounded start missedThrice :=
  (missing_gossip_bounded_iff .plain missedThrice
    missedThrice_forward).2 (room_of_few (by decide) missedThrice_reaches)

/-- The report of the `i`-th of many missing chunks, at time 0. -/
def missAt (i : Nat) : GossipCall :=
  lostCall (Bytes.ofList 32 (leBytes 32 i)) 0

def misses (n : Nat) : List GossipCall := (List.range n).map missAt

theorem missAt_pair_inj {i j : Nat} (hi : i < 256 ^ 32) (hj : j < 256 ^ 32)
    (h : (missAt i).pair = (missAt j).pair) : i = j := by
  have hlist := congrArg Bytes.toList (Prod.mk.inj h).2
  have hids : (Bytes.ofList 32 (leBytes 32 i)).toList
      = (Bytes.ofList 32 (leBytes 32 j)).toList := hlist
  rw [Bytes.toList_ofList (length_leBytes ..),
    Bytes.toList_ofList (length_leBytes ..)] at hids
  exact leBytes_inj hi hj hids

theorem misses_succ (n : Nat) : misses (n + 1) = misses n ++ [missAt n] := by
  unfold misses
  rw [List.range_succ, List.map_append]
  rfl

theorem misses_forward (n : Nat) :
    Along (GossipRun.step .plain) Forward start (misses n) :=
  forward_of_pairwise (fun _ _ => Nat.zero_le _)
    (List.pairwise_map.2 (List.pairwise_iff_forall_sublist.2
      fun _ => Nat.le_refl 0))

/-- Up to the bound the map tracks what is reported. -/
theorem misses_tracks {n : Nat} (hn : n ≤ MISSING_GOSSIP_DEDUP_MAX) :
    ((misses n).foldl (GossipRun.step .plain) start).Tracks := by
  refine along_tracks tracks_start (misses_forward n) (room_of_few ?_ ?_)
  · unfold misses
    rw [List.length_map, List.length_range]
    exact (Nat.zero_add n).trans_le hn
  · intro g hg
    obtain ⟨i, -, rfl⟩ := List.mem_map.1 hg
    exact lostCall_reaches _ 0

theorem small_of_le_max {i n : Nat} (hi : i < n)
    (hn : n ≤ MISSING_GOSSIP_DEDUP_MAX + 1) : i < 256 ^ 32 := by
  have hmax : MISSING_GOSSIP_DEDUP_MAX + 1 ≤ 256 ^ 32 := by decide
  omega

/-- Each of them is another chunk, and all are reported. -/
theorem misses_reported {n : Nat} (hn : n ≤ MISSING_GOSSIP_DEDUP_MAX) :
    ((misses n).foldl (GossipRun.step .plain) start).reported
      = (List.range n).map fun i => ((missAt i).pair, 0) := by
  induction n with
  | zero => rfl
  | succ n ih =>
      have hn' : n ≤ MISSING_GOSSIP_DEDUP_MAX := Nat.le_of_succ_le hn
      have hforward := misses_forward (n + 1)
      rw [misses_succ, along_append] at hforward
      have hreported := ih hn'
      have hnew := ((misses_tracks hn').isNew_iff hforward.2.1).2 (by
        rw [hreported, mem_within]
        rintro ⟨t, hmem, -⟩
        obtain ⟨i, hi, heq⟩ := List.mem_map.1 hmem
        rw [List.mem_range] at hi
        have hpair := missAt_pair_inj (small_of_le_max hi (by omega))
          (small_of_le_max (Nat.lt_succ_self n) (by omega))
          (Prod.mk.inj heq).1
        omega)
      rw [misses_succ, List.foldl_append, List.range_succ, List.map_append,
        ← hreported]
      show (GossipRun.step _ _ _).reported = _
      rw [step_of_report (GossipCall.reports_iff.2
        ⟨hnew, lostCall_reaches _ 0⟩)]
      rfl

/-- A report that finds the map full of young pairs. -/
theorem misses_no_room {n : Nat} (hn : n = MISSING_GOSSIP_DEDUP_MAX) :
    ¬ Along (GossipRun.step .plain) (Room .plain) start
      (misses (n + 1)) := by
  intro h
  rw [misses_succ, along_append] at h
  have hroom := h.2.1
  unfold Room within at hroom
  rw [misses_reported hn.le, ← hn] at hroom
  have hkeys : (((List.range n).map fun i =>
      ((missAt i).pair, 0)).filter fun x =>
        (missAt n).now - x.2 < MISSING_GOSSIP_DEDUP_TTL_SECS).map Prod.fst
      = (List.range n).map fun i => (missAt i).pair := by
    rw [List.filter_eq_self.2, List.map_map]
    · rfl
    · intro x hx
      obtain ⟨i, -, rfl⟩ := List.mem_map.1 hx
      rfl
  have hlarge : ∀ i ≤ n, i < 256 ^ 32 := fun i hi =>
    small_of_le_max (Nat.lt_succ_of_le hi) (by omega)
  have hnodup : ((List.range n).map fun i => (missAt i).pair).Nodup := by
    refine List.Nodup.map_on (fun i hi j hj heq => ?_) List.nodup_range
    rw [List.mem_range] at hi hj
    exact missAt_pair_inj (hlarge i hi.le) (hlarge j hj.le) heq
  rw [hkeys, List.toFinset_card_of_nodup hnodup, List.length_map,
    List.length_range] at hroom
  refine absurd (hroom ?_).1 (Nat.lt_irrefl _)
  rw [List.mem_toFinset, List.mem_map]
  rintro ⟨i, hi, heq⟩
  rw [List.mem_range] at hi
  have hpair := missAt_pair_inj (hlarge i hi.le) (hlarge n (Nat.le_refl n)) heq
  omega

/-- One chunk more than the map may hold, all missed in the same second
and all reported: the map outgrows its bound. -/
theorem missing_gossip_overflow : ¬ ∀ (P : Prims) (gs : List GossipCall),
    Along (GossipRun.step P) Forward start gs →
    Along (GossipRun.step P) (fun s g => s.Once P g ∧ s.Told P g) start gs
      ∧ Always (GossipRun.step P) Bounded start gs := by
  intro h
  obtain ⟨n, hn⟩ : ∃ n, n = MISSING_GOSSIP_DEDUP_MAX := ⟨_, rfl⟩
  have hforward := misses_forward (n + 1)
  have hlaws := h .plain _ hforward
  exact misses_no_room hn ((laws_iff_room hforward).1 hlaws)

end StaticNet
