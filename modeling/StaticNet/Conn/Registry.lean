/-
The connection registry (`connections` of `static-mesh/src/transport.rs`)
against the connection loops that serve it.

# What installs and what removes

`finish_inbound_handshake` and `connect_to_peer` end alike: a channel is
made, its sender goes into the map under the peer's id, and a loop is
spawned on the receiver. When a loop is over it removes the entry of its
peer, whichever connection's sender stands there. Each lock section is
an event here, so that handshakes and endings interleave at every point.
A loop counts as running from its installation on, since its receiver
exists from then on.

# Where it breaks

The map knows peers and the loops are per connection. While one loop for
a peer runs, another one's ending takes the entry away
(`sender_lost`); and the ending of the loop whose sender is registered
leaves a dead sender to any older loop that still runs.

# The argument

`TracksLive` is what the registry is for. `step_tracks_iff` says of each
event when it keeps `TracksLive`: only the end of a loop and its clean-up can
fail to, and exactly when another loop of the peer is running and has no
sender registered afterwards. The run theorem is the exactness rule.
-/
import StaticNet.Lib.Exact
import StaticNet.Lib.FMap
import StaticNet.Storage.Basic

namespace StaticNet

open Exact

-- ============= state

/-- How far a connection loop is: serving its connection, over, or over
with its peer remembered for heal detection. -/
inductive LoopPhase
  | running
  | over
  | remembered
deriving DecidableEq

/-- The registry with the loops: a connection is a number, and its
sender is known by it. -/
structure ConnRegistry where
  connections : FMap NodeId Nat
  previouslyConnected : FMap NodeId Unit
  loops : FMap Nat (NodeId × LoopPhase)
  next : Nat

/-- The lock sections of a handshake's tail and of a loop's end. -/
inductive ConnEvent
  /-- a handshake, inbound or outbound, installs a sender for the peer -/
  | install (peer : NodeId)
  /-- it looks whether the peer was connected before -/
  | healCheck (peer : NodeId)
  /-- a loop breaks off -/
  | finish (conn : Nat)
  /-- its peer is remembered -/
  | remember (conn : Nat)
  /-- the entry of its peer is removed -/
  | cleanup (conn : Nat)
deriving DecidableEq

namespace ConnRegistry

def new : ConnRegistry := ⟨∅, ∅, ∅, 0⟩

/-- The peer of a loop that is in this phase. -/
def loopAt (r : ConnRegistry) (conn : Nat) (phase : LoopPhase) :
    Option NodeId :=
  (r.loops.get conn).bind fun l => if l.2 = phase then some l.1 else none

/-- One section; one whose loop is not that far does nothing. -/
def step (r : ConnRegistry) : ConnEvent → ConnRegistry
  | .install peer =>
      { r with
        connections := r.connections.insert peer r.next
        loops := r.loops.insert r.next (peer, .running)
        next := r.next + 1 }
  | .healCheck peer =>
      { r with previouslyConnected := r.previouslyConnected.erase peer }
  | .finish conn =>
      match r.loopAt conn .running with
      | some peer => { r with loops := r.loops.insert conn (peer, .over) }
      | none => r
  | .remember conn =>
      match r.loopAt conn .over with
      | some peer =>
          { r with
            previouslyConnected := r.previouslyConnected.insert peer ()
            loops := r.loops.insert conn (peer, .remembered) }
      | none => r
  | .cleanup conn =>
      match r.loopAt conn .remembered with
      | some peer =>
          { r with
            connections := r.connections.erase peer
            loops := r.loops.erase conn }
      | none => r

/-- The connection's loop serves the peer. -/
def Serves (r : ConnRegistry) (conn : Nat) (peer : NodeId) : Prop :=
  r.loops.get conn = some (peer, .running)

/-- A running loop of the peer has its sender in the map. -/
def Reaches (r : ConnRegistry) (peer : NodeId) : Prop :=
  ∃ conn, r.connections.get peer = some conn ∧ r.Serves conn peer

/-- The registry tracks live connections: a peer with a running loop is
reached. -/
def TracksLive (r : ConnRegistry) : Prop :=
  ∀ conn peer, r.Serves conn peer → r.Reaches peer

/-- Connection numbers are fresh. -/
def Fresh (r : ConnRegistry) : Prop :=
  ∀ conn, r.next ≤ conn → r.loops.get conn = none

/-- The section takes nothing from a running loop: a loop that ends is
not the registered one, or is the peer's last; an entry is removed when
no loop of the peer runs. -/
def Undisturbed (r : ConnRegistry) : ConnEvent → Prop
  | .finish conn => ∀ peer, r.loopAt conn .running = some peer →
      r.connections.get peer ≠ some conn
        ∨ ∀ other, r.Serves other peer → other = conn
  | .cleanup conn => ∀ peer, r.loopAt conn .remembered = some peer →
      ∀ other, ¬ r.Serves other peer
  | _ => True

end ConnRegistry

open ConnRegistry

-- ========= the loops

variable {r : ConnRegistry} {conn other : Nat} {peer p : NodeId}
  {phase : LoopPhase}

theorem loopAt_eq_some :
    r.loopAt conn phase = some peer
      ↔ r.loops.get conn = some (peer, phase) := by
  unfold loopAt
  cases h : r.loops.get conn with
  | none => simp
  | some l =>
      obtain ⟨q, ph⟩ := l
      by_cases hph : ph = phase <;> simp [hph]

/-- Of a loop that changes phase, only whether it runs matters. -/
theorem get_set_loop {v : NodeId × LoopPhase} (h : v.2 ≠ .running)
    (hconn : ¬ r.Serves conn p) :
    (r.loops.insert conn v).get other = some (p, .running)
      ↔ r.Serves other p := by
  by_cases heq : other = conn
  · subst heq
    rw [FMap.get_insert_self]
    refine ⟨fun hv => ?_, fun hs => absurd hs hconn⟩
    exact absurd (congrArg Prod.snd (Option.some.inj hv)) h
  · rw [FMap.get_insert_ne _ _ heq]
    exact Iff.rfl

theorem not_serves_of_loopAt (h : r.loopAt conn phase = some peer)
    (hphase : phase ≠ .running) : ¬ r.Serves conn p := by
  intro hs
  have hget := loopAt_eq_some.1 h
  rw [hs] at hget
  exact hphase (congrArg Prod.snd (Option.some.inj hget)).symm

theorem serves_unique {q : NodeId} (h : r.Serves conn p)
    (h' : r.Serves conn q) : p = q := by
  unfold Serves at h h'
  rw [h] at h'
  exact congrArg Prod.fst (Option.some.inj h')

/-- After an installation the new loop serves its peer, and the others
go on. -/
theorem serves_install (hf : r.Fresh) :
    (r.step (.install peer)).Serves other p
      ↔ (other = r.next ∧ p = peer) ∨ r.Serves other p := by
  show (r.loops.insert r.next (peer, .running)).get other
    = some (p, .running) ↔ _
  by_cases heq : other = r.next
  · subst heq
    have hnone := hf r.next le_rfl
    rw [FMap.get_insert_self]
    unfold Serves
    rw [hnone]
    simp [eq_comm]
  · rw [FMap.get_insert_ne _ _ heq]
    simp [Serves, heq]

/-- After a loop's end the others go on. -/
theorem serves_finish (h : r.loopAt conn .running = some peer) :
    (r.step (.finish conn)).Serves other p
      ↔ other ≠ conn ∧ r.Serves other p := by
  have hstep : (r.step (.finish conn)).loops
      = r.loops.insert conn (peer, .over) := by
    simp only [step, h]
  unfold Serves
  rw [hstep]
  by_cases heq : other = conn
  · subst heq
    rw [FMap.get_insert_self]
    simp
  · rw [FMap.get_insert_ne _ _ heq]
    simp [heq]

/-- The rest of a loop's end stops no loop. -/
theorem serves_remember :
    (r.step (.remember conn)).Serves other p ↔ r.Serves other p := by
  cases h : r.loopAt conn .over with
  | none => simp only [step, h]
  | some peer =>
      have hstep : (r.step (.remember conn)).loops
          = r.loops.insert conn (peer, .remembered) := by
        simp only [step, h]
      unfold Serves
      rw [hstep]
      exact get_set_loop (by simp) (not_serves_of_loopAt h (by simp))

theorem serves_cleanup :
    (r.step (.cleanup conn)).Serves other p ↔ r.Serves other p := by
  cases h : r.loopAt conn .remembered with
  | none => simp only [step, h]
  | some peer =>
      have hstep : (r.step (.cleanup conn)).loops = r.loops.erase conn := by
        simp only [step, h]
      unfold Serves
      rw [hstep]
      by_cases heq : other = conn
      · subst heq
        rw [FMap.get_erase_self]
        have hno := not_serves_of_loopAt (p := p) h (by simp)
        exact ⟨fun hs => (Option.some_ne_none _ hs.symm).elim,
          fun hs => absurd hs hno⟩
      · rw [FMap.get_erase_ne _ heq]

-- ========== one step

theorem fresh_step (e : ConnEvent) (h : r.Fresh) : (r.step e).Fresh := by
  have hset : ∀ {c : Nat} {v v' : NodeId × LoopPhase},
      r.loops.get c = some v → ∀ i, r.next ≤ i →
        (r.loops.insert c v').get i = none := by
    intro c v v' hc i hi
    have hne : i ≠ c := by
      intro heq
      rw [heq] at hi
      rw [h c hi] at hc
      cases hc
    rw [FMap.get_insert_ne _ _ hne]
    exact h i hi
  cases e with
  | install peer =>
      intro i hi
      have hi' : r.next + 1 ≤ i := hi
      show (r.loops.insert r.next (peer, .running)).get i = none
      rw [FMap.get_insert_ne _ _ (by omega)]
      exact h i (by omega)
  | healCheck peer => exact h
  | finish conn =>
      cases hat : r.loopAt conn .running with
      | none => simpa only [step, hat] using h
      | some peer =>
          simp only [step, hat]
          exact hset (loopAt_eq_some.1 hat)
  | remember conn =>
      cases hat : r.loopAt conn .over with
      | none => simpa only [step, hat] using h
      | some peer =>
          simp only [step, hat]
          exact hset (loopAt_eq_some.1 hat)
  | cleanup conn =>
      cases hat : r.loopAt conn .remembered with
      | none => simpa only [step, hat] using h
      | some peer =>
          simp only [step, hat]
          intro i hi
          by_cases heq : i = conn
          · subst heq
            exact FMap.get_erase_self _ _
          · show (r.loops.erase conn).get i = none
            rw [FMap.get_erase_ne _ heq]
            exact h i hi

theorem tracks_install (hf : r.Fresh) (h : r.TracksLive) :
    (r.step (.install peer)).TracksLive := by
  intro c q hs
  by_cases hq : q = peer
  · refine ⟨r.next, ?_, (serves_install hf).2 (.inl ⟨rfl, hq⟩)⟩
    rw [hq]
    exact FMap.get_insert_self _ _ _
  · have hs' : r.Serves c q :=
      ((serves_install hf).1 hs).resolve_left fun hnew => hq hnew.2
    obtain ⟨c', hget, hserves⟩ := h c q hs'
    refine ⟨c', ?_, (serves_install hf).2 (.inr hserves)⟩
    show (r.connections.insert peer r.next).get q = some c'
    rw [FMap.get_insert_ne _ _ hq]
    exact hget

theorem tracks_finish_iff (h : r.TracksLive) :
    (r.step (.finish conn)).TracksLive ↔ r.Undisturbed (.finish conn) := by
  cases hat : r.loopAt conn .running with
  | none =>
      have hstep : r.step (.finish conn) = r := by simp only [step, hat]
      rw [hstep]
      refine ⟨fun _ peer hpeer => ?_, fun _ => h⟩
      rw [hat] at hpeer
      cases hpeer
  | some peer =>
      have hserves : r.Serves conn peer := loopAt_eq_some.1 hat
      have hconns : (r.step (.finish conn)).connections = r.connections := by
        simp only [step, hat]
      constructor
      · intro ht q hq
        rw [hat] at hq
        cases hq
        by_cases hreg : r.connections.get peer = some conn
        · right
          intro other hother
          by_contra hne
          obtain ⟨c, hget, hs⟩ :=
            ht other peer ((serves_finish hat).2 ⟨hne, hother⟩)
          rw [hconns, hreg] at hget
          exact ((serves_finish hat).1 hs).1 (Option.some.inj hget).symm
        · exact .inl hreg
      · intro hu c q hs
        obtain ⟨hne, hbefore⟩ := (serves_finish hat).1 hs
        obtain ⟨c', hget, hserves'⟩ := h c q hbefore
        by_cases heq : c' = conn
        · -- the registered loop ends: it was the last one of its peer
          subst heq
          obtain rfl := serves_unique hserves' hserves
          rcases hu q hat with hreg | hlast
          · exact absurd hget hreg
          · exact absurd (hlast c hbefore) hne
        · refine ⟨c', ?_, (serves_finish hat).2 ⟨heq, hserves'⟩⟩
          rw [hconns]
          exact hget

theorem tracks_cleanup_iff (h : r.TracksLive) :
    (r.step (.cleanup conn)).TracksLive ↔ r.Undisturbed (.cleanup conn) := by
  cases hat : r.loopAt conn .remembered with
  | none =>
      have hstep : r.step (.cleanup conn) = r := by simp only [step, hat]
      rw [hstep]
      refine ⟨fun _ peer hpeer => ?_, fun _ => h⟩
      rw [hat] at hpeer
      cases hpeer
  | some peer =>
      have hconns : (r.step (.cleanup conn)).connections
          = r.connections.erase peer := by simp only [step, hat]
      constructor
      · intro ht q hq other hother
        rw [hat] at hq
        cases hq
        obtain ⟨c, hget, -⟩ := ht other peer (serves_cleanup.2 hother)
        rw [hconns, FMap.get_erase_self] at hget
        cases hget
      · intro hu c q hs
        have hs' := serves_cleanup.1 hs
        have hq : q ≠ peer := by
          rintro rfl
          exact hu q hat c hs'
        obtain ⟨c', hget, hserves⟩ := h c q hs'
        refine ⟨c', ?_, serves_cleanup.2 hserves⟩
        rw [hconns, FMap.get_erase_ne _ hq]
        exact hget

/-- What keeps the registry tracking, event by event. -/
theorem step_tracks_iff (e : ConnEvent) (hf : r.Fresh) (h : r.TracksLive) :
    (r.step e).TracksLive ↔ r.Undisturbed e := by
  cases e with
  | install peer => exact iff_of_true (tracks_install hf h) trivial
  | healCheck peer => exact iff_of_true h trivial
  | finish conn => exact tracks_finish_iff h
  | remember conn =>
      refine iff_of_true ?_ trivial
      have hconns : (r.step (.remember conn)).connections
          = r.connections := by
        cases hat : r.loopAt conn .over <;> simp only [step, hat]
      intro c q hs
      obtain ⟨c', hget, hserves⟩ := h c q (serves_remember.1 hs)
      exact ⟨c', hconns ▸ hget, serves_remember.2 hserves⟩
  | cleanup conn => exact tracks_cleanup_iff h

-- ============== runs

theorem new_fresh : ConnRegistry.new.Fresh := fun _ _ => rfl

theorem new_tracks : ConnRegistry.new.TracksLive := by
  intro c q hs
  cases hs

/-- The registry tracks live connections in every state of a run exactly
when, at every step, a loop that ends is not the registered one or is its
peer's last, and a clean-up finds no running loop of the peer. -/
theorem registry_tracks_iff (events : List ConnEvent) :
    Always ConnRegistry.step ConnRegistry.TracksLive ConnRegistry.new
        events
      ↔ Along ConnRegistry.step ConnRegistry.Undisturbed ConnRegistry.new
        events :=
  always_iff_along (fun _ e hf => fresh_step e hf)
    (fun _ e hf ht => step_tracks_iff e hf ht) new_fresh new_tracks

/-- A reconnect: the second connection is installed before the first
loop's end is cleaned up, which leaves the running loop without its
sender. -/
theorem sender_lost :
    ¬ Always ConnRegistry.step ConnRegistry.TracksLive ConnRegistry.new
      [.install (Bytes.fill 16 1), .install (Bytes.fill 16 1), .finish 0,
        .remember 0, .cleanup 0] := by
  intro h
  obtain ⟨c, hget, -⟩ := h.last 1 (Bytes.fill 16 1) rfl
  cases hget

end StaticNet
