/-
The lease side of the node runner (`static-node/src/runner.rs`): inbound
heartbeats, the local refresh tick, and the expiration sweep, over the
same shared state as the swap handlers.

A published chunk gets no lease when it is published; it is listed in
`content_chunks` only. The tick refreshes the leases of listed chunks
that have one. The sweep removes whatever has a lapsed lease, listed or
not.
-/
import StaticNet.Swap.Handlers

namespace StaticNet

open Proc

namespace LeaseManager

/-- The inner loop of `heartbeat_tick_once`: give every listed chunk that
has a lease the new expiry, and count them. -/
def refreshAll (newExpires : Nat) :
    List ChunkId → Nat × LeaseManager → Nat × LeaseManager
  | [], acc => acc
  | c :: rest, (refreshed, mgr) =>
      match mgr.leases.get c with
      | some lease =>
          refreshAll newExpires rest
            (refreshed + 1,
              mgr.addLease c { lease with expiresAt := newExpires })
      | none => refreshAll newExpires rest (refreshed, mgr)

/-- The owned chunk ids, content by content in table order. -/
def ownedChunks (mgr : LeaseManager) (order : IterOrder ContentId) :
    List ChunkId :=
  (order.iter mgr.contentChunks.keys).flatMap fun id =>
    (mgr.contentChunks.get id).getD []

end LeaseManager

/-- The set `handle_heartbeat` collects: the named chunks we hold. -/
def heldAmong (hb : Heartbeat) (s : TransportState) (c : ChunkId) : Bool :=
  hb.chunkIds.contains c && s.chunkHolder.hasChunk c

/-- `handle_heartbeat`: which named chunks are held, then the upsert. -/
def handleHeartbeat (P : Prims) (now : Nat) (hb : Heartbeat) :
    Handler Unit := do
  let held ← read .holder (heldAmong hb)
  let _ ← atom .leases fun s =>
    let r := s.leaseManager.processHeartbeatUpsert P hb now held
    (r.1, { s with leaseManager := r.2 })
  pure ()

/-- `heartbeat_tick_once`: extend owned leases by the default duration. -/
def heartbeatTickOnce (now : Nat) (order : IterOrder ContentId) :
    Handler Nat :=
  atom .leases fun s =>
    let r := LeaseManager.refreshAll (now + DEFAULT_LEASE_DURATION_SECS)
      (s.leaseManager.ownedChunks order) (0, s.leaseManager)
    (r.1, { s with leaseManager := r.2 })

/-- The removal loop of the sweep: holder, leases, capacity per chunk. -/
def dropExpired : List ChunkId → Handler Unit
  | [] => pure ()
  | c :: rest => do
      let chunkSize ← atom .holder fun s =>
        (((s.chunkHolder.getChunk c).map List.length).getD 0,
          { s with chunkHolder := s.chunkHolder.removeChunk c })
      write .leases fun s =>
        { s with leaseManager := s.leaseManager.removeLease c }
      write .capacity (TransportState.updCapacity fun cap =>
        cap.recordRemove chunkSize)
      dropExpired rest

/-- `expire_chunks_once`: one sweep. -/
def expireChunksOnce (now : Nat) (order : IterOrder ChunkId) :
    Handler Nat := do
  let expired ← read .leases fun s =>
    s.leaseManager.getExpiredChunks order now
  dropExpired expired
  write .leases fun s =>
    { s with leaseManager := s.leaseManager.cleanupNonces now }
  pure expired.length

-- ============== runs

/-- A call of one of the three, with the table order it meets. -/
inductive LeaseEvent
  | heartbeat (hb : Heartbeat)
  | tick (order : IterOrder ContentId)
  | sweep (order : IterOrder ChunkId)

namespace LeaseEvent

def isTick : LeaseEvent → Bool
  | tick _ => true
  | _ => false

def program (P : Prims) (now : Nat) : LeaseEvent → Handler Unit
  | heartbeat hb => handleHeartbeat P now hb
  | tick order => do let _ ← heartbeatTickOnce now order
  | sweep order => do let _ ← expireChunksOnce now order

/-- The state after a run of timed events. -/
def run (P : Prims) (s : TransportState) (es : List (Nat × LeaseEvent)) :
    TransportState :=
  es.foldl (fun s e => (e.2.program P e.1).post s) s

/-- When the tick last ran, the start counting as a tick. -/
def lastTick (t₀ : Nat) (es : List (Nat × LeaseEvent)) : Nat :=
  es.foldl (fun t e => if e.2.isTick then e.1 else t) t₀

/-- When the last event was. -/
def clock (t₀ : Nat) (es : List (Nat × LeaseEvent)) : Nat :=
  es.foldl (fun _ e => e.1) t₀

/-- The clock of a run: a `u64` that never goes back, with a tick in
every heartbeat interval. -/
structure Timely (t₀ : Nat) (es : List (Nat × LeaseEvent)) : Prop where
  forward : ∀ n (hn : n < es.length), clock t₀ (es.take n) ≤ es[n].1
  ticking : ∀ n (hn : n < es.length),
    es[n].1 ≤ lastTick t₀ (es.take n) + DEFAULT_HEARTBEAT_INTERVAL_SECS
  bounded : ∀ n (hn : n < es.length), es[n].1 ≤ U64_MAX

end LeaseEvent

/-- Is this chunk part of content the node has published? -/
def Owns (s : TransportState) (c : ChunkId) : Prop :=
  ∃ id ids, s.leaseManager.contentChunks.get id = some ids ∧ c ∈ ids

/-- What publishing leaves: no owned chunk has a lease. -/
def Published (s : TransportState) : Prop :=
  ∀ c, Owns s c → s.leaseManager.leases.get c = none

end StaticNet
