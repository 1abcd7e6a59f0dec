/-
A backup-only node (`run_backup_health_tick` and `register_backup_content`
in `static-node/src/runner.rs`): what it backs up, when it takes over, and
which leases it keeps alive meanwhile.

# Interleaving

A tick never holds two guards at once, so its sections are events of their
own: the sweep over the backup state, the flag, the leases. Registrations
and the tasks that own the leases come between them. What the sweep reads
before it takes the backup state's guard (routing table, activity, held
chunks) is a parameter of it.
-/
import StaticNet.Routing.Basic
import StaticNet.Storage.Heartbeat

namespace StaticNet

-- ============= state

structure BackupContentState where
  contentId : ContentId
  primaryNodeId : Option NodeId
  isActive : Bool
  lastHeartbeat : Nat
  chunkIds : List ChunkId

structure BackupState where
  backedUpContent : FMap ContentId BackupContentState
  anyActive : Bool

/-- What of the configuration a tick reads. -/
structure BackupConfig where
  primaryAddress : Option String
  primaryNodeId : Option NodeId
  heartbeatTimeoutSecs : Nat
  permanentTakeover : Bool

/-- What a tick reads before the sweep, and the orders in which it finds the
routing table, the held chunks and the entries. -/
structure SweepEnv where
  now : Nat
  nodes : RoutingTable
  activity : FMap NodeId Nat
  holder : ChunkHolder
  nodeOrder : IterOrder NodeId
  order : IterOrder ChunkId

-- ========= the sweep

/-- The primary by the configuration, else by its address. -/
def resolvePrimary (cfg : BackupConfig) (env : SweepEnv) : Option NodeId :=
  match cfg.primaryNodeId with
  | some id => some id
  | none =>
      match cfg.primaryAddress with
      | some addr =>
          (env.nodeOrder.find env.nodes.nodes fun _ n =>
            n.address == addr).map fun e => e.2.nodeId
      | none => none

/-- Held chunks without an entry get one, under their own id. -/
def autoRegister (now : Nat) (m : FMap ContentId BackupContentState)
    (chunkId : ChunkId) : FMap ContentId BackupContentState :=
  if m.contains chunkId then m
  else
    m.insert chunkId
      { contentId := chunkId
        primaryNodeId := none
        isActive := false
        lastHeartbeat := now
        chunkIds := [chunkId] }

/-- Activity later than the heartbeat is the heartbeat. -/
def heartbeatOf (activity : FMap NodeId Nat) (primary : NodeId)
    (lastHeartbeat : Nat) : Nat :=
  match activity.get primary with
  | some lastSeen =>
      if lastHeartbeat < lastSeen then lastSeen else lastHeartbeat
  | none => lastHeartbeat

/-- Fill in the primary once it is known, and refresh the heartbeat. -/
def BackupContentState.refresh (resolved : Option NodeId)
    (activity : FMap NodeId Nat) (entry : BackupContentState) :
    BackupContentState :=
  let primaryNodeId :=
    if entry.primaryNodeId.isNone then resolved else entry.primaryNodeId
  { entry with
    primaryNodeId := primaryNodeId
    lastHeartbeat :=
      match primaryNodeId with
      | some primary => heartbeatOf activity primary entry.lastHeartbeat
      | none => entry.lastHeartbeat }

/-- An entry after its turn, whether the turn activated it, and whether its
chunks' leases are to be extended. -/
structure EntryVisit where
  entry : BackupContentState
  activated : Bool
  keepAlive : Bool

def visitRefreshed (cfg : BackupConfig) (now : Nat)
    (entry : BackupContentState) : EntryVisit :=
  if entry.isActive then ⟨entry, false, cfg.permanentTakeover⟩
  else if entry.primaryNodeId.isNone then ⟨entry, false, false⟩
  else if now - entry.lastHeartbeat ≤ cfg.heartbeatTimeoutSecs then
    ⟨entry, false, true⟩
  else ⟨{ entry with isActive := true }, true, true⟩

def visit (cfg : BackupConfig) (env : SweepEnv)
    (entry : BackupContentState) : EntryVisit :=
  visitRefreshed cfg env.now
    (entry.refresh (resolvePrimary cfg env) env.activity)

/-- What a sweep leaves for the sections after it. -/
structure Swept where
  content : FMap ContentId BackupContentState
  newlyActivated : List ContentId
  extendLeaseIds : List ChunkId

/-- The entries' turns, in order. -/
def visitEach (cfg : BackupConfig) (env : SweepEnv) :
    List ContentId → FMap ContentId BackupContentState → Swept
  | [], m => ⟨m, [], []⟩
  | contentId :: rest, m =>
      match m.get contentId with
      | none => visitEach cfg env rest m
      | some entry =>
          let v := visit cfg env entry
          let later := visitEach cfg env rest (m.insert contentId v.entry)
          { content := later.content
            newlyActivated :=
              (if v.activated then [contentId] else [])
                ++ later.newlyActivated
            extendLeaseIds :=
              (if v.keepAlive then v.entry.chunkIds else [])
                ++ later.extendLeaseIds }

def sweepContent (cfg : BackupConfig) (env : SweepEnv)
    (m : FMap ContentId BackupContentState) : Swept :=
  let registered :=
    (env.order.iter env.holder.chunks.keys).foldl (autoRegister env.now) m
  visitEach cfg env (env.order.iter registered.keys) registered

-- ======== the leases

/-- A lease is only ever set later. -/
def ChunkLease.extendTo (newExpiry : Nat) (lease : ChunkLease) :
    ChunkLease :=
  if lease.expiresAt < newExpiry then
    { lease with expiresAt := newExpiry }
  else lease

def extendLeases (newExpiry : Nat) (ids : List ChunkId)
    (mgr : LeaseManager) : LeaseManager :=
  { mgr with
    leases := ids.foldl
      (fun m chunkId => m.modify chunkId (ChunkLease.extendTo newExpiry))
      mgr.leases }

-- ========== the node

/-- A tick between its sweep and its end: its time, whether it has yet to
raise the flag, and the leases it has yet to extend. -/
structure BackupTick where
  now : Nat
  activatedAny : Bool
  extendLeaseIds : List ChunkId

structure BackupNode where
  backup : BackupState
  serveEnabled : Bool
  leases : LeaseManager
  tick : Option BackupTick

inductive BackupEvent
  /-- a tick begins: its sweep over the entries -/
  | sweep (env : SweepEnv)
  /-- it raises the serving flag if it activated an entry -/
  | serve
  /-- it extends leases and is over -/
  | extend
  /-- `register_backup_content` -/
  | register (contentId : ContentId) (primary : NodeId)
      (chunkIds : List ChunkId) (now : Nat)
  /-- the node's other tasks leave the leases like this -/
  | leases (mgr : LeaseManager)

namespace BackupNode

/-- A backup-only node starts dormant and tracks nothing. -/
def dormant (mgr : LeaseManager) : BackupNode :=
  ⟨⟨∅, false⟩, false, mgr, none⟩

/-- One section; a section that is not due does nothing. -/
def step (cfg : BackupConfig) (s : BackupNode) : BackupEvent → BackupNode
  | .sweep env =>
      match s.tick with
      | some _ => s
      | none =>
          let swept := sweepContent cfg env s.backup.backedUpContent
          { s with
            backup :=
              { backedUpContent := swept.content
                anyActive :=
                  !swept.newlyActivated.isEmpty || s.backup.anyActive }
            tick := some
              { now := env.now
                activatedAny := !swept.newlyActivated.isEmpty
                extendLeaseIds := swept.extendLeaseIds } }
  | .serve =>
      match s.tick with
      | none => s
      | some t =>
          { s with
            serveEnabled := t.activatedAny || s.serveEnabled
            tick := some { t with activatedAny := false } }
  | .extend =>
      match s.tick with
      | none => s
      | some t =>
          if t.activatedAny then s
          else
            { s with
              leases := extendLeases (t.now + DEFAULT_LEASE_DURATION_SECS)
                t.extendLeaseIds s.leases
              tick := none }
  | .register contentId primary chunkIds now =>
      { s with
        backup :=
          { s.backup with
            backedUpContent := s.backup.backedUpContent.insert contentId
              { contentId := contentId
                primaryNodeId := some primary
                isActive := false
                lastHeartbeat := now
                chunkIds := chunkIds } } }
  | .leases mgr => { s with leases := mgr }

/-- The content has an entry, and it is active. -/
def Active (s : BackupNode) (contentId : ContentId) : Prop :=
  ∃ entry, s.backup.backedUpContent.get contentId = some entry
    ∧ entry.isActive = true

/-- A sweep has activated an entry and the flag is yet to be raised. -/
def Raising (s : BackupNode) : Prop :=
  ∃ t, s.tick = some t ∧ t.activatedAny = true

end BackupNode

end StaticNet
