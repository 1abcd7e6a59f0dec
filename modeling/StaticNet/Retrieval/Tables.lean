/-
The bounded tables that pair a map with a queue: the reassembly manager
(`static-mesh/src/fragment.rs`), the requester's pending retrievals
(`static-mesh/src/retrieval.rs`), a mix node's reply sessions and the
nonces of a session (`static-sphinx/src/lib.rs`).

Every branch of their code is one operation of a bounded memory on the
keys and the queue (`Fifo.Changes`), so the map and the queue agree after
any calls, and what comes in takes the place of the front.

# Where it breaks

`ReassemblyManager::add_fragment` checks a fragment before it makes room
for its session, and leaves out the size of its data. A fragment that is
too large has a session made for it, at the cost of the oldest one, and
is refused there (`addFragment_junk`).
-/
import StaticNet.Retrieval.Reassembly
import StaticNet.Retrieval.Request

namespace StaticNet

open Fifo

-- ======= the manager

namespace ReassemblyManager

/-- The calls on a manager. A session that is handed out may be changed
in any way. -/
inductive Op
  | getOrCreate (messageId now : Nat)
  | addFragment (messageId : Nat) (f : Fragment) (now : Nat)
  | remove (messageId : Nat)
  | cleanupExpired (now timeoutSecs : Nat)
  | getMut (messageId : Nat) (f : Reassembler → Reassembler)

def apply (m : ReassemblyManager) : Op → ReassemblyManager
  | .getOrCreate messageId now => m.getOrCreate messageId now
  | .addFragment messageId f now => (m.addFragment messageId f now).2
  | .remove messageId => (m.remove messageId).2
  | .cleanupExpired now timeoutSecs => m.cleanupExpired now timeoutSecs
  | .getMut messageId f =>
      { m with sessions := m.sessions.modify messageId f }

/-- Its keys and its queue as one memory. -/
def table (m : ReassemblyManager) : Fifo Nat := ⟨m.sessions.keys, m.order⟩

end ReassemblyManager

-- ==== the retrievals

namespace RetrievalManager

/-- `cleanup_expired_with_timeout`. -/
def cleanupExpired (m : RetrievalManager) (o : IterOrder ChunkId)
    (now timeoutSecs : Nat) : RetrievalManager :=
  let expired := (o.iter m.pending.keys).filter fun id =>
    (m.pending.get id).any fun p => timeoutSecs ≤ now - p.createdAt
  expired.foldl remove m

inductive Op
  | startRetrieval (chunkId : ChunkId) (now : Nat)
  | processFragment (o : IterOrder ChunkId) (body : List UInt8)
  | cleanupExpired (o : IterOrder ChunkId) (now timeoutSecs : Nat)

def apply (m : RetrievalManager) : Op → RetrievalManager
  | .startRetrieval chunkId now => m.startRetrieval chunkId now
  | .processFragment o body => (m.processFragment o body).2
  | .cleanupExpired o now timeoutSecs => m.cleanupExpired o now timeoutSecs

def table (m : RetrievalManager) : Fifo ChunkId :=
  ⟨m.pending.keys, m.order⟩

end RetrievalManager

-- ====== the sessions

namespace MixNode

/-- What is called on a node's reply sessions. -/
inductive SessionOp
  | insertSession (id : SessionId) (session : CachedSession)
  | cleanExpiredSessions (currentTime : Nat)
  | processSessionReply (reply : SessionReply) (currentTime : Nat)

def applySession (P : Prims) (node : MixNode) : SessionOp → MixNode
  | .insertSession id session => node.insertSession id session
  | .cleanExpiredSessions currentTime =>
      node.cleanExpiredSessions currentTime
  | .processSessionReply reply currentTime =>
      (processSessionReply P node reply currentTime).2

def sessions (node : MixNode) : Fifo SessionId :=
  ⟨node.sessionCache.keys, node.sessionOrder⟩

end MixNode

-- ==== one operation of each

section Keys

variable {K V : Type} [DecidableEq K] {m : FMap K V} {k : K}

/-- Overwriting an entry leaves the keys. -/
theorem keys_insert_of_contains (v : V) (h : m.contains k = true) :
    (m.insert k v).keys = m.keys := by
  rw [FMap.contains_eq_true] at h
  exact Finset.insert_eq_of_mem ((m.mem_keys_iff k).2 h)

/-- A map and its queue, kept by hand: at the cap the oldest key leaves
both, then the new one enters both. -/
theorem push_keys (order : List K) (hnew : k ∉ m.keys) (cap : Nat) (v : V) :
    (⟨((match order.head? with
        | some oldest => if cap ≤ m.len then m.erase oldest else m
        | none => m).insert k v).keys,
      (if cap ≤ m.len then order.drop 1 else order) ++ [k]⟩ : Fifo K)
      = (⟨m.keys, order⟩ : Fifo K).push cap k := by
  have hseen : k ∉ (⟨m.keys, order⟩ : Fifo K).seen := hnew
  cases order with
  | nil =>
      rw [push_nil hseen rfl]
      dsimp only [List.head?_nil]
      rw [List.drop_nil, ite_self]
      rfl
  | cons oldest rest =>
      dsimp only [List.head?_cons]
      by_cases hfull : cap ≤ m.len
      · rw [if_pos hfull, if_pos hfull]
        exact (push_front hseen hfull rfl).symm
      · rw [if_neg hfull, if_neg hfull]
        exact (push_room hseen hfull).symm

end Keys

namespace ReassemblyManager

variable {m : ReassemblyManager} {id now : Nat}

theorem getOrCreate_table (m : ReassemblyManager) (id now : Nat) :
    (m.getOrCreate id now).table
      = m.table.push MAX_REASSEMBLER_MESSAGES id := by
  unfold getOrCreate
  by_cases hheld : m.sessions.contains id = true
  · have hmem : id ∈ m.table.seen :=
      (m.sessions.mem_keys_iff id).2 ((FMap.contains_eq_true _ _).1 hheld)
    rw [if_pos hheld, push_of_mem hmem]
  · have hnew : id ∉ m.table.seen :=
      (FMap.contains_eq_false _ _).1 (Bool.not_eq_true _ ▸ hheld)
    rw [if_neg hheld]
    refine Eq.trans ?_ (push_keys m.order hnew _ (Reassembler.new now))
    unfold table
    cases m.order with
    | nil => rfl
    | cons oldest rest => rfl

theorem getOrCreate_contains (m : ReassemblyManager) (id now : Nat) :
    (m.getOrCreate id now).sessions.contains id = true := by
  have hmem : id ∈ (m.getOrCreate id now).table.seen := by
    rw [getOrCreate_table]
    exact mem_push_self
  rw [FMap.contains_eq_true]
  exact (FMap.mem_keys_iff _ id).1 hmem

/-- A fragment with these bounds is handed to its session. -/
theorem addFragment_of_bounds (m : ReassemblyManager) (id now : Nat)
    {f : Fragment}
    (h : ¬ (f.totalFragments = 0
      ∨ MAX_FRAGMENTS_PER_MESSAGE < f.totalFragments
      ∨ f.totalFragments ≤ f.fragmentId)) :
    ∃ session, (m.getOrCreate id now).sessions.get id = some session
      ∧ m.addFragment id f now
        = ((session.addFragment f).1,
          { m.getOrCreate id now with
            sessions := (m.getOrCreate id now).sessions.insert id
              (session.addFragment f).2 }) := by
  obtain ⟨session, hget⟩ := (FMap.contains_eq_true _ _).1
    (getOrCreate_contains m id now)
  refine ⟨session, hget, ?_⟩
  unfold addFragment
  rw [if_neg h]
  simp only [hget]

theorem addFragment_table (m : ReassemblyManager) (id now : Nat)
    (f : Fragment) :
    (m.addFragment id f now).2.table = m.table
      ∨ (m.addFragment id f now).2.table
        = m.table.push MAX_REASSEMBLER_MESSAGES id := by
  by_cases hbad : f.totalFragments = 0
      ∨ MAX_FRAGMENTS_PER_MESSAGE < f.totalFragments
      ∨ f.totalFragments ≤ f.fragmentId
  · left
    unfold addFragment
    rw [if_pos hbad]
  · right
    obtain ⟨session, -, hadd⟩ :=
      addFragment_of_bounds m id now hbad
    rw [hadd, ← getOrCreate_table m id now]
    unfold table
    dsimp only
    rw [keys_insert_of_contains _ (getOrCreate_contains m id now)]

/-- What the cleanup keeps of the table. -/
theorem cleanupExpired_table (m : ReassemblyManager)
    (now timeoutSecs : Nat) :
    (m.cleanupExpired now timeoutSecs).table
      = m.table.sweep fun id => !m.expired now timeoutSecs id := by
  unfold table cleanupExpired sweep expired
  dsimp only
  congr 1
  ext id
  rw [Finset.mem_filter, FMap.mem_keys, FMap.mem_keys, FMap.get_retain]
  cases m.sessions.get id with
  | none => simp
  | some r => cases hexpired : r.isExpired now timeoutSecs <;> simp [hexpired]

theorem remove_table (m : ReassemblyManager) (id : Nat)
    (hheld : m.sessions.contains id = true) :
    (m.remove id).2.table = m.table.sweep fun kept => kept ≠ id := by
  unfold remove
  rw [if_pos hheld]
  unfold table sweep
  dsimp only
  congr 1
  ext x
  simp [FMap.erase, and_comm]

theorem apply_changes (m : ReassemblyManager) (op : Op) :
    Changes MAX_REASSEMBLER_MESSAGES m.table (m.apply op).table := by
  cases op with
  | getOrCreate id now =>
      show Changes _ _ (m.getOrCreate id now).table
      rw [getOrCreate_table]
      exact .push id
  | addFragment id f now =>
      show Changes _ _ (m.addFragment id f now).2.table
      rcases addFragment_table m id now f with
        hsame | hpush
      · rw [hsame]
        exact .same
      · rw [hpush]
        exact .push id
  | remove id =>
      show Changes _ _ (m.remove id).2.table
      by_cases hheld : m.sessions.contains id = true
      · rw [remove_table m id hheld]
        exact .sweep _
      · unfold remove
        rw [if_neg hheld]
        exact .same
  | cleanupExpired now timeoutSecs =>
      show Changes _ _ (m.cleanupExpired now timeoutSecs).table
      rw [cleanupExpired_table]
      exact .sweep _
  | getMut id f => exact .same

end ReassemblyManager

namespace RetrievalManager

variable {m : RetrievalManager} {id : ChunkId} {now : Nat}

theorem startRetrieval_held (h : m.pending.contains id = true) :
    (m.startRetrieval id now).table = m.table.renew id := by
  unfold startRetrieval
  rw [if_pos h]
  rfl

theorem startRetrieval_new (h : m.pending.contains id = false) :
    (m.startRetrieval id now).table
      = m.table.push MAX_PENDING_RETRIEVALS id := by
  have hnew : id ∉ m.table.seen := (FMap.contains_eq_false _ _).1 h
  unfold startRetrieval
  rw [if_neg (by rw [h]; exact Bool.false_ne_true)]
  refine Eq.trans ?_
    (push_keys m.order hnew _ ⟨id, Reassembler.new now, now⟩)
  unfold table
  cases m.order with
  | nil => rfl
  | cons oldest rest => rfl

theorem remove_table : (m.remove id).table = m.table.sweep fun x => x ≠ id := by
  unfold table remove sweep
  dsimp only
  congr 1
  ext x
  simp [FMap.erase, and_comm]

theorem foldl_remove_table (ids : List ChunkId) :
    (ids.foldl remove m).table = m.table.sweep fun id => id ∉ ids := by
  rw [← foldl_sweep]
  induction ids generalizing m with
  | nil => rfl
  | cons id ids ih => rw [List.foldl_cons, List.foldl_cons, ih, remove_table]

/-- A finished retrieval goes, and with it the one its last fragment was
given to. -/
theorem finish_cases (m : RetrievalManager) (target : ChunkId)
    (r : Reassembler) : ∃ ids : List ChunkId,
    (m.finish target r).2 = ids.foldl remove m := by
  unfold finish
  split
  · split
    · exact ⟨[], rfl⟩
    · split
      · exact ⟨[], rfl⟩
      next response _ =>
          dsimp only
          split
          · exact ⟨[response.chunkId, target], rfl⟩
          · exact ⟨[response.chunkId], rfl⟩
  · exact ⟨[], rfl⟩

theorem processFragment_table (o : IterOrder ChunkId) (body : List UInt8) :
    ∃ ids : List ChunkId, (m.processFragment o body).2.table
      = m.table.sweep fun id => id ∉ ids := by
  have hsame : m.table = m.table.sweep fun id => id ∉ ([] : List ChunkId) :=
    foldl_remove_table []
  unfold processFragment
  split
  · exact ⟨[], hsame⟩
  next f _ =>
      dsimp only
      split
      · exact ⟨[], hsame⟩
      · split
        · exact ⟨[], hsame⟩
        next target p hfind =>
            have hheld : m.pending.contains target = true :=
              (FMap.contains_eq_true _ _).2 ⟨p, (IterOrder.find_some
                hfind).1⟩
            have htable : table { m with
                pending := m.pending.insert target { p with
                  reassembler := (p.reassembler.addFragment f).2 } }
                = m.table := by
              unfold table
              rw [keys_insert_of_contains _ hheld]
            split
            · obtain ⟨ids, hids⟩ := finish_cases { m with
                pending := m.pending.insert target { p with
                  reassembler := (p.reassembler.addFragment f).2 } }
                target (p.reassembler.addFragment f).2
              refine ⟨ids, ?_⟩
              rw [hids, foldl_remove_table, htable]
            · refine ⟨[], ?_⟩
              rw [← hsame]
              exact htable

theorem apply_changes (m : RetrievalManager) (op : Op) :
    Changes MAX_PENDING_RETRIEVALS m.table (m.apply op).table := by
  cases op with
  | startRetrieval id now =>
      show Changes _ _ (m.startRetrieval id now).table
      cases hheld : m.pending.contains id with
      | true =>
          rw [startRetrieval_held hheld]
          exact .renew id ((m.pending.mem_keys_iff id).2
            ((FMap.contains_eq_true _ _).1 hheld))
      | false =>
          rw [startRetrieval_new hheld]
          exact .push id
  | processFragment o body =>
      obtain ⟨ids, hids⟩ := processFragment_table (m := m) o body
      show Changes _ _ (m.processFragment o body).2.table
      rw [hids]
      exact .sweep _
  | cleanupExpired o now timeoutSecs =>
      show Changes _ _ (m.cleanupExpired o now timeoutSecs).table
      unfold cleanupExpired
      rw [foldl_remove_table]
      exact .sweep _

end RetrievalManager

namespace MixNode

variable {node : MixNode} {id : SessionId} {session : CachedSession}

theorem insertSession_sessions :
    (node.insertSession id session).sessions
      = node.sessions.push MAX_SESSION_CACHE id := by
  unfold insertSession
  by_cases hheld : node.sessionCache.contains id = true
  · have hmem : id ∈ node.sessions.seen :=
      (node.sessionCache.mem_keys_iff id).2
        ((FMap.contains_eq_true _ _).1 hheld)
    rw [if_pos hheld, push_of_mem hmem]
    unfold sessions
    dsimp only
    rw [keys_insert_of_contains _ hheld]
  · have hnew : id ∉ node.sessions.seen :=
      (FMap.contains_eq_false _ _).1 (Bool.not_eq_true _ ▸ hheld)
    rw [if_neg hheld]
    refine Eq.trans ?_ (push_keys node.sessionOrder hnew _ session)
    unfold sessions
    cases node.sessionOrder with
    | nil => rfl
    | cons oldest rest => rfl

theorem cleanExpiredSessions_sessions (now : Nat) :
    (node.cleanExpiredSessions now).sessions
      = node.sessions.sweep fun id =>
        (node.cleanExpiredSessions now).sessionCache.contains id := by
  unfold sessions sweep
  congr 1
  ext id
  rw [Finset.mem_filter, FMap.contains_eq_true, FMap.mem_keys_iff]
  refine ⟨fun h => ⟨?_, h⟩, fun h => h.2⟩
  obtain ⟨session, hget⟩ := h
  exact FMap.mem_keys_of_get (Option.filter_eq_some_iff.1 hget).1

theorem erase_sessions (node : MixNode) (id : SessionId) :
    ({ node with
      sessionCache := node.sessionCache.erase id
      sessionOrder := node.sessionOrder.filter fun kept => kept ≠ id }
      : MixNode).sessions = node.sessions.sweep fun kept => kept ≠ id := by
  unfold sessions sweep
  dsimp only
  congr 1
  ext x
  simp [FMap.erase, and_comm]

theorem processSessionReply_changes (P : Prims) (reply : SessionReply)
    (now : Nat) : Changes MAX_SESSION_CACHE node.sessions
      (processSessionReply P node reply now).2.sessions := by
  unfold processSessionReply
  split
  · exact .same
  · split
    · exact .same
    next session hget =>
        split
        · rw [erase_sessions]
          exact .sweep _
        · split
          · exact .same
          · -- the session stays, with one more nonce
            have hkeys := keys_insert_of_contains
              (session.recordNonce reply.nonce)
              ((FMap.contains_eq_true _ _).2 ⟨session, hget⟩)
            unfold sessions
            dsimp only
            rw [hkeys]
            exact .same

theorem applySession_changes (P : Prims) (node : MixNode)
    (op : SessionOp) : Changes MAX_SESSION_CACHE node.sessions
      (node.applySession P op).sessions := by
  cases op with
  | insertSession id session =>
      show Changes _ _ (node.insertSession id session).sessions
      rw [insertSession_sessions]
      exact .push id
  | cleanExpiredSessions now =>
      show Changes _ _ (node.cleanExpiredSessions now).sessions
      rw [cleanExpiredSessions_sessions]
      exact .sweep _
  | processSessionReply reply now =>
      exact processSessionReply_changes P reply now

end MixNode

theorem recordNonce_changes (session : CachedSession) (nonce : Bytes 32) :
    Changes MAX_SESSION_NONCES session.nonces
      (session.recordNonce nonce).nonces := .push nonce

-- ==== junk fragments

namespace ReassemblyManager

/-- The bounds that the manager checks itself. -/
def Checked (f : Fragment) : Prop :=
  0 < f.totalFragments ∧ f.totalFragments ≤ MAX_FRAGMENTS_PER_MESSAGE
    ∧ f.fragmentId < f.totalFragments

/-- A fragment that breaks a bound is refused. It leaves the sessions
alone if the manager checks that bound, or has the session already. -/
theorem addFragment_junk (m : ReassemblyManager) (id now : Nat)
    {f : Fragment} (hjunk : ¬ f.Valid) :
    (m.addFragment id f now).1 = false
      ∧ ((m.addFragment id f now).2.table = m.table
        ↔ (Checked f → m.sessions.contains id = true)) := by
  by_cases hbad : f.totalFragments = 0
      ∨ MAX_FRAGMENTS_PER_MESSAGE < f.totalFragments
      ∨ f.totalFragments ≤ f.fragmentId
  · have hadd : m.addFragment id f now = (false, m) := if_pos hbad
    rw [hadd]
    refine ⟨rfl, iff_of_true rfl fun hchecked => ?_⟩
    obtain ⟨hpos, hmost, hid⟩ := hchecked
    omega
  · have hchecked : Checked f := ⟨by omega, by omega, by omega⟩
    have hbig : MAX_FRAGMENT_DATA < f.data.length := by
      by_contra hnot
      exact hjunk ⟨hchecked.1, hchecked.2.1, hchecked.2.2,
        Nat.le_of_not_lt hnot⟩
    obtain ⟨session, -, hadd⟩ :=
      addFragment_of_bounds m id now hbad
    have hrefused : session.addFragment f = (false, session) := by
      unfold Reassembler.addFragment
      rw [if_neg (by omega), if_neg (by omega), if_pos hbig]
    have htable : (m.addFragment id f now).2.table
        = m.table.push MAX_REASSEMBLER_MESSAGES id := by
      rw [hadd, ← getOrCreate_table m id now]
      unfold table
      dsimp only
      rw [keys_insert_of_contains _ (getOrCreate_contains m id now)]
    refine ⟨by rw [hadd, hrefused], ?_⟩
    rw [htable]
    constructor
    · intro hsame _
      have hin : id ∈ m.table.seen := by
        rw [← hsame]
        exact mem_push_self
      exact (FMap.contains_eq_true _ _).2 ((FMap.mem_keys_iff _ _).1 hin)
    · intro hheld
      exact push_of_mem ((FMap.mem_keys_iff _ _).2
        ((FMap.contains_eq_true _ _).1 (hheld hchecked)))

end ReassemblyManager

-- ======== the tables

/-- The four tables are consistent over every sequence of their calls;
and a fragment that breaks a bound is refused by the manager, which then
has made no session and evicted none, exactly when it checks that bound
before or has the session already. -/
theorem bounded_tables_consistent (P : Prims) (node : MixNode)
    (hnode : node.sessions = Fifo.empty) (session : CachedSession)
    (hsession : session.nonces = Fifo.empty) :
    Consistent MAX_REASSEMBLER_MESSAGES ReassemblyManager.apply
        ReassemblyManager.table .new
      ∧ Consistent MAX_PENDING_RETRIEVALS RetrievalManager.apply
        RetrievalManager.table .new
      ∧ Consistent MAX_SESSION_CACHE (MixNode.applySession P)
        MixNode.sessions node
      ∧ Consistent MAX_SESSION_NONCES CachedSession.recordNonce
        CachedSession.nonces session
      ∧ ∀ (ops : List ReassemblyManager.Op) (m : ReassemblyManager)
        (id now : Nat) (f : Fragment),
        m = ops.foldl ReassemblyManager.apply .new → ¬ f.Valid →
        (m.addFragment id f now).1 = false
          ∧ ((m.addFragment id f now).2.table = m.table
            ↔ (ReassemblyManager.Checked f →
              m.sessions.contains id = true)) := by
  refine ⟨?_, ?_, ?_, ?_, ?_⟩
  · exact consistent_of_changes (by decide)
      (fun m op _ => m.apply_changes op) sound_empty
  · exact consistent_of_changes (by decide)
      (fun m op _ => m.apply_changes op) sound_empty
  · exact consistent_of_changes (by decide)
      (fun node op _ => node.applySession_changes P op)
      (hnode ▸ sound_empty)
  · exact consistent_of_changes (by decide)
      (fun session nonce _ => recordNonce_changes session nonce)
      (hsession ▸ sound_empty)
  · intro ops m id now f _ hjunk
    exact m.addFragment_junk id now hjunk

/-- One byte more than a fragment may carry. -/
def oversizeFragment : Fragment :=
  ⟨0, 1, List.replicate (MAX_FRAGMENT_DATA + 1) 0⟩

theorem oversizeFragment_invalid : ¬ oversizeFragment.Valid := by
  intro h
  have hdata : (List.replicate (MAX_FRAGMENT_DATA + 1) (0 : UInt8)).length
      ≤ MAX_FRAGMENT_DATA := h.2.2.2
  rw [List.length_replicate] at hdata
  omega

/-- A session that a node would install. -/
def freshSession : CachedSession :=
  newSession (deriveHopKeys .plain (Bytes.zero 32)) (Bytes.zero 16)
    .forward 0

theorem bounded_tables_consistent_fresh :
    Consistent MAX_REASSEMBLER_MESSAGES ReassemblyManager.apply
        ReassemblyManager.table .new
      ∧ Consistent MAX_PENDING_RETRIEVALS RetrievalManager.apply
        RetrievalManager.table .new
      ∧ Consistent MAX_SESSION_CACHE (MixNode.applySession .plain)
        MixNode.sessions (.new Prims.someKey (Bytes.zero 16))
      ∧ Consistent MAX_SESSION_NONCES CachedSession.recordNonce
        CachedSession.nonces freshSession
      ∧ (ReassemblyManager.new.addFragment 0 oversizeFragment 0).1
        = false :=
  have h := bounded_tables_consistent .plain
    (.new Prims.someKey (Bytes.zero 16)) rfl freshSession rfl
  ⟨h.1, h.2.1, h.2.2.1, h.2.2.2.1,
    (h.2.2.2.2 [] .new 0 0 oversizeFragment rfl
      oversizeFragment_invalid).1⟩

/-- The large fragment has a session made for it, and is refused there. -/
theorem oversize_session_created : ¬ ∀ (ops : List ReassemblyManager.Op)
    (m : ReassemblyManager) (id now : Nat) (f : Fragment),
    m = ops.foldl ReassemblyManager.apply .new → ¬ f.Valid →
    (m.addFragment id f now).1 = false →
    (m.addFragment id f now).2.table = m.table := by
  intro h
  have hjunk := ReassemblyManager.addFragment_junk .new 0 0
    oversizeFragment_invalid
  have hsame := h [] .new 0 0 oversizeFragment rfl oversizeFragment_invalid
    hjunk.1
  exact Bool.false_ne_true
    (hjunk.2.1 hsame ⟨Nat.one_pos, by decide, Nat.one_pos⟩)

end StaticNet
