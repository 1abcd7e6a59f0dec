/-
A swap of two honest nodes, from the accepter's answer on.

# What can still go on

Once the accepter has answered, five deliveries are left: the accept to the
proposer, to each node the chunk it is to get, and to each the commit that
the other sends on its chunk. Nothing orders them but causality: a commit
exists once its chunk is in, and the proposer asks for its chunk once it
knows the terms. `Progress` records which of them have been; chunks may be
served and delivered any number of times, too early and again.

# The proof

`Standing` gives both nodes in closed form for every progress
(`Part.holdings`), with the messages that are on their way and the nonces
that are not to have been seen. Each delivery keeps it, by the stage lemmas
of one node; the other node is not touched. What is left is a count that no
event raises (`Progress.left`), and as long as it is not zero some packet
that is on its way, or a chunk that its holder serves, lowers it
(`Standing.unstuck`).
-/
import StaticNet.Swap.Proofs.Parts

namespace StaticNet

open Proc TransportState

/-- A signature verifies under the public key of its signing key. -/
def Prims.Signs (P : Prims) : Prop :=
  ∀ key msg, P.edCheck (P.edPublic key) msg (P.edSign key msg).toList = true

theorem plain_signs : Prims.plain.Signs := by
  intro key msg
  unfold Prims.edCheck
  rw [Bytes.length_toList, Bytes.ofList_toList, Prims.plain_edVerify]
  rfl

-- ========== progress

/-- Which of the five deliveries have been: the accept, the chunks by the
commits sent on them, and the commits. -/
structure Progress where
  accepted : Bool
  sent : Side → Option SwapCommit
  heard : Side → Bool

namespace Progress

def start : Progress := ⟨false, fun _ => none, fun _ => false⟩

def accept (q : Progress) : Progress := { q with accepted := true }

def send (q : Progress) (z : Side) (c : SwapCommit) : Progress :=
  { q with sent := Function.update q.sent z (some c) }

def hear (q : Progress) (z : Side) : Progress :=
  { q with heard := Function.update q.heard z true }

theorem send_self (q : Progress) (z : Side) (c : SwapCommit) :
    (q.send z c).sent z = some c := Function.update_self _ _ _

theorem send_ne (q : Progress) {z y : Side} (c : SwapCommit)
    (h : y ≠ z) : (q.send z c).sent y = q.sent y :=
  Function.update_of_ne h _ _

@[simp] theorem sent_accept (q : Progress) : q.accept.sent = q.sent := rfl

theorem hear_self (q : Progress) (z : Side) :
    (q.hear z).heard z = true := Function.update_self _ _ _

theorem hear_ne (q : Progress) {z y : Side} (h : y ≠ z) :
    (q.hear z).heard y = q.heard y := Function.update_of_ne h _ _

/-- How many deliveries are left. -/
def left (q : Progress) : Nat :=
  (!q.accepted).toNat
    + ((q.sent .left).isNone.toNat + (q.sent .right).isNone.toNat)
    + ((!q.heard .left).toNat + (!q.heard .right).toNat)

/-- Does a chunk for this node come at the time it is waited for? -/
def wants (q : Progress) (proposer z : Side) : Bool :=
  (q.sent z).isNone && (decide (z ≠ proposer) || q.accepted)

end Progress

/-- What the two nodes have agreed on: the parts before the accept is in,
the accept, and what the nodes were. -/
structure Terms where
  proposer : Side
  accept : SwapAccept
  offered : Part
  answered : Part
  base : Side → Holdings
  ident : Side → Identity

namespace Terms

/-- The proposer's part once it has the accept. -/
def adopted (T : Terms) : Part :=
  { T.offered with
    entry := adoptTerms T.accept ENCRYPTED_CHUNK_SIZE T.offered.entry }

/-- The proposer's holdings with room for its chunk reserved. -/
def roomTaken (T : Terms) : Holdings :=
  { T.base T.proposer with
    storageCapacity :=
      (T.base T.proposer).storageCapacity.reserve ENCRYPTED_CHUNK_SIZE }

/-- The part of a node. -/
def part (T : Terms) (z : Side) : Part :=
  if z = T.proposer then T.adopted else T.answered

/-- What a node holds at some progress. -/
def holdings (T : Terms) (q : Progress) (z : Side) : Holdings :=
  if z = T.proposer then
    if q.accepted then
      T.adopted.holdings T.roomTaken (q.sent z).isSome (q.heard z)
    else T.offered.holdings (T.base z) false (q.heard z)
  else T.answered.holdings (T.base z) (q.sent z).isSome (q.heard z)

def idOf (T : Terms) (z : Side) : NodeId := (T.ident z).nodeId

end Terms

/-- Does the key a message presents agree with the pinned one? -/
def Identity.pins (i : Identity) (sender : NodeId) (key : Bytes 32) :
    Bool :=
  match i.routingTable.get sender with
  | some known =>
      match known.identityPublicKey with
      | some stored => stored == key
      | none => true
  | none => true

namespace Duo

variable (P : Prims) (T : Terms)

/-- What an event adds to the progress. -/
def advance (q : Progress) (w : Duo) : DuoEvent → Progress
  | .deliver i env =>
      match w.net[i]? with
      | some ⟨_, _, .message (.accept _)⟩ => q.accept
      | some ⟨src, _, .message (.commit _)⟩ => q.hear src.other
      | some ⟨src, _, .chunk _ _⟩ =>
          if q.wants T.proposer src.other then
            q.send src.other
              (ownCommit P env T.offered.entry.proposalId
                (w.node src.other))
          else q
      | _ => q
  | _ => q

/-- The nonce a commit draws has not been seen by its receiver, and is not
the accept's if both go to the same node. -/
def FreshDraw (z : Side) (w : Duo) (env : Env) : Prop :=
  (w.node z.other).maintenanceNonces.get
      (freshNonce (env.nonce 0) (env.resampled 0)) = none
    ∧ (z ≠ T.proposer →
      freshNonce (env.nonce 0) (env.resampled 0) ≠ T.accept.nonce)

/-- The events of this swap: the chunks are served at any time and
delivered at any time, the accept and the commits delivered once. -/
def Allowed (q : Progress) (w : Duo) : DuoEvent → Prop
  | .propose _ _ _ | .expire _ _ => False
  | .serve _ _ => True
  | .deliver i env =>
      match w.net[i]? with
      | none => True
      | some ⟨src, dest, payload⟩ =>
          dest = T.idOf src.other ∧
            match payload with
            | .message (.accept a) =>
                src = T.proposer.other ∧ a = T.accept ∧ q.accepted = false
            | .message (.commit c) =>
                q.sent src = some c ∧ q.heard src.other = false
            | .chunk chunkId data =>
                chunkId = (T.part src.other).entry.theirChunkId
                  ∧ data = (T.part src.other).data
                  ∧ (q.wants T.proposer src.other = true →
                    FreshDraw T src.other w env)
            | _ => False

/-- Every event of the run is allowed where it happens. -/
def AllAllowed : Progress → Duo → List DuoEvent → Prop
  | _, _, [] => True
  | q, w, e :: es =>
      Allowed T q w e
        ∧ AllAllowed (advance P T q w e) (step P w e) es

/-- The progress after a run. -/
def progress : Progress → Duo → List DuoEvent → Progress
  | q, _, [] => q
  | q, w, e :: es => progress (advance P T q w e) (step P w e) es

end Duo

namespace Terms

/-- Terms that can be played out. -/
structure Sound (P : Prims) (T : Terms) : Prop where
  distinct : T.idOf .left ≠ T.idOf .right
  one_id : T.answered.entry.proposalId = T.offered.entry.proposalId
  accept_id : T.accept.proposalId = T.offered.entry.proposalId
  accept_from : T.accept.fromNode = T.idOf T.proposer.other
  accept_signed : T.accept.verifySignature P = true
  accept_key : T.accept.identityPublicKey
    = P.edPublic (T.ident T.proposer.other).identityKey
  pinned : ∀ z, (T.ident z).pins (T.idOf z.other)
    (P.edPublic (T.ident z.other).identityKey) = true
  room : (T.base T.proposer).storageCapacity.canAccept
    ENCRYPTED_CHUNK_SIZE 0 = true
  peer : ∀ z, (T.part z).entry.peer = T.idOf z.other
  fair : ∀ z, (T.part z).Fair P (T.base z)
  unnamed : ∀ commitIn, awaits T.adopted.entry.theirChunkId
    (T.offered.stage false commitIn) = false
  supplies : ∀ z, (T.base z).chunkHolder.getChunk
    (T.part z.other).entry.theirChunkId = some (T.part z.other).data

/-- A commit as its sender makes it. -/
structure Genuine (P : Prims) (T : Terms) (z : Side) (c : SwapCommit) :
    Prop where
  id : c.proposalId = T.offered.entry.proposalId
  sender : c.fromNode = T.idOf z
  signed : c.verifySignature P = true
  key : c.identityPublicKey = P.edPublic (T.ident z).identityKey

variable {P : Prims} {T : Terms}

@[simp] theorem part_proposer : T.part T.proposer = T.adopted :=
  if_pos rfl

theorem part_other : T.part T.proposer.other = T.answered :=
  if_neg (Side.other_ne _)

/-- The agreed terms keep the proposal and the peer. -/
theorem adopted_entry :
    T.adopted.entry.proposalId = T.offered.entry.proposalId
      ∧ T.adopted.entry.peer = T.offered.entry.peer := by
  unfold adopted adoptTerms
  dsimp only
  split <;> exact ⟨rfl, rfl⟩

theorem Sound.part_id (h : T.Sound P) (z : Side) :
    (T.part z).entry.proposalId = T.offered.entry.proposalId := by
  rcases Side.eq_or T.proposer z with rfl | rfl
  · rw [part_proposer]
    exact adopted_entry.1
  · rw [part_other]
    exact h.one_id

theorem Sound.adopted_fair (h : T.Sound P) :
    T.adopted.Fair P T.roomTaken := by
  have hfair := h.fair T.proposer
  rw [part_proposer] at hfair
  exact ⟨hfair.size, hfair.gate, hfair.missing, hfair.alone⟩

variable {q : Progress}

/-- The part a node is playing, and from what. -/
theorem Sound.played (h : T.Sound P) (z : Side)
    (hknown : (decide (z ≠ T.proposer) || q.accepted) = true) :
    ∃ b, (T.part z).Fair P b ∧ ∀ q' : Progress, q'.accepted = q.accepted →
      T.holdings q' z
        = (T.part z).holdings b (q'.sent z).isSome (q'.heard z) := by
  unfold Terms.holdings
  by_cases hz : z = T.proposer
  · subst hz
    have haccepted : q.accepted = true := by simpa using hknown
    refine ⟨T.roomTaken, ?_, fun q' hq' => ?_⟩
    · rw [part_proposer]
      exact h.adopted_fair
    · rw [if_pos rfl, hq', if_pos haccepted, part_proposer]
  · have hpart : T.part z = T.answered := if_neg hz
    refine ⟨T.base z, h.fair z, fun q' _ => ?_⟩
    rw [if_neg hz, hpart]

/-- Before the accept the proposer has its own offer. -/
theorem holdings_offered (h : q.accepted = false) :
    T.holdings q T.proposer
      = T.offered.holdings (T.base T.proposer) false
          (q.heard T.proposer) := by
  unfold Terms.holdings
  rw [if_pos rfl, h]
  rfl

/-- The holdings of a node depend on its own deliveries. -/
theorem holdings_hear_ne {y z : Side} (h : y ≠ z) :
    T.holdings (q.hear z) y = T.holdings q y := by
  unfold holdings
  rw [q.hear_ne h]
  rfl

theorem holdings_send_ne {y z : Side} (c : SwapCommit) (h : y ≠ z) :
    T.holdings (q.send z c) y = T.holdings q y := by
  unfold holdings
  rw [q.send_ne c h]
  rfl

end Terms

-- ============ nonces

section

variable {env : Env} {nonce other : Bytes 32} {cache : FMap (Bytes 32) Nat}

/-- A nonce that is not in the cache passes. -/
theorem checkNonceCache_fresh (h : cache.get nonce = none) :
    (checkNonceCache env nonce cache).1 = true := by
  unfold checkNonceCache
  have hc : (cache.retain fun _ ts =>
      decide (env.now - ts ≤ HANDSHAKE_NONCE_TTL_SECS)).contains nonce
        = false := by
    unfold FMap.contains
    rw [FMap.get_retain, h]
    rfl
  simp only [hc, Bool.false_eq_true, if_false]

/-- Only the nonce that is checked gets into the cache. -/
theorem checkNonceCache_absent (hne : other ≠ nonce)
    (h : cache.get other = none) :
    (checkNonceCache env nonce cache).2.get other = none := by
  have hr : (cache.retain fun _ ts =>
      decide (env.now - ts ≤ HANDSHAKE_NONCE_TTL_SECS)).get other
        = none := by
    rw [FMap.get_retain, h]
    rfl
  unfold checkNonceCache
  dsimp only
  split
  · exact hr
  · rw [FMap.get_insert_ne _ _ hne]
    split
    · split
      · rw [FMap.get_erase, hr, ite_self]
      · exact hr
    · exact hr

end

-- ========== standing

namespace Duo

/-- Both nodes in closed form, the messages that are on their way, and the
nonces that have yet to be seen. -/
structure Standing (P : Prims) (T : Terms) (q : Progress) (w : Duo) :
    Prop where
  holdings : ∀ z, (w.node z).holdings = T.holdings q z
  identity : ∀ z, (w.node z).identity = T.ident z
  answered : (⟨T.proposer.other, T.idOf T.proposer,
    .message (.accept T.accept)⟩ : Packet) ∈ w.net
  order : q.accepted = false → q.sent T.proposer = none
  commits : ∀ z c, q.sent z = some c → T.Genuine P z c
    ∧ (⟨z, T.idOf z.other, .message (.commit c)⟩ : Packet) ∈ w.net
  accept_fresh : q.accepted = false →
    (w.node T.proposer).maintenanceNonces.get T.accept.nonce = none
  commit_fresh : ∀ z c, q.sent z = some c → q.heard z.other = false →
    (w.node z.other).maintenanceNonces.get c.nonce = none
  apart : ∀ c, q.sent T.proposer.other = some c →
    c.nonce ≠ T.accept.nonce

variable {P : Prims} {T : Terms} {q : Progress} {w : Duo} {env : Env}

/-- What has been sent to a node reaches it. -/
theorem Standing.delivered (h : Standing P T q w) {i : Nat} {src : Side}
    {dest : NodeId} {payload : Payload}
    (hnet : w.net[i]? = some ⟨src, dest, payload⟩)
    (hdest : dest = T.idOf src.other) :
    step P w (.deliver i env)
      = w.exec src.other (payload.handler P env) := by
  have hid : (w.node src.other).nodeId = T.idOf src.other :=
    congrArg Identity.nodeId (h.identity src.other)
  refine step_deliver hnet ?_
  unfold Duo.addressee
  exact if_pos (hid.trans hdest.symm)

/-- A node authenticates a message of its peer that it has not seen. -/
theorem Standing.authentic (h : Standing P T q w) (hT : T.Sound P)
    {z : Side} {key nonce : Bytes 32}
    (hkey : key = P.edPublic (T.ident z.other).identityKey)
    (hfresh : (w.node z).maintenanceNonces.get nonce = none) :
    StaticNet.authentic env (T.idOf z.other) key nonce (w.node z)
      = true := by
  unfold StaticNet.authentic
  rw [checkNonceCache_fresh hfresh, Bool.and_true]
  have hpins : pinnedKeyOk (T.idOf z.other) key (w.node z)
      = (w.node z).identity.pins (T.idOf z.other) key := rfl
  rw [hpins, h.identity z, hkey]
  exact hT.pinned z

-- ======== deliveries

theorem exec_node_self (w : Duo) (z : Side) (p : Handler Unit) :
    (w.exec z p).node z = p.post (w.node z) := if_pos rfl

theorem exec_node_other (w : Duo) (z : Side) (p : Handler Unit) :
    (w.exec z p).node z.other = w.node z.other :=
  if_neg (Side.other_ne z)

/-- A handler that leaves the nonces of its node leaves all of them. -/
theorem exec_nonces {z : Side} {p : Handler Unit}
    (hnonces : (p.post (w.node z)).maintenanceNonces
      = (w.node z).maintenanceNonces) (y : Side) :
    ((w.exec z p).node y).maintenanceNonces
      = (w.node y).maintenanceNonces := by
  rcases Side.eq_or z y with rfl | rfl
  · rw [exec_node_self, hnonces]
  · rw [exec_node_other]

/-- What both nodes keep when one of them runs a handler. -/
theorem Standing.exec_identity (h : Standing P T q w) {z : Side}
    {p : Handler Unit} {left : Holdings} {cache : FMap (Bytes 32) Nat}
    {sent : List (NodeId × SwapMessage)}
    (hadv : Advances p (w.node z) left cache sent) (y : Side) :
    ((w.exec z p).node y).identity = T.ident y := by
  rcases Side.eq_or z y with rfl | rfl
  · rw [exec_node_self, hadv.identity]
    exact h.identity _
  · rw [exec_node_other]
    exact h.identity _

/-- The accept is adopted. -/
theorem Standing.accept (h : Standing P T q w) (hT : T.Sound P)
    (hq : q.accepted = false) :
    Standing P T q.accept
      (w.exec T.proposer (handleMaintenanceAccept P env T.accept)) := by
  have hs := h.holdings T.proposer
  rw [Terms.holdings_offered hq] at hs
  have hpeer : T.accept.fromNode = T.offered.entry.peer := by
    rw [hT.accept_from, ← Terms.adopted_entry.2, ← Terms.part_proposer]
    exact (hT.peer T.proposer).symm
  have hauth : (T.accept.verifySignature P
      && StaticNet.authentic env T.accept.fromNode
        T.accept.identityPublicKey T.accept.nonce
        (w.node T.proposer)) = true := by
    rw [hT.accept_signed, Bool.true_and, hT.accept_from]
    exact h.authentic hT hT.accept_key (h.accept_fresh hq)
  have hadv := advances_accept hs hT.accept_id hpeer hT.room hauth
  have hnone : q.sent T.proposer = none := h.order hq
  refine ⟨?_, h.exec_identity hadv, ?_, ?_, ?_, ?_, ?_, h.apart⟩
  · intro z
    rcases Side.eq_or T.proposer z with rfl | rfl
    · rw [exec_node_self, hadv.holdings]
      unfold Terms.holdings
      rw [if_pos rfl, Progress.sent_accept, hnone]
      rfl
    · rw [exec_node_other, h.holdings]
      unfold Terms.holdings
      rw [if_neg (Side.other_ne _), if_neg (Side.other_ne _)]
      rfl
  · exact List.mem_append_left _ h.answered
  · intro hno
    cases hno
  · intro z c hc
    exact ⟨(h.commits z c hc).1,
      List.mem_append_left _ (h.commits z c hc).2⟩
  · intro hno
    cases hno
  · intro z c hc hheard
    have hkept := h.commit_fresh z c hc hheard
    rcases Side.eq_or T.proposer z with rfl | rfl
    · rw [Progress.sent_accept, hnone] at hc
      cases hc
    · rw [Side.other_other] at hkept ⊢
      rw [exec_node_self, hadv.nonces]
      exact checkNonceCache_absent (h.apart c hc) hkept

/-- A node hears its peer's commit in any stage. -/
theorem Standing.hears (env : Env) (h : Standing P T q w)
    (hT : T.Sound P) {z : Side}
    {c : SwapCommit} (hgenuine : T.Genuine P z.other c)
    (hfresh : (w.node z).maintenanceNonces.get c.nonce = none)
    (hheard : q.heard z = false) :
    Advances (handleMaintenanceCommit P env c) (w.node z)
      (T.holdings (q.hear z) z)
      (checkNonceCache env c.nonce (w.node z).maintenanceNonces).2 [] := by
  have hs := h.holdings z
  have hauth : (c.verifySignature P && StaticNet.authentic env c.fromNode
      c.identityPublicKey c.nonce (w.node z)) = true := by
    rw [hgenuine.signed, Bool.true_and, hgenuine.sender]
    exact h.authentic hT hgenuine.key hfresh
  have hpeer : c.fromNode = (T.part z).entry.peer := by
    rw [hgenuine.sender, hT.peer]
  by_cases hknown : (decide (z ≠ T.proposer) || q.accepted) = true
  · obtain ⟨b, hfair, hat⟩ := hT.played z hknown
    rw [hat q rfl, hheard] at hs
    have hid := hgenuine.id.trans (hT.part_id z).symm
    have hadv := advances_commit (fun _ => hfair.missing) hs hid hpeer
      hauth
    rw [hat (q.hear z) rfl, Progress.hear_self]
    exact hadv
  · simp only [Bool.or_eq_true, decide_eq_true_eq, not_or, not_not,
      Bool.not_eq_true] at hknown
    obtain ⟨rfl, hq⟩ := hknown
    rw [Terms.holdings_offered hq, hheard] at hs
    rw [Terms.part_proposer, Terms.adopted_entry.2] at hpeer
    have hadv := advances_commit (fun hin => absurd hin Bool.false_ne_true)
      hs hgenuine.id hpeer hauth
    have hoffered : T.holdings (q.hear T.proposer) T.proposer
        = T.offered.holdings (T.base T.proposer) false
          ((q.hear T.proposer).heard T.proposer) :=
      Terms.holdings_offered hq
    rw [hoffered, Progress.hear_self]
    exact hadv

/-- A commit comes in. -/
theorem Standing.commit (h : Standing P T q w) (hT : T.Sound P)
    {src : Side} {c : SwapCommit} (hc : q.sent src = some c)
    (hheard : q.heard src.other = false) :
    Standing P T (q.hear src.other)
      (w.exec src.other (handleMaintenanceCommit P env c)) := by
  have hgenuine := (h.commits src c hc).1
  have hfresh := h.commit_fresh src c hc hheard
  have hadv := h.hears env hT (z := src.other)
    (by rwa [Side.other_other]) hfresh hheard
  have hback := exec_node_other w src.other
    (handleMaintenanceCommit P env c)
  rw [Side.other_other] at hback
  refine ⟨?_, h.exec_identity hadv, ?_, h.order, ?_, ?_, ?_, h.apart⟩
  · intro z
    rcases Side.eq_or src z with rfl | rfl
    · rw [hback, h.holdings]
      exact (Terms.holdings_hear_ne (Side.other_ne _).symm).symm
    · rw [exec_node_self, hadv.holdings]
  · exact List.mem_append_left _ h.answered
  · intro z c' hc'
    exact ⟨(h.commits z c' hc').1,
      List.mem_append_left _ (h.commits z c' hc').2⟩
  · intro hq
    have hkept := h.accept_fresh hq
    rcases Side.eq_or src T.proposer with hsrc | hsrc
    · rw [hsrc] at hkept ⊢
      rwa [hback]
    · rw [hsrc] at hkept ⊢
      rw [exec_node_self, hadv.nonces]
      refine checkNonceCache_absent (fun heq => ?_) hkept
      refine h.apart c ?_ heq.symm
      rwa [hsrc, Side.other_other]
  · intro z c' hc' hno
    rcases Side.eq_or src z with rfl | rfl
    · rw [Progress.hear_self] at hno
      cases hno
    · rw [Side.other_other, q.hear_ne (Side.other_ne src).symm] at hno
      have hkept := h.commit_fresh src.other c' hc'
      rw [Side.other_other] at hkept ⊢
      rw [hback]
      exact hkept hno

/-- The commit a node sends is genuine. -/
theorem genuine_ownCommit (env : Env) (hsign : P.Signs)
    (h : Standing P T q w) (z : Side) :
    T.Genuine P z (ownCommit P env T.offered.entry.proposalId (w.node z))
      ∧ (ownCommit P env T.offered.entry.proposalId (w.node z)).nonce
        = freshNonce (env.nonce 0) (env.resampled 0) := by
  have hid : (w.node z).nodeId = T.idOf z :=
    congrArg Identity.nodeId (h.identity z)
  have hkey : (w.node z).identityKey = (T.ident z).identityKey :=
    congrArg Identity.identityKey (h.identity z)
  refine ⟨⟨rfl, hid, hsign _ _, ?_⟩, rfl⟩
  rw [← hkey]
  rfl

/-- The chunk comes in when it is waited for. -/
theorem Standing.chunk (h : Standing P T q w) (hT : T.Sound P)
    (hsign : P.Signs) {z : Side} (hwants : q.wants T.proposer z = true)
    (hfresh : FreshDraw T z w env) :
    Standing P T
      (q.send z (ownCommit P env T.offered.entry.proposalId (w.node z)))
      (w.exec z (Payload.handler P env
        (.chunk (T.part z).entry.theirChunkId (T.part z).data))) := by
  unfold Progress.wants at hwants
  rw [Bool.and_eq_true, Option.isNone_iff_eq_none] at hwants
  obtain ⟨hnone, hknown⟩ := hwants
  obtain ⟨b, hfair, hat⟩ := hT.played z hknown
  have hs := h.holdings z
  rw [hat q rfl, hnone] at hs
  have hadv := advances_chunk env hfair hs
  obtain ⟨hgenuine, hnonce⟩ := genuine_ownCommit env hsign h z
  rw [hT.part_id z, hT.peer z] at hadv
  refine ⟨?_, h.exec_identity hadv, ?_, ?_, ?_, ?_, ?_, ?_⟩
  · intro y
    rcases Side.eq_or z y with rfl | rfl
    · rw [exec_node_self, hadv.holdings, hat (q.send _ _) rfl,
        Progress.send_self]
      rfl
    · rw [exec_node_other, h.holdings]
      exact (Terms.holdings_send_ne _ (Side.other_ne z)).symm
  · exact List.mem_append_left _ h.answered
  · intro hq
    have hz : T.proposer ≠ z := by
      rintro rfl
      have hq' : q.accepted = false := hq
      simp [hq'] at hknown
    rw [q.send_ne _ hz]
    exact h.order hq
  · intro y c hc
    have hnet : (w.exec z (Payload.handler P env
        (.chunk (T.part z).entry.theirChunkId (T.part z).data))).net
        = w.net ++ [⟨z, T.idOf z.other, .message (.commit
          (ownCommit P env T.offered.entry.proposalId (w.node z)))⟩] :=
      congrArg (w.net ++ ·) (hadv.sends z)
    rw [hnet]
    by_cases hy : y = z
    · subst hy
      rw [Progress.send_self] at hc
      obtain rfl := Option.some.inj hc
      exact ⟨hgenuine,
        List.mem_append_right _ (List.mem_singleton.2 rfl)⟩
    · rw [q.send_ne _ hy] at hc
      exact ⟨(h.commits y c hc).1,
        List.mem_append_left _ (h.commits y c hc).2⟩
  · intro hq
    rw [exec_nonces hadv.nonces]
    exact h.accept_fresh hq
  · intro y c hc hheard
    rcases Side.eq_or z y with rfl | rfl
    · rw [Progress.send_self] at hc
      obtain rfl := Option.some.inj hc
      rw [exec_node_other, hnonce]
      exact hfresh.1
    · rw [q.send_ne _ (Side.other_ne z)] at hc
      have hkept := h.commit_fresh z.other c hc hheard
      rw [Side.other_other] at hkept ⊢
      rw [exec_node_self, hadv.nonces]
      exact hkept
  · intro c hc
    by_cases hz : T.proposer.other = z
    · rw [hz, Progress.send_self] at hc
      obtain rfl := Option.some.inj hc
      rw [hnonce]
      refine hfresh.2 ?_
      rw [← hz]
      exact Side.other_ne _
    · rw [q.send_ne _ hz] at hc
      exact h.apart c hc

/-- A chunk that comes too early or again is ignored. -/
theorem Standing.chunk_ignored (h : Standing P T q w) (hT : T.Sound P)
    {z : Side} (hwants : q.wants T.proposer z = false) :
    Standing P T q
      (w.exec z (Payload.handler P env
        (.chunk (T.part z).entry.theirChunkId (T.part z).data))) := by
  have hs := h.holdings z
  have hnone : findAwaiting env (T.part z).entry.theirChunkId (w.node z)
      = none := by
    by_cases hknown : (decide (z ≠ T.proposer) || q.accepted) = true
    · obtain ⟨b, hfair, hat⟩ := hT.played z hknown
      have hsent : (q.sent z).isSome = true := by
        unfold Progress.wants at hwants
        rw [hknown, Bool.and_true] at hwants
        rw [Option.isSome_iff_ne_none]
        intro hno
        rw [hno] at hwants
        cases hwants
      rw [hat q rfl, hsent] at hs
      exact not_awaited hfair.alone rfl hs
    · simp only [Bool.or_eq_true, decide_eq_true_eq, not_or, not_not,
        Bool.not_eq_true] at hknown
      obtain ⟨rfl, hq⟩ := hknown
      rw [Terms.holdings_offered hq] at hs
      rw [Terms.part_proposer]
      refine not_awaited (fun pid swap hget hne => ?_) (hT.unnamed _) hs
      have hfair := hT.fair T.proposer
      rw [Terms.part_proposer] at hfair
      refine hfair.alone pid swap hget ?_
      rw [Terms.adopted_entry.1]
      exact hne
  have hadv := advances_chunk_ignored P (T.part z).data hnone
  refine ⟨?_, h.exec_identity hadv, List.mem_append_left _ h.answered,
    h.order, ?_, ?_, ?_, h.apart⟩
  · intro y
    rcases Side.eq_or z y with rfl | rfl
    · rw [exec_node_self, hadv.holdings]
      exact h.holdings _
    · rw [exec_node_other]
      exact h.holdings _
  · intro y c hc
    exact ⟨(h.commits y c hc).1,
      List.mem_append_left _ (h.commits y c hc).2⟩
  · intro hq
    rw [exec_nonces hadv.nonces]
    exact h.accept_fresh hq
  · intro y c hc hheard
    rw [exec_nonces hadv.nonces]
    exact h.commit_fresh y c hc hheard

-- ============ events

/-- A packet more on its way. -/
theorem Standing.push (h : Standing P T q w) (pkt : Packet) :
    Standing P T q { w with net := w.net ++ [pkt] } where
  holdings := h.holdings
  identity := h.identity
  answered := List.mem_append_left _ h.answered
  order := h.order
  commits := fun z c hc =>
    ⟨(h.commits z c hc).1, List.mem_append_left _ (h.commits z c hc).2⟩
  accept_fresh := h.accept_fresh
  commit_fresh := h.commit_fresh
  apart := h.apart

/-- Every allowed event keeps the nodes standing, one delivery further. -/
theorem Standing.step (h : Standing P T q w) (hT : T.Sound P)
    (hsign : P.Signs) {e : DuoEvent} (hallowed : Allowed T q w e) :
    Standing P T (advance P T q w e) (step P w e) := by
  cases e with
  | propose x env p => exact hallowed.elim
  | expire x env => exact hallowed.elim
  | serve x chunkId =>
      unfold advance Duo.step
      dsimp only
      cases (w.node x).chunkHolder.getChunk chunkId with
      | none => exact h
      | some data => exact h.push _
  | deliver i env =>
      unfold Allowed at hallowed
      cases hnet : w.net[i]? with
      | none =>
          have hstep : Duo.step P w (.deliver i env) = w := by
            unfold Duo.step
            simp only [hnet]
          unfold advance
          simp only [hstep, hnet]
          exact h
      | some pkt =>
          obtain ⟨src, dest, payload⟩ := pkt
          simp only [hnet] at hallowed
          obtain ⟨hdest, hallowed⟩ := hallowed
          rw [h.delivered hnet hdest]
          unfold advance
          simp only [hnet]
          cases payload with
          | proposal p => exact hallowed.elim
          | message m =>
              cases m with
              | accept a =>
                  obtain ⟨rfl, rfl, hq⟩ := hallowed
                  rw [Side.other_other]
                  exact h.accept hT hq
              | reject r => exact hallowed.elim
              | commit c => exact h.commit hT hallowed.1 hallowed.2
              | abort a => exact hallowed.elim
          | chunk chunkId data =>
              obtain ⟨rfl, rfl, hfresh⟩ := hallowed
              cases hwants : q.wants T.proposer src.other with
              | true =>
                  simp only [hwants, if_true]
                  exact h.chunk hT hsign hwants (hfresh hwants)
              | false =>
                  simp only [hwants, Bool.false_eq_true, if_false]
                  exact h.chunk_ignored hT hwants

/-- Every allowed run keeps them standing. -/
theorem Standing.run (hT : T.Sound P) (hsign : P.Signs)
    {es : List DuoEvent} (h : Standing P T q w)
    (hall : AllAllowed P T q w es) :
    Standing P T (progress P T q w es) (run P w es) := by
  induction es generalizing q w with
  | nil => exact h
  | cons e es ih =>
      exact ih (h.step hT hsign hall.1) hall.2

-- ======= never stuck

/-- A node has the chunk its peer is to get, whatever it has got itself. -/
theorem Standing.supplies (h : Standing P T q w) (hT : T.Sound P)
    (z : Side) :
    (w.node z).chunkHolder.getChunk (T.part z.other).entry.theirChunkId
      = some (T.part z.other).data := by
  have hhas := hT.supplies z
  have hne : (T.part z.other).entry.theirChunkId
      ≠ (T.part z).entry.theirChunkId := by
    intro heq
    have hmissing := (hT.fair z).missing
    rw [← heq] at hmissing
    unfold ChunkHolder.hasChunk FMap.contains at hmissing
    unfold ChunkHolder.getChunk at hhas
    rw [hhas] at hmissing
    cases hmissing
  have hpart : ∀ (p : Part) (b : Holdings) (c m : Bool),
      p.entry.theirChunkId = (T.part z).entry.theirChunkId ∨ c = false →
      b.chunkHolder = (T.base z).chunkHolder →
      (p.holdings b c m).chunkHolder.getChunk
          (T.part z.other).entry.theirChunkId
        = some (T.part z.other).data := by
    intro p b c m hid hb
    unfold Part.holdings
    split
    next hboth =>
      have hp := hid.resolve_right (by rintro rfl; cases hboth)
      unfold ChunkHolder.getChunk ChunkHolder.addChunk
      dsimp only
      rw [hp, hb, FMap.get_insert_ne _ _ hne]
      exact hhas
    next =>
      rw [hb]
      exact hhas
  have hholder : (w.node z).chunkHolder = (T.holdings q z).chunkHolder :=
    congrArg Holdings.chunkHolder (h.holdings z)
  rw [hholder]
  unfold Terms.holdings
  split
  next hz =>
    subst hz
    split
    · exact hpart _ _ _ _ (.inl (by rw [Terms.part_proposer])) rfl
    · exact hpart _ _ _ _ (.inr rfl) rfl
  next hz =>
    exact hpart _ _ _ _ (.inl (by rw [Terms.part, if_neg hz])) rfl

theorem left_accept (hq : q.accepted = false) : q.accept.left < q.left := by
  unfold Progress.left
  simp [hq, Progress.accept]

theorem left_send {z : Side} (c : SwapCommit) (hq : q.sent z = none) :
    (q.send z c).left < q.left := by
  unfold Progress.left Progress.send
  cases z <;> simp [hq, Function.update]

theorem left_hear {z : Side} (hq : q.heard z = false) :
    (q.hear z).left < q.left := by
  unfold Progress.left Progress.hear
  cases z <;> simp [hq, Function.update]

/-- As long as a delivery is left, one more can be made. -/
theorem Standing.unstuck (h : Standing P T q w) (hT : T.Sound P)
    (hleft : 0 < q.left) (hfresh : ∀ z, FreshDraw T z w env) :
    ∃ es, AllAllowed P T q w es
      ∧ (progress P T q w es).left < q.left := by
  by_cases hq : q.accepted = false
  · obtain ⟨i, hi, hnet⟩ := List.mem_iff_getElem.1 h.answered
    have hnet' := (List.getElem?_eq_getElem hi).trans (congrArg some hnet)
    refine ⟨[.deliver i env], ⟨?_, trivial⟩, ?_⟩
    · unfold Allowed
      simp only [hnet']
      exact ⟨by rw [Side.other_other], trivial, trivial, hq⟩
    · simp only [progress, advance, hnet']
      exact left_accept hq
  by_cases hsent : ∃ z, q.sent z = none
  · obtain ⟨z, hz⟩ := hsent
    have hhas := h.supplies hT z.other
    rw [Side.other_other] at hhas
    have hid : (w.node z).nodeId = T.idOf z :=
      congrArg Identity.nodeId (h.identity z)
    have hwants : q.wants T.proposer z = true := by
      unfold Progress.wants
      rw [hz]
      simpa using Or.inr hq
    have hserve : Duo.step P w
        (.serve z.other (T.part z).entry.theirChunkId)
        = { w with net := w.net ++ [⟨z.other, T.idOf z,
            .chunk (T.part z).entry.theirChunkId (T.part z).data⟩] } := by
      unfold Duo.step
      simp only [hhas, Side.other_other, hid]
    refine ⟨[.serve z.other (T.part z).entry.theirChunkId,
      .deliver w.net.length env], ⟨trivial, ?_, trivial⟩, ?_⟩
    · rw [hserve]
      unfold Allowed
      simp only [List.getElem?_concat_length, Side.other_other]
      exact ⟨trivial, trivial, trivial, fun _ => hfresh z⟩
    · simp only [progress, hserve]
      unfold advance
      simp only [List.getElem?_concat_length, Side.other_other, hwants,
        if_true]
      exact left_send _ hz
  · have hin : ∀ z, ∃ c, q.sent z = some c := fun z =>
      Option.ne_none_iff_exists'.1 (not_exists.1 hsent z)
    have hheard : ∃ z, q.heard z = false := by
      by_contra hno
      have hall : ∀ z, q.heard z = true := by simpa using hno
      obtain ⟨c, hc⟩ := hin .left
      obtain ⟨c', hc'⟩ := hin .right
      unfold Progress.left at hleft
      simp [hall, hc, hc', hq] at hleft
    obtain ⟨z, hz⟩ := hheard
    obtain ⟨c, hc⟩ := hin z.other
    obtain ⟨i, hi, hnet⟩ :=
      List.mem_iff_getElem.1 (h.commits z.other c hc).2
    have hnet' := (List.getElem?_eq_getElem hi).trans (congrArg some hnet)
    refine ⟨[.deliver i env], ⟨?_, trivial⟩, ?_⟩
    · unfold Allowed
      simp only [hnet', Side.other_other]
      exact ⟨trivial, hc, hz⟩
    · simp only [progress, advance, hnet', Side.other_other]
      exact left_hear hz

end Duo

end StaticNet
