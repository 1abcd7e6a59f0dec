/-
Storage challenges over time: a challenger, the holders it challenges, and
what is between them (`static-node/src/runner.rs`,
`run_verification_tick`, `handle_verification_challenge` and
`handle_verification_response`).

# Interleaving

A step is one lock section. A challenge is registered before it is sent
and withdrawn when the sending fails; a response takes the challenge out of
the table in one section and its verdict goes into the books in another,
and so does each challenge that the sweep takes out. In between is
anything.

# What is in between

What was sent can be delivered, in any order, late, again or never, and
anybody can send a response of their own. Holders come by chunks and lose
them, and the books are used for everything else they are for.

# What is a record only

`issued`, `withdrawn`, `counted`, `received` and `sweeps` are for what is
said about a run.
-/
import StaticNet.Accounting.Freeloader
import StaticNet.Node.Possession

namespace StaticNet

def VERIFICATION_TIMEOUT_SECS : Nat := 600

/-- A decided challenge, with the node that it went to. -/
structure Verdict where
  nonce : Bytes 32
  node : NodeId
  success : Bool
deriving DecidableEq

inductive AuditLetter
  | challenge (receiver : NodeId) (c : VerificationChallenge)
  | response (r : VerificationResponse)

structure Audit where
  pending : FMap (Bytes 32) VerificationPending
  verdicts : List Verdict
  accounting : AccountingState
  holders : NodeId → ChunkHolder
  sent : List AuditLetter
  issued : List (Bytes 32 × VerificationPending)
  withdrawn : List (Bytes 32)
  counted : List Verdict
  received : List VerificationResponse
  sweeps : List Nat

inductive AuditMove
  /-- a challenge is drawn, registered and sent -/
  | issue (t : VerificationTick)
  | withdraw (nonce : Bytes 32)
  | sweep (order : IterOrder (Bytes 32)) (now : Nat)
  | deliver (i : Nat)
  /-- a response out of nowhere -/
  | forge (r : VerificationResponse)
  /-- a verdict goes into the books -/
  | record (i : Nat) (now : UInt64)
  /-- a holder comes by chunks, or loses them -/
  | store (q : NodeId) (holder : ChunkHolder)
  /-- the books are used for something else -/
  | books (e : AccountingEvent)

namespace Audit

variable (P : Prims)

def start (accounting : AccountingState) (holders : NodeId → ChunkHolder) :
    Audit :=
  ⟨∅, [], accounting, holders, [], [], [], [], [], []⟩

/-- The challenge of a tick, from its registration on. -/
def issue (net : Audit) (t : VerificationTick) : Audit :=
  match t.challenge with
  | none => net
  | some (pending, challenge) =>
      { net with
        pending := net.pending.insert t.nonce pending
        sent := net.sent ++ [.challenge pending.challengedNode challenge]
        issued := net.issued ++ [(t.nonce, pending)] }

/-- The sending failed. -/
def withdraw (net : Audit) (nonce : Bytes 32) : Audit :=
  { net with
    pending := net.pending.erase nonce
    withdrawn := net.withdrawn
      ++ if net.pending.contains nonce then [nonce] else [] }

/-- The challenges that are due. -/
def due (net : Audit) (order : IterOrder (Bytes 32)) (now : Nat) :
    List (Bytes 32) :=
  (order.iter net.pending.keys).filter fun nonce =>
    (net.pending.get nonce).any fun p =>
      VERIFICATION_TIMEOUT_SECS < now - p.sentAt

/-- The timeout sweep: unanswered challenges are failures. -/
def sweep (net : Audit) (order : IterOrder (Bytes 32)) (now : Nat) : Audit :=
  let nonces := net.due order now
  { net with
    pending := nonces.foldl FMap.erase net.pending
    verdicts := net.verdicts ++ nonces.filterMap fun nonce =>
      (net.pending.get nonce).map fun p => ⟨nonce, p.challengedNode, false⟩
    sweeps := net.sweeps ++ [now] }

/-- The first section of `handle_verification_response`. -/
def respond (net : Audit) (r : VerificationResponse) : Audit :=
  { net with
    pending := net.pending.erase r.nonce
    verdicts := net.verdicts ++ ((net.pending.get r.nonce).map fun p =>
      (⟨r.nonce, p.challengedNode,
        verifySegmentResponse P r p.expectedHash⟩ : Verdict)).toList
    received := net.received ++ [r] }

/-- A verdict in the books. -/
def bookVerdict (st : AccountingState) (v : Verdict) (now : UInt64) :
    AccountingState :=
  if v.success then st.recordChallengeSuccess v.node now
  else st.recordChallengeFailure v.node now

/-- The second section, of one of the verdicts. -/
def record (net : Audit) (i : Nat) (now : UInt64) : Audit :=
  match net.verdicts[i]? with
  | none => net
  | some v =>
      { net with
        verdicts := net.verdicts.eraseIdx i
        accounting := bookVerdict net.accounting v now
        counted := net.counted ++ [v] }

def deliver (net : Audit) (i : Nat) : Audit :=
  match net.sent[i]? with
  | none => net
  | some (.challenge receiver c) =>
      { net with
        sent := net.sent
          ++ [.response (handleVerificationChallenge (net.holders receiver) c)] }
  | some (.response r) => net.respond P r

def step (net : Audit) : AuditMove → Audit
  | .issue t => net.issue t
  | .withdraw nonce => net.withdraw nonce
  | .sweep order now => net.sweep order now
  | .deliver i => net.deliver P i
  | .forge r => net.respond P r
  | .record i now => net.record i now
  | .store q holder =>
      { net with holders := Function.update net.holders q holder }
  | .books e => { net with accounting := e.step net.accounting }

def run (net : Audit) (moves : List AuditMove) : Audit :=
  moves.foldl (step P) net

/-- The nonces of what was issued. -/
def nonces (net : Audit) : List (Bytes 32) := net.issued.map Prod.fst

/-- The nonces that are decided or withdrawn. -/
def closed (net : Audit) : List (Bytes 32) :=
  (net.verdicts ++ net.counted).map Verdict.nonce ++ net.withdrawn

-- ====== the sections

/-- The two sections of a response, one after the other. -/
theorem respond_record (net : Audit) (r : VerificationResponse)
    (now : UInt64) :
    (((net.respond P r).record net.verdicts.length now).pending,
      ((net.respond P r).record net.verdicts.length now).accounting)
      = (handleVerificationResponse P net.pending net.accounting r now) := by
  unfold record respond handleVerificationResponse
  cases hget : net.pending.get r.nonce with
  | none =>
      have hnone : (net.verdicts ++ [])[net.verdicts.length]? = none := by
        rw [List.append_nil, List.getElem?_eq_none (Nat.le_refl _)]
      simp only [Option.map_none, Option.toList_none, hnone,
        FMap.erase_of_get_none hget]
  | some p =>
      simp only [Option.map_some, Option.toList_some,
        List.getElem?_concat_length]
      rfl

/-- A tick is a challenge that is issued, and withdrawn when it could not
be sent. -/
theorem runVerificationTick_pending (takes : NodeId → SphinxPacket → Bool)
    (t : VerificationTick) (net : Audit) (h : net.pending = t.pending) :
    (t.runVerificationTick P takes).1 = (net.issue t).pending
      ∨ (t.runVerificationTick P takes).1
        = ((net.issue t).withdraw t.nonce).pending := by
  unfold VerificationTick.runVerificationTick issue withdraw
  cases hc : t.challenge with
  | none => exact .inl h.symm
  | some pc =>
      obtain ⟨pending, challenge⟩ := pc
      dsimp only
      rw [h]
      split
      · exact .inr rfl
      · split
        · exact .inl rfl
        · exact .inr rfl

end Audit

end StaticNet
