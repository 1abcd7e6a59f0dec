/-
Dispatch of inbound bodies (`handle_inbound` in
`static-node/src/runner.rs`).

A Sphinx body is a fragment that says neither which message it is a
piece of nor what kind of message that is: the type byte is the first of
the whole message. So every body goes to all five reassembling paths in
turn. The retriever takes what a pending retrieval can use; the compute,
verification and lifecycle dispatchers collect everything and look at
the type byte of what they have put together; the maintenance dispatcher
collects only from the fragment that carries one of its type bytes on.
-/
import StaticNet.Node.Basic
import StaticNet.Retrieval.Basic

namespace StaticNet

-- ===== message types

/-- The types of the messages a body can belong to. -/
inductive BodyType
  | gossip
  | swapProposal
  | swapAccept
  | swapReject
  | prepayment
  | reconciliation
  | swapCommit
  | swapAbort
  | computeRequest
  | computeResponse
  | paymentRequest
  | paymentConfirmation
  | verificationChallenge
  | verificationResponse
  | missingChunkGossip
  | heartbeat
deriving DecidableEq

/-- The dispatcher a type belongs to. -/
inductive Dispatch
  | maintenance
  | compute
  | verification
  | lifecycle
deriving DecidableEq

namespace BodyType

/-- The type bytes. -/
def byte : BodyType → UInt8
  | gossip => 0x12
  | swapProposal => 0x13
  | swapAccept => 0x14
  | swapReject => 0x15
  | prepayment => 0x16
  | reconciliation => 0x17
  | swapCommit => 0x18
  | swapAbort => 0x19
  | computeRequest => 0x03
  | computeResponse => 0x04
  | paymentRequest => 0x05
  | paymentConfirmation => 0x06
  | verificationChallenge => 0x07
  | verificationResponse => 0x08
  | missingChunkGossip => 0x09
  | heartbeat => 0x0A

def dispatch : BodyType → Dispatch
  | gossip | swapProposal | swapAccept | swapReject | prepayment
  | reconciliation | swapCommit | swapAbort => .maintenance
  | computeRequest | computeResponse | paymentRequest
  | paymentConfirmation => .compute
  | verificationChallenge | verificationResponse => .verification
  | missingChunkGossip | heartbeat => .lifecycle

end BodyType

/-- The types a dispatcher matches on, in the order it does. -/
def Dispatch.types : Dispatch → List BodyType
  | .maintenance => [.gossip, .swapProposal, .swapAccept, .swapReject,
      .prepayment, .reconciliation, .swapCommit, .swapAbort]
  | .compute => [.computeRequest, .computeResponse, .paymentRequest,
      .paymentConfirmation]
  | .verification => [.verificationChallenge, .verificationResponse]
  | .lifecycle => [.missingChunkGossip, .heartbeat]

/-- The deserializers: whether a payload is a message of the type, and
the proposal that follows a proposal's type byte. -/
structure Codec where
  parses : BodyType → List UInt8 → Bool
  proposal : List UInt8 → Option SwapProposal

/-- Does a payload of this type reach its handler? A malformed one is
dropped, and so is a proposal that does not validate. -/
def Codec.accepts (C : Codec) (P : Prims) (now : Nat) (t : BodyType)
    (payload : List UInt8) : Bool :=
  match t with
  | .swapProposal => (C.proposal (payload.drop 1)).any fun p =>
      match validateSwapProposal P p now with
      | .ok () => true
      | .error _ => false
  | t => C.parses t payload

/-- A handler that is invoked: that of a type, on a payload, with the
sender where the handler gets it, or that of a retrieved chunk. -/
inductive Call
  | handler (t : BodyType) (payload : List UInt8) (sender : Option NodeId)
  | response (r : ChunkResponse)
deriving DecidableEq

-- ======= dispatchers

/-- What a dispatcher does with a fragment it claims: forget an expired
session, take the fragment, and when the message is complete hand it on
and start over. -/
def Reassembler.offer (r : Reassembler) (now : Nat) (f : Fragment) :
    Option (List UInt8) × Reassembler :=
  let added := (r.cleanupExpired now 300).addFragment f
  if !added.1 then (none, added.2)
  else if !added.2.isComplete then (none, added.2)
  else
    match added.2.reassemble with
    | .ok payload => (some payload, .new now)
    | .error _ => (none, .new now)

/-- Where and when a body arrives. `order` is the order of the table of
pending retrievals. -/
structure Arrival where
  now : Nat
  sender : NodeId
  order : IterOrder ChunkId

/-- The sender a dispatcher passes on: only the lifecycle handlers get
it. -/
def Dispatch.sender (a : Arrival) : Dispatch → Option NodeId
  | .lifecycle => some a.sender
  | _ => none

/-- Route a complete payload by its type byte; a type of another
dispatcher is discarded. -/
def routePayload (P : Prims) (C : Codec) (a : Arrival) (x : Dispatch)
    (payload : List UInt8) : List Call :=
  match x.types.find? fun t => payload.head? == some t.byte with
  | some t =>
      if C.accepts P a.now t payload then
        [.handler t payload (x.sender a)]
      else []
  | none => []

def handleClaimed (P : Prims) (C : Codec) (a : Arrival) (x : Dispatch)
    (f : Fragment) (r : Reassembler) : List Call × Reassembler :=
  let offered := r.offer a.now f
  match offered.1 with
  | some payload => (routePayload P C a x payload, offered.2)
  | none => ([], offered.2)

/-- `handle_compute_fragment`, `handle_verification_fragment` and
`handle_lifecycle_fragment`: whatever parses as a fragment is claimed. -/
def handleFragment (P : Prims) (C : Codec) (a : Arrival) (x : Dispatch)
    (body : List UInt8) (r : Reassembler) : List Call × Reassembler :=
  match deserializeFragment body with
  | .error _ => ([], r)
  | .ok f => handleClaimed P C a x f r

def handleComputeFragment (P : Prims) (C : Codec) (a : Arrival) :=
  handleFragment P C a .compute

def handleVerificationFragment (P : Prims) (C : Codec) (a : Arrival) :=
  handleFragment P C a .verification

def handleLifecycleFragment (P : Prims) (C : Codec) (a : Arrival) :=
  handleFragment P C a .lifecycle

/-- A first fragment with a maintenance type byte. -/
def startsMaintenance (f : Fragment) : Bool :=
  f.fragmentId == 0 && f.data.head?.any fun b => 0x12 ≤ b && b ≤ 0x19

/-- A fragment the session in progress lacks. -/
def continuesMaintenance (r : Reassembler) (f : Fragment) : Bool :=
  r.totalExpected.isSome && r.canAccept f

/-- `handle_maintenance_fragment`: only what starts or continues a
maintenance message is claimed. -/
def handleMaintenanceFragment (P : Prims) (C : Codec) (a : Arrival)
    (body : List UInt8) (r : Reassembler) : List Call × Reassembler :=
  match deserializeFragment body with
  | .error _ => ([], r)
  | .ok f =>
      if !startsMaintenance f && !continuesMaintenance r f then ([], r)
      else handleClaimed P C a .maintenance f r

-- ========== the node

/-- The five reassembling paths. -/
structure Dispatcher where
  retriever : RetrievalManager
  maintenance : Reassembler
  compute : Reassembler
  verification : Reassembler
  lifecycle : Reassembler

/-- The dispatch part of `handle_chunk_response_body`. -/
def handleResponseBody (a : Arrival) (body : List UInt8)
    (m : RetrievalManager) : List Call × RetrievalManager :=
  let r := m.processFragment a.order body
  match r.1 with
  | .ok (some response) => ([.response response], r.2)
  | _ => ([], r.2)

/-- `handle_inbound` on a Sphinx body: the handlers it invokes. -/
def handleInbound (P : Prims) (C : Codec) (mode : NodeMode) (a : Arrival)
    (body : List UInt8) (d : Dispatcher) : List Call × Dispatcher :=
  if mode = .backupOnly then ([], d)
  else
    let responses := handleResponseBody a body d.retriever
    let maintenance := handleMaintenanceFragment P C a body d.maintenance
    let compute := handleComputeFragment P C a body d.compute
    let verification := handleVerificationFragment P C a body d.verification
    let lifecycle := handleLifecycleFragment P C a body d.lifecycle
    (responses.1 ++ maintenance.1 ++ compute.1 ++ verification.1
        ++ lifecycle.1,
      ⟨responses.2, maintenance.2, compute.2, verification.2, lifecycle.2⟩)

end StaticNet
