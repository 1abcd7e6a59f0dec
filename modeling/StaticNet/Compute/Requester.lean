/-
The requester side of compute, and requester and providers together
(`static-node/src/runner.rs`).

# Interleaving

A step is one lock section: `handle_compute_response` takes the request
out of the pending ones in one section and records the result in another,
and any number of responses can be between the two. A provider's sections
are those of `Provider.step`; what a section answers, and to whom, is
`Provider.replies`.

# What is in between

Whatever was sent can be delivered, in any order, late, again or never.
Requests, claims, quotes and responses of other requesters come in at any
time.

# What is a record only

`submitted`, `recorded`, `executed` and `delivered` are for what is said
about a run.
-/
import StaticNet.Lib.Blocks
import StaticNet.Node.Senders

namespace StaticNet

def MAX_COMPLETED_COMPUTE_RESULTS : Nat := 512

-- ========= requester

/-- What of the compute state a requester uses, and the responses that are
between the two sections of their handling. -/
structure Requester where
  pendingRequests : FMap RequestId PendingComputeRequest
  completedResults : FMap RequestId ComputeResponse
  recording : List ComputeResponse

namespace Requester

/-- The lock section of `submit_compute_request`. -/
def submit (s : Requester) (provider : NodeId) (id : RequestId) (now : Nat) :
    Requester :=
  { s with
    pendingRequests := s.pendingRequests.insert id ⟨id, provider, none, now⟩ }

/-- The first section of `handle_compute_response`. -/
def handleComputeResponse (s : Requester) (response : ComputeResponse) :
    Requester :=
  if s.pendingRequests.contains response.requestId then
    { s with
      pendingRequests := s.pendingRequests.erase response.requestId
      recording := s.recording ++ [response] }
  else s

/-- The second section, of one of the responses; a table of results that
is full is cleared first. -/
def record (s : Requester) (i : Nat) : Requester :=
  match s.recording[i]? with
  | none => s
  | some response =>
      { s with
        recording := s.recording.eraseIdx i
        completedResults := s.completedResults.put
          MAX_COMPLETED_COMPUTE_RESULTS response.requestId response }

def handlePaymentRequest (s : Requester) (quote : PaymentRequest) :
    Requester :=
  { s with
    pendingRequests := s.pendingRequests.modify quote.requestId
      fun pending => { pending with payment := some quote } }

/-- `pending_payment`. -/
def pendingPayment (s : Requester) (id : RequestId) :
    Option PaymentRequest :=
  (s.pendingRequests.get id).bind PendingComputeRequest.payment

/-- `compute_result`. -/
def computeResult (s : Requester) (id : RequestId) :
    Option ComputeResponse :=
  s.completedResults.get id

/-- What `confirm_compute_payment` sends, and to whom. -/
def confirmation (s : Requester) (id : RequestId) (txHash : String) :
    Option (NodeId × PaymentConfirmation) :=
  (s.pendingRequests.get id).bind fun pending =>
    pending.payment.map fun quote =>
      (pending.provider, ⟨id, txHash, quote.currency⟩)

end Requester

-- ======= the answers

inductive ComputeMsg
  | request (r : ComputeRequest)
  | confirmation (c : PaymentConfirmation)
  | quote (q : PaymentRequest)
  | response (r : ComputeResponse)

/-- How an execution ends, and why there is no address. -/
structure Findings where
  outcome : Except ComputeError (List UInt8 × UInt64 × UInt64)
  watcherError : String

/-- The response to an execution that ended so. -/
def outcomeResponse (id : RequestId) :
    Except ComputeError (List UInt8 × UInt64 × UInt64) → ComputeResponse
  | .ok (output, cpuTimeMs, memoryUsed) =>
      succeeded id output cpuTimeMs memoryUsed
  | .error e => failed id e false none

namespace Provider

/-- `send_compute_error` and the failed responses, without a quote. -/
def refusal (r : ComputeRequest) (e : ComputeError) :
    List (ComputeRequest × ComputeMsg) :=
  [(r, .response (failed r.requestId e false none))]

variable (cfg : ComputeConfig)

/-- What the handling of a request answers at once. -/
def requestReplies (s : Provider) (r : ComputeRequest) :
    List (ComputeRequest × ComputeMsg) :=
  if !cfg.enabled then []
  else if cfg.pricing.isFree then
    if s.state.activeExecutions.contains r.requestId then []
    else if cfg.capacity ≤ s.state.activeExecutions.len then
      refusal r .capacityExceeded
    else []
  else
    match watched cfg r with
    | none =>
        refusal r (.payment ("unsupported payment currency byte "
          ++ toString r.currency.toNat))
    | some _ =>
        if s.state.activeExecutions.contains r.requestId
            || s.state.paymentPending.contains r.requestId then []
        else if cfg.capacity
            ≤ s.state.activeExecutions.len + s.state.paymentPending.len then
          refusal r .capacityExceeded
        else []

/-- The quote, if the slot is still there, or that there is none. -/
def addressReplies (s : Provider) (i : Nat) (address : Option String)
    (x : Findings) : List (ComputeRequest × ComputeMsg) :=
  match s.quoting[i]? with
  | none => []
  | some r =>
      match watched cfg r, address with
      | none, _ => []
      | some _, none => refusal r (.payment x.watcherError)
      | some currency, some address =>
          if s.state.paymentPending.contains r.requestId then
            [(r, .quote (quote cfg r currency address))]
          else []

/-- The courtesy response to a request whose payment timed out. -/
def expireReplies (s : Provider) : List (ComputeRequest × ComputeMsg) :=
  match s.tick with
  | .expiring (id :: _) =>
      match s.state.paymentPending.get id with
      | none => []
      | some entry =>
          [(entry.request, .response (failed entry.request.requestId
            (.payment "payment timeout") true (some entry.payment)))]
  | _ => []

/-- The response at the end of a run. -/
def runReplies (s : Provider) (i : Nat) (input : RunInput) (x : Findings) :
    List (ComputeRequest × ComputeMsg) :=
  match s.runs[i]? with
  | none => []
  | some t =>
      match t.phase, input with
      | .fetching, .retrieved none => refusal t.request .moduleNotFound
      | .fetching, .retrieved (some bytes) =>
          if bytes.isEmpty then refusal t.request .moduleNotFound else []
      | .executing _, .executed =>
          [(t.request, .response (outcomeResponse t.request.requestId
            x.outcome))]
      | _, _ => []

/-- What a section answers, and which request. -/
def replies (s : Provider) (x : Findings) :
    ComputeEvent → List (ComputeRequest × ComputeMsg)
  | .request r => requestReplies cfg s r
  | .address i address => addressReplies cfg s i address x
  | .expire _ => s.expireReplies
  | .run i input _ => s.runReplies i input x
  | _ => []

end Provider

-- ====== the exchange

structure ComputeLetter where
  receiver : NodeId
  msg : ComputeMsg

/-- An execution that ended. -/
structure Executed where
  provider : NodeId
  request : ComputeRequest
  moduleBytes : List UInt8
  outcome : Except ComputeError (List UInt8 × UInt64 × UInt64)

/-- A requester, the providers, and what is between them. -/
structure Exchange where
  requester : Requester
  providers : NodeId → Provider
  sent : List ComputeLetter
  submitted : List (NodeId × ComputeRequest)
  recorded : List ComputeResponse
  executed : List Executed
  delivered : List Nat

inductive ExchangeMove
  /-- a request is submitted; its packets may be refused on the way out -/
  | submit (provider : NodeId) (r : ComputeRequest) (now : Nat)
      (sent : Bool)
  | confirm (id : RequestId) (txHash : String)
  | deliver (i : Nat)
  | record (i : Nat)
  /-- a section of a provider, or what someone else asks of it -/
  | provider (p : NodeId) (e : ComputeEvent) (x : Findings)
  /-- what is no answer to a request of ours -/
  | stray (msg : ComputeMsg)

namespace Exchange

def start : Exchange :=
  ⟨⟨∅, ∅, []⟩, fun _ => .start, [], [], [], [], []⟩

variable (cfg : NodeId → ComputeConfig) (me : NodeId)

/-- The execution that a section ends. -/
def ran (p : NodeId) (s : Provider) (x : Findings) :
    ComputeEvent → List Executed
  | .run i .executed _ =>
      match s.runs[i]? with
      | some ⟨r, .executing bytes⟩ => [⟨p, r, bytes, x.outcome⟩]
      | _ => []
  | _ => []

/-- A provider's section; its answers go along the return routes of the
requests. -/
def atProvider (net : Exchange) (p : NodeId) (e : ComputeEvent)
    (x : Findings) : Exchange :=
  let s := net.providers p
  { net with
    providers := Function.update net.providers p (s.step (cfg p) e)
    sent := net.sent ++ (s.replies (cfg p) x e).map
      fun a => ⟨a.1.returnRoute.destination, a.2⟩
    executed := net.executed ++ ran p s x e }

/-- What reaches the requester. -/
def atRequester (net : Exchange) (msg : ComputeMsg) : Exchange :=
  match msg with
  | .quote q =>
      { net with requester := net.requester.handlePaymentRequest q }
  | .response resp =>
      { net with requester := net.requester.handleComputeResponse resp }
  | _ => net

/-- One letter; what is addressed to other requesters is not ours. -/
def handle (net : Exchange) (letter : ComputeLetter) : Exchange :=
  match letter.msg with
  | .request r =>
      net.atProvider cfg letter.receiver (.request r) ⟨.error .sphinxError, ""⟩
  | .confirmation c =>
      net.atProvider cfg letter.receiver (.confirmation c)
        ⟨.error .sphinxError, ""⟩
  | msg => if letter.receiver = me then net.atRequester msg else net

def step (net : Exchange) : ExchangeMove → Exchange
  | .submit p r now sent =>
      { net with
        requester := net.requester.submit p r.requestId now
        sent := net.sent ++ if sent then [⟨p, .request r⟩] else []
        submitted := net.submitted ++ [(p, r)] }
  | .confirm id txHash =>
      match net.requester.confirmation id txHash with
      | none => net
      | some (p, c) => { net with sent := net.sent ++ [⟨p, .confirmation c⟩] }
  | .deliver i =>
      match net.sent[i]? with
      | none => net
      | some letter =>
          { net.handle cfg me letter with
            delivered := net.delivered ++ [i] }
  | .record i =>
      { net with
        requester := net.requester.record i
        recorded := net.recorded ++ net.requester.recording[i]?.toList }
  | .provider p e x => net.atProvider cfg p e x
  | .stray msg => net.atRequester msg

def run (net : Exchange) (moves : List ExchangeMove) : Exchange :=
  moves.foldl (step cfg me) net

/-- The ids of what was submitted. -/
def ids (net : Exchange) : List RequestId :=
  net.submitted.map fun x => x.2.requestId

end Exchange

-- ==== the assumptions

/-- Who a message is about. -/
def ComputeMsg.about : ComputeMsg → RequestId
  | .request r => r.requestId
  | .confirmation c => c.requestId
  | .quote q => q.requestId
  | .response r => r.requestId

/-- Ids are drawn at random: `mine` are those the requester draws, each
once, and nobody else comes up with one of them. -/
def ExchangeMove.Fair (me : NodeId) (mine : Set RequestId) (net : Exchange) :
    ExchangeMove → Prop
  | .submit _ r _ _ => r.requestId ∈ mine ∧ r.requestId ∉ net.ids
      ∧ r.returnRoute.destination = me
  | .provider _ (.request r) _ => r.requestId ∉ mine
  | .stray msg => msg.about ∉ mine
  | _ => True

-- ======= the senders

section Senders

variable {P : Prims} {takes : NodeId → SphinxPacket → Bool}

/-- What `submit_compute_request` leaves pending. -/
theorem submitComputeRequest_pending {s : ComputeSubmission}
    {peer : KnownNode} {route : HybridRoute} {packets : List SphinxPacket}
    (h : s.built P = .ok (peer, route, packets)) (q : Requester)
    (hq : q.pendingRequests = s.pendingRequests) :
    (s.submitComputeRequest P takes).2.1
      = (q.submit peer.nodeId s.requestId s.now).pendingRequests := by
  unfold ComputeSubmission.submitComputeRequest Requester.submit
  rw [h, hq]

/-- What `confirm_compute_payment` puts into its packets, and for whom. -/
theorem confirmComputePayment_built {s : PaymentSending}
    {route : HybridRoute} {packets : List SphinxPacket}
    (h : s.built P = .ok (route, packets)) (q : Requester)
    (hq : q.pendingRequests = s.pendingRequests) :
    ∃ p c payload, q.confirmation s.requestId s.txHash = some (p, c)
      ∧ s.turn.route p = some route
      ∧ Compute.serializePaymentConfirmation c = .ok payload
      ∧ s.turn.packets P payload route = .ok packets := by
  unfold PaymentSending.built at h
  unfold Requester.confirmation
  rw [hq]
  cases hget : s.pendingRequests.get s.requestId with
  | none =>
      rw [hget] at h
      cases h
  | some pending =>
      rw [hget] at h
      dsimp only at h
      cases hpay : pending.payment with
      | none =>
          rw [hpay] at h
          cases h
      | some quote =>
          rw [hpay] at h
          dsimp only at h
          cases hser : Compute.serializePaymentConfirmation
              ⟨s.requestId, s.txHash, quote.currency⟩ with
          | error e =>
              rw [hser] at h
              cases h
          | ok payload =>
              rw [hser] at h
              dsimp only at h
              cases hroute : s.turn.route pending.provider with
              | none =>
                  rw [hroute] at h
                  cases h
              | some route' =>
                  rw [hroute] at h
                  dsimp only at h
                  cases hpackets : s.turn.packets P payload route' with
                  | error e =>
                      rw [hpackets] at h
                      cases h
                  | ok packets' =>
                      rw [hpackets] at h
                      cases h
                      refine ⟨pending.provider, _, payload, ?_, hroute, hser,
                        hpackets⟩
                      rw [Option.bind_some, hpay]
                      rfl

/-- The response to a request comes back to the node that submitted it. -/
theorem submittedRequest_destination (self : SelfRoute) (key : Bytes 32)
    (currency : Currency) (id : RequestId) (input : List UInt8) :
    (submittedRequest P self key currency id
      input).returnRoute.destination = self.nodeId := rfl

end Senders

end StaticNet
