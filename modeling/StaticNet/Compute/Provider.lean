/-
The provider side of compute (`static-node/src/runner.rs` and
`payment.rs`): requests in the free and in the paid tier, the tick that
watches for payments, and the executions.

# Interleaving

A step is one lock section on the compute state. `initiate_paid_execution`,
`run_compute_execution` and the payment tick are tasks: what each has come
to between two of its sections is part of the state, and their sections
interleave in any order. There is one payment tick at a time, and any number
of the others. A spawn has no await between it and the section before.

# What is outside

What a blockchain watcher answers, what a retrieval returns and how an
execution ends come with the step. Responses and quotes that are sent
change nothing here.

# What is a record only

`log` has the addresses generated, the confirmations seen, the modules
retrieved and the executions started, for what is said about them.
-/
import StaticNet.Compute.Messages
import StaticNet.Storage.Basic

namespace StaticNet

def MAX_CACHED_MODULES : Nat := 16

-- =========== pricing

structure ComputePricing where
  pricePerExecution : Nat
  pricePerCpuSec : Nat
  pricePerMb : Nat
  acceptedCurrencies : List Currency
  requiredConfirmations : UInt32

namespace ComputePricing

def isFree (p : ComputePricing) : Bool :=
  p.pricePerExecution == 0 && p.pricePerCpuSec == 0 && p.pricePerMb == 0

def accepts (p : ComputePricing) (currency : Currency) : Bool :=
  p.acceptedCurrencies.contains currency

/-- The worst case under the execution caps, saturating as `u64` does. -/
def amountDue (p : ComputePricing) (maxCpuMs maxMemoryMb : Nat) : Nat :=
  let cpuSecs := (maxCpuMs + 999) / 1000
  satAdd (satAdd p.pricePerExecution
    (min (p.pricePerCpuSec * cpuSecs) U64_MAX))
    (min (p.pricePerMb * maxMemoryMb) U64_MAX)

end ComputePricing

/-- What of the configuration the provider reads, and the currencies it has
a watcher for. -/
structure ComputeConfig where
  enabled : Bool
  capacity : Nat
  maxCpuMs : Nat
  maxMemoryMb : Nat
  pricing : ComputePricing
  paymentTimeoutSecs : Nat
  watchers : Currency → Bool

-- ============= state

structure ComputeExecution where
  requestId : RequestId
  fromNode : NodeId
  moduleContentId : ContentId
  inputData : List UInt8
  startedAt : Nat

structure PendingPayment where
  requestId : RequestId
  request : ComputeRequest
  payment : PaymentRequest
  sentAt : Nat
  claimedTxHash : Option String

structure ComputeState where
  activeExecutions : FMap RequestId ComputeExecution
  cachedModules : FMap ContentId (List UInt8)
  paymentPending : FMap RequestId PendingPayment

/-- How far a `run_compute_execution` task is: before the cache, retrieving
the module, with a module that was cached or retrieved, before the eviction,
executing, or sending its response. -/
inductive RunPhase
  | obtaining
  | fetching
  | cached (bytes : List UInt8)
  | fetched (bytes : List UInt8)
  | trimming (bytes : List UInt8)
  | executing (bytes : List UInt8)
  | answering
deriving DecidableEq

structure RunTask where
  request : ComputeRequest
  phase : RunPhase
deriving DecidableEq

/-- How far the payment tick is: not running, in the timeout sweep, asking
for the staged copies' payments, about to take a paid one out, or with it in
hand. -/
inductive TickPhase
  | idle
  | expiring (ids : List RequestId)
  | checking (entries : List PendingPayment)
  | paid (entry : PendingPayment) (rest : List PendingPayment)
  | holding (staged : PendingPayment) (rest : List PendingPayment)

structure ComputeLog where
  generated : List (ComputeRequest × Currency × String)
  seen : List (Currency × String × UInt64 × Nat)
  retrieved : List (Bytes 32 × List UInt8)
  started : List ComputeRequest

structure Provider where
  now : Nat
  state : ComputeState
  quoting : List ComputeRequest
  runs : List RunTask
  tick : TickPhase
  log : ComputeLog

/-- What a step of a run meets. -/
inductive RunInput
  | next
  | retrieved (bytes : Option (List UInt8))
  | executed

inductive ComputeEvent
  /-- a request is handled; in the paid tier this is its task's first
  section -/
  | request (r : ComputeRequest)
  /-- a task that is quoting gets its address, or none -/
  | address (i : Nat) (address : Option String)
  /-- the requester claims to have paid -/
  | confirmation (c : PaymentConfirmation)
  /-- the payment tick starts with its timeout sweep -/
  | tick (order : IterOrder RequestId)
  /-- one expired entry is removed; after the last, the staged are copied -/
  | expire (order : IterOrder RequestId)
  /-- a watcher answers for the next copy -/
  | check (answer : Option Nat)
  /-- the paid entry is taken out -/
  | take
  /-- it is started, or put back -/
  | place
  /-- one section of a run -/
  | run (i : Nat) (input : RunInput) (order : IterOrder ContentId)
  /-- seconds pass -/
  | wait (secs : Nat)

namespace Provider

def start : Provider :=
  ⟨0, ⟨∅, ∅, ∅⟩, [], [], .idle, ⟨[], [], [], []⟩⟩

variable (cfg : ComputeConfig)

-- ======== the starts

def execution (s : Provider) (r : ComputeRequest) : ComputeExecution :=
  ⟨r.requestId, r.fromNode, r.moduleContentId, r.inputData, s.now⟩

/-- `run_compute_execution` is spawned. -/
def spawn (s : Provider) (r : ComputeRequest) : Provider :=
  { s with
    runs := s.runs ++ [⟨r, .obtaining⟩]
    log := { s.log with started := s.log.started ++ [r] } }

/-- Record the execution, and spawn it. -/
def activate (s : Provider) (r : ComputeRequest) : Provider :=
  { s with
    state := { s.state with
      activeExecutions :=
        s.state.activeExecutions.insert r.requestId (s.execution r) }
    }.spawn r

/-- `accept_compute_request` and the spawn after it. -/
def acceptComputeRequest (s : Provider) (r : ComputeRequest) : Provider :=
  if s.state.activeExecutions.contains r.requestId then s.spawn r
  else if cfg.capacity ≤ s.state.activeExecutions.len then s
  else s.activate r

/-- The watched currency a request names. -/
def watched (r : ComputeRequest) : Option Currency :=
  (Currency.fromByte r.currency).filter fun c =>
    cfg.pricing.accepts c && cfg.watchers c

def placeholder (r : ComputeRequest) : PaymentRequest :=
  ⟨r.requestId, .monero, 0, "", 0⟩

/-- `reserve_payment_slot`, in the task of a request that is accepted. -/
def reservePaymentSlot (s : Provider) (r : ComputeRequest) : Provider :=
  if s.state.activeExecutions.contains r.requestId
      || s.state.paymentPending.contains r.requestId then s
  else if cfg.capacity
      ≤ s.state.activeExecutions.len + s.state.paymentPending.len then s
  else
    { s with
      state := { s.state with
        paymentPending := s.state.paymentPending.insert r.requestId
          ⟨r.requestId, r, placeholder r, s.now, none⟩ }
      quoting := s.quoting ++ [r] }

def handleComputeRequest (s : Provider) (r : ComputeRequest) : Provider :=
  if !cfg.enabled then s
  else if cfg.pricing.isFree then acceptComputeRequest cfg s r
  else
    match watched cfg r with
    | none => s
    | some _ => reservePaymentSlot cfg s r

-- ========= the quote

def quote (r : ComputeRequest) (currency : Currency) (address : String) :
    PaymentRequest :=
  { requestId := r.requestId
    currency := currency
    amount := UInt64.ofNat
      (cfg.pricing.amountDue cfg.maxCpuMs cfg.maxMemoryMb)
    address := address
    requiredConfirmations := cfg.pricing.requiredConfirmations }

/-- The rest of a quoting task: the slot gets its quote, or goes. -/
def addressed (s : Provider) (i : Nat) (address : Option String) :
    Provider :=
  match s.quoting[i]? with
  | none => s
  | some r =>
      let s := { s with quoting := s.quoting.eraseIdx i }
      match watched cfg r, address with
      | none, _ => s
      | some _, none =>
          { s with state := { s.state with
              paymentPending := s.state.paymentPending.erase r.requestId } }
      | some currency, some address =>
          { s with
            state := { s.state with
              paymentPending := s.state.paymentPending.modify r.requestId
                fun entry =>
                  { entry with
                    payment := quote cfg r currency address
                    sentAt := s.now } }
            log := { s.log with
              generated := s.log.generated ++ [(r, currency, address)] } }

def handlePaymentConfirmation (s : Provider) (c : PaymentConfirmation) :
    Provider :=
  { s with state := { s.state with
      paymentPending := s.state.paymentPending.modify c.requestId
        fun entry =>
          if entry.payment.currency ≠ c.currency then entry
          else { entry with claimedTxHash := some c.txHash } } }

-- ========== the tick

/-- The staged entries past the timeout. -/
def expired (s : Provider) (order : IterOrder RequestId) :
    List RequestId :=
  (order.iter s.state.paymentPending.keys).filter fun id =>
    (s.state.paymentPending.get id).any fun entry =>
      cfg.paymentTimeoutSecs < s.now - entry.sentAt

/-- Copies of the staged entries. -/
def stagedCopies (s : Provider) (order : IterOrder RequestId) :
    List PendingPayment :=
  (order.iter s.state.paymentPending.keys).filterMap
    s.state.paymentPending.get

def startTick (s : Provider) (order : IterOrder RequestId) : Provider :=
  match s.tick with
  | .idle => { s with tick := .expiring (expired cfg s order) }
  | _ => s

def expire (s : Provider) (order : IterOrder RequestId) : Provider :=
  match s.tick with
  | .expiring (id :: ids) =>
      { s with
        state := { s.state with
          paymentPending := s.state.paymentPending.erase id }
        tick := .expiring ids }
  | .expiring [] => { s with tick := .checking (s.stagedCopies order) }
  | _ => s

/-- A watcher's answer for the next copy; a copy without a watcher is
passed over. -/
def check (s : Provider) (answer : Option Nat) : Provider :=
  match s.tick with
  | .checking [] => { s with tick := .idle }
  | .checking (entry :: rest) =>
      if !cfg.watchers entry.payment.currency then
        { s with tick := .checking rest }
      else
        match answer with
        | none => { s with tick := .checking rest }
        | some n =>
            { s with
              tick :=
                if entry.payment.requiredConfirmations.toNat ≤ n then
                  .paid entry rest
                else .checking rest
              log := { s.log with
                seen := s.log.seen ++ [(entry.payment.currency,
                  entry.payment.address, entry.payment.amount, n)] } }
  | _ => s

def take (s : Provider) : Provider :=
  match s.tick with
  | .paid entry rest =>
      match s.state.paymentPending.get entry.requestId with
      | none => { s with tick := .checking rest }
      | some staged =>
          { s with
            state := { s.state with
              paymentPending :=
                s.state.paymentPending.erase entry.requestId }
            tick := .holding staged rest }
  | _ => s

def place (s : Provider) : Provider :=
  match s.tick with
  | .holding staged rest =>
      let s := { s with tick := .checking rest }
      if cfg.capacity ≤ s.state.activeExecutions.len then
        { s with state := { s.state with
            paymentPending :=
              s.state.paymentPending.insert staged.requestId staged } }
      else
        { s with state := { s.state with
            activeExecutions := s.state.activeExecutions.insert
              staged.requestId { s.execution staged.request with
                requestId := staged.requestId } } }.spawn staged.request
  | _ => s

-- ========== the runs

def setRun (s : Provider) (i : Nat) (t : RunTask) : Provider :=
  { s with runs := s.runs.set i t }

/-- The execution is over: it leaves the table, and its task goes on to
send the response. -/
def finish (s : Provider) (i : Nat) (t : RunTask) : Provider :=
  { s with state := { s.state with
      activeExecutions :=
        s.state.activeExecutions.erase t.request.requestId } }.setRun i
    { t with phase := .answering }

/-- Evict the entries the table yields first, down to the bound. -/
def trim (order : IterOrder ContentId) :
    Nat → FMap ContentId (List UInt8) → FMap ContentId (List UInt8)
  | 0, m => m
  | fuel + 1, m =>
      if MAX_CACHED_MODULES < m.len then
        match (order.iter m.keys).head? with
        | some k => trim order fuel (m.erase k)
        | none => m
      else m

/-- A module, once there, goes into the cache. -/
def cacheModule (s : Provider) (i : Nat) (t : RunTask)
    (bytes : List UInt8) : Provider :=
  { s with state := { s.state with
      cachedModules := s.state.cachedModules.insert
        t.request.moduleContentId bytes } }.setRun i
    { t with phase := .trimming bytes }

/-- One section of a run. -/
def runStep (s : Provider) (i : Nat) (input : RunInput)
    (order : IterOrder ContentId) : Provider :=
  match s.runs[i]? with
  | none => s
  | some t =>
      match t.phase, input with
      | .obtaining, _ =>
          match s.state.cachedModules.get t.request.moduleContentId with
          | some bytes => s.setRun i { t with phase := .cached bytes }
          | none => s.setRun i { t with phase := .fetching }
      | .fetching, .retrieved none => s.finish i t
      | .fetching, .retrieved (some bytes) =>
          let s := { s with log := { s.log with
            retrieved := s.log.retrieved
              ++ [(t.request.moduleContentPubKey, bytes)] } }
          if bytes.isEmpty then s.finish i t
          else s.setRun i { t with phase := .fetched bytes }
      | .cached bytes, _ => s.cacheModule i t bytes
      | .fetched bytes, _ => s.cacheModule i t bytes
      | .trimming bytes, _ =>
          { s with state := { s.state with
              cachedModules := trim order s.state.cachedModules.len
                s.state.cachedModules } }.setRun i
            { t with phase := .executing bytes }
      | .executing _, .executed => s.finish i t
      | .answering, _ => { s with runs := s.runs.eraseIdx i }
      | _, _ => s

def step (s : Provider) : ComputeEvent → Provider
  | .request r => handleComputeRequest cfg s r
  | .address i address => addressed cfg s i address
  | .confirmation c => handlePaymentConfirmation s c
  | .tick order => startTick cfg s order
  | .expire order => s.expire order
  | .check answer => check cfg s answer
  | .take => s.take
  | .place => place cfg s
  | .run i input order => s.runStep i input order
  | .wait secs => { s with now := s.now + secs }

end Provider

end StaticNet
