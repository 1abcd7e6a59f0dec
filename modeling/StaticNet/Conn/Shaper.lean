/-
The shaping of outgoing traffic (`TokenBucket` and `connection_loop` in
`static-mesh/src/transport.rs`).

# What a step is

Any number of connection loops share one bucket. A step is one arm of a
loop's `select!`, or one turn of the flush inside the tick's arm: between
its lock sections other loops run. The bucket is asked and the bytes are
handed to the connection without an await between, so both have the time of
the step. Time passes in steps of its own.

# What is a record only

A loop's received and written messages and the ones it dropped from a full
queue, and the system's log of what was handed to any connection, are kept
for what is said about them. Messages are known by the number of their
arrival.
-/
import Mathlib.Logic.Function.Basic
import StaticNet.Storage.Basic
import StaticNet.Wire.Framing

namespace StaticNet

/-- `u64::saturating_mul`. -/
def satMul (a b : Nat) : Nat := min (a * b) U64_MAX

-- ======= frame sizes

/-- The length of a message's frame, whatever it is padded with. -/
def WireMessage.frameSize (msg : WireMessage) : Nat :=
  1 + 4 + (msg.payload fun _ => 0).2.length

theorem length_payload (pad : Nat → UInt8) (msg : WireMessage) :
    (msg.payload pad).2.length = (msg.payload fun _ => 0).2.length := by
  have hpad : ∀ payload : List UInt8, (padHandshake pad payload).length
      = (padHandshake (fun _ => 0) payload).length := by
    intro payload
    unfold padHandshake
    split
    · rfl
    · simp
  cases msg with
  | handshake hs => rfl
  | hello h => exact hpad _
  | welcome w => exact hpad _
  | authIdentity a => exact hpad _
  | sphinx packet => rfl
  | sessionReply reply =>
      simp [WireMessage.payload, SessionReply.serialize]

/-- A message is framed when its size allows, and its frame has its size. -/
theorem serializeMessage_of_le (pad : Nat → UInt8) {msg : WireMessage}
    (h : msg.frameSize ≤ msg.maxSize) :
    ∃ frame, serializeMessage pad msg = .ok frame
      ∧ frame.length = msg.frameSize := by
  unfold WireMessage.frameSize at h ⊢
  rw [← length_payload pad] at h ⊢
  refine ⟨(msg.payload pad).1
    :: (beBytes 4 (msg.payload pad).2.length ++ (msg.payload pad).2), ?_, ?_⟩
  · unfold serializeMessage
    dsimp only
    rw [if_neg (by omega)]
  · rw [List.length_cons, List.length_append, length_beBytes]
    omega

theorem serializeMessage_of_lt (pad : Nat → UInt8) {msg : WireMessage}
    (h : msg.maxSize < msg.frameSize) :
    ∃ e, serializeMessage pad msg = .error e := by
  unfold WireMessage.frameSize at h
  rw [← length_payload pad] at h
  refine ⟨.messageTooLarge (1 + 4 + (msg.payload pad).2.length)
    msg.maxSize, ?_⟩
  unfold serializeMessage
  dsimp only
  rw [if_pos h]

theorem length_of_serializeMessage {pad : Nat → UInt8} {msg : WireMessage}
    {frame : List UInt8} (h : serializeMessage pad msg = .ok frame) :
    frame.length = msg.frameSize := by
  by_cases hle : msg.frameSize ≤ msg.maxSize
  · obtain ⟨frame', hok, hlen⟩ := serializeMessage_of_le pad hle
    rw [h] at hok
    cases hok
    exact hlen
  · obtain ⟨e, herr⟩ := serializeMessage_of_lt pad (Nat.lt_of_not_le hle)
    rw [h] at herr
    cases herr

theorem frameSize_of_fits {msg : WireMessage} (h : msg.Fits) :
    msg.frameSize = 5 + msg.payloadSize := by
  unfold WireMessage.frameSize
  rw [(payload_spec _ h).1]

/-- What a node sends can be framed. -/
theorem frameSize_le_of_fits {msg : WireMessage} (h : msg.Fits) :
    msg.frameSize ≤ msg.maxSize := by
  obtain ⟨frame, hok, -, -⟩ := serializeMessage_frames (fun _ => 0) h
  by_contra hlt
  obtain ⟨e, herr⟩ :=
    serializeMessage_of_lt (fun _ => 0) (Nat.lt_of_not_le hlt)
  rw [hok] at herr
  cases herr

theorem dummySphinxMessage_fits (src : Nat → UInt8)
    (sessionId : SessionId) : (dummySphinxMessage src sessionId).Fits := by
  refine dummyPacket_sized sessionId ?_
  rw [length_randomBytes]
  omega

-- ======== the bucket

/-- The per-node bucket: bytes, bytes per second, and milliseconds. -/
structure TokenBucket where
  tokens : Nat
  maxTokens : Nat
  refillRate : Nat
  lastRefill : Nat
deriving DecidableEq

namespace TokenBucket

def new (maxTokens refillRate nowSecs : Nat) : TokenBucket :=
  ⟨maxTokens, maxTokens, refillRate, satMul nowSecs 1000⟩

def refill (now : Nat) (b : TokenBucket) : TokenBucket :=
  let elapsedMs := now - b.lastRefill
  if 0 < elapsedMs then
    { b with
      tokens := min
        (satAdd b.tokens (satMul elapsedMs b.refillRate / 1000)) b.maxTokens
      lastRefill := now }
  else b

def tryConsume (now bytes : Nat) (b : TokenBucket) : Bool × TokenBucket :=
  let full := b.refill now
  if bytes ≤ full.tokens then
    (true, { full with tokens := full.tokens - bytes })
  else (false, full)

def setRate (refillRate maxTokens : Nat) (b : TokenBucket) : TokenBucket :=
  { b with
    refillRate := refillRate
    maxTokens := maxTokens
    tokens := min b.tokens maxTokens }

end TokenBucket

-- ========= the cover

/-- What of the configuration a loop reads. -/
structure CoverTrafficConfig where
  targetRateBps : Nat
  intervalMs : Nat
  enabled : Bool

/-- The capacity a tick sets, and the one the bucket is made with. -/
def CoverTrafficConfig.cap (cfg : CoverTrafficConfig) : Nat :=
  max (satMul cfg.targetRateBps 2) 4096

/-- The peer of a cover message, what is known of it, and the draws. -/
structure CoverDraws where
  peerId : NodeId
  table : RoutingTable
  packet : PacketDraws
  r1 : HybridRouteHop
  r2 : HybridRouteHop
  destination : NodeId
  body : Nat → UInt8
  dummy : Nat → UInt8
  sessionId : SessionId

/-- A packet through the peer, or else a dummy. -/
def coverMessage (P : Prims) (d : CoverDraws) : WireMessage :=
  (validCoverMessage P d.packet d.table d.peerId d.r1 d.r2 d.destination
    d.body).getD (dummySphinxMessage d.dummy d.sessionId)

-- ========= the loops

def MAX_PENDING : Nat := 512

/-- Where a loop's task stands: at its `select!`, in the flush of a tick
with this target, before the cover of that tick, or ended. -/
inductive ShaperPhase
  | idle
  | flushing (target : Nat)
  | covering (target : Nat)
  | closed
deriving DecidableEq

structure ShaperLoop where
  phase : ShaperPhase
  bytesThisInterval : Nat
  pendingReal : List (Nat × WireMessage)
  received : List WireMessage
  written : List (Nat × WireMessage)
  dropped : List Nat

namespace ShaperLoop

def start : ShaperLoop := ⟨.idle, 0, [], [], [], []⟩

/-- The loop has taken a message off its channel. -/
def take (l : ShaperLoop) (msg : WireMessage) : ShaperLoop :=
  { l with received := l.received ++ [msg] }

/-- A real message went out whole. -/
def wrote (l : ShaperLoop) (m : Nat × WireMessage) (msgBytes : Nat) :
    ShaperLoop :=
  { l with
    bytesThisInterval := l.bytesThisInterval + msgBytes
    written := l.written ++ [m] }

/-- Queue a message, dropping the oldest of a full queue. -/
def queue (l : ShaperLoop) (m : Nat × WireMessage) : ShaperLoop :=
  if MAX_PENDING ≤ l.pendingReal.length then
    { l with
      pendingReal := l.pendingReal.drop 1 ++ [m]
      dropped := l.dropped ++ (l.pendingReal.take 1).map Prod.fst }
  else { l with pendingReal := l.pendingReal ++ [m] }

end ShaperLoop

/-- How a write ended: with everything out, or with an error after so many
bytes. -/
inductive WriteResult
  | ok
  | failed (after : Nat)
deriving DecidableEq

/-- How much of a frame got out. -/
def WriteResult.out (len : Nat) : WriteResult → Nat
  | .ok => len
  | .failed k => min k len

-- ======== the system

structure Shaper where
  now : Nat
  bucket : TokenBucket
  loops : Nat → ShaperLoop
  log : List (Nat × Nat)

inductive ShaperEvent
  /-- a loop takes a real message off its channel -/
  | receive (conn : Nat) (msg : WireMessage) (pad : Nat → UInt8)
      (res : WriteResult)
  /-- a loop's interval ticks, with so many peers connected -/
  | tick (conn : Nat) (peerCount : Nat)
  /-- one turn of the flush; a message is framed twice there -/
  | flushNext (conn : Nat) (pad pad' : Nat → UInt8) (res : WriteResult)
  /-- the tick's cover -/
  | cover (conn : Nat) (draws : CoverDraws) (pad : Nat → UInt8)
      (res : WriteResult)
  /-- milliseconds pass -/
  | wait (ms : Nat)

namespace Shaper

/-- A node at its start: a full bucket, and no loop has done anything. -/
def start (cfg : CoverTrafficConfig) (now : Nat) : Shaper :=
  ⟨now, TokenBucket.new cfg.cap cfg.targetRateBps (now / 1000),
    fun _ => ShaperLoop.start, []⟩

def put (s : Shaper) (conn : Nat) (l : ShaperLoop) : Shaper :=
  { s with loops := Function.update s.loops conn l }

/-- Ask the bucket for a frame, and hand `out` bytes to the connection. -/
def consume (s : Shaper) (bytes : Nat) : Shaper :=
  { s with bucket := (s.bucket.tryConsume s.now bytes).2 }

def affords (s : Shaper) (bytes : Nat) : Bool :=
  (s.bucket.tryConsume s.now bytes).1

def emit (s : Shaper) (bytes : Nat) : Shaper :=
  { s with log := s.log ++ [(s.now, bytes)] }

/-- The arm of a real message: out at once when the bucket affords it, else
into the queue. -/
def receive (s : Shaper) (conn : Nat) (msg : WireMessage)
    (pad : Nat → UInt8) (res : WriteResult) : Shaper :=
  let l := s.loops conn
  let no := l.received.length
  let taken := l.take msg
  match serializeMessage pad msg with
  | .error _ => s.put conn taken
  | .ok frame =>
      if s.affords frame.length then
        ((s.consume frame.length).emit (res.out frame.length)).put conn
          (match res with
          | .ok => taken.wrote (no, msg) frame.length
          | .failed _ => { taken with phase := .closed })
      else (s.consume frame.length).put conn (taken.queue (no, msg))

/-- One turn of `flush_pending`. -/
def flushNext (s : Shaper) (conn target : Nat) (pad pad' : Nat → UInt8)
    (res : WriteResult) : Shaper :=
  let l := s.loops conn
  match l.pendingReal with
  | [] => s.put conn { l with phase := .covering target }
  | front :: rest =>
      let popped := { l with pendingReal := rest }
      match serializeMessage pad front.2 with
      | .error _ => s.put conn popped
      | .ok frame =>
          if s.affords frame.length then
            match serializeMessage pad' front.2 with
            | .error _ => (s.consume frame.length).put conn popped
            | .ok frame' =>
                ((s.consume frame.length).emit
                  (res.out frame'.length)).put conn
                  (match res with
                  | .ok => popped.wrote front frame.length
                  | .failed _ => { popped with phase := .covering target })
          else
            (s.consume frame.length).put conn
              { l with phase := .covering target }

/-- The rest of a tick: cover for what the interval has left. The bucket is
asked, and its answer is not looked at. -/
def cover (P : Prims) (cfg : CoverTrafficConfig) (s : Shaper)
    (conn target : Nat) (draws : CoverDraws) (pad : Nat → UInt8)
    (res : WriteResult) : Shaper :=
  let l := s.loops conn
  let remaining := target - l.bytesThisInterval
  let done := { l with phase := .idle, bytesThisInterval := 0 }
  if 0 < remaining ∧ cfg.enabled then
    match serializeMessage pad (coverMessage P draws) with
    | .error _ => s.put conn done
    | .ok frame =>
        ((s.consume frame.length).emit (res.out frame.length)).put conn
          (match res with
          | .ok => done
          | .failed _ => { l with phase := .closed })
  else s.put conn done

/-- The bytes an interval may see on one connection. -/
def targetBytes (cfg : CoverTrafficConfig) (peerCount : Nat) : Nat :=
  cfg.targetRateBps * cfg.intervalMs / 1000 / max peerCount 1

/-- One step; one whose loop is elsewhere does nothing. -/
def step (P : Prims) (cfg : CoverTrafficConfig) (s : Shaper) :
    ShaperEvent → Shaper
  | .receive conn msg pad res =>
      match (s.loops conn).phase with
      | .idle => s.receive conn msg pad res
      | _ => s
  | .tick conn peerCount =>
      match (s.loops conn).phase with
      | .idle =>
          { s with
            bucket := s.bucket.setRate cfg.targetRateBps cfg.cap }.put conn
            { s.loops conn with
              phase := .flushing (targetBytes cfg peerCount) }
      | _ => s
  | .flushNext conn pad pad' res =>
      match (s.loops conn).phase with
      | .flushing target => s.flushNext conn target pad pad' res
      | _ => s
  | .cover conn draws pad res =>
      match (s.loops conn).phase with
      | .covering target => cover P cfg s conn target draws pad res
      | _ => s
  | .wait ms => { s with now := s.now + ms }

/-- What a step does: the body of the phase its loop is in, nothing where
the loop is in another, or time passes. -/
theorem step_cases (P : Prims) (cfg : CoverTrafficConfig) (s : Shaper)
    (e : ShaperEvent) :
    step P cfg s e = s
      ∨ (∃ conn msg pad res, e = .receive conn msg pad res
        ∧ (s.loops conn).phase = .idle
        ∧ step P cfg s e = s.receive conn msg pad res)
      ∨ (∃ conn peerCount, e = .tick conn peerCount
        ∧ (s.loops conn).phase = .idle
        ∧ step P cfg s e = { s with
            bucket := s.bucket.setRate cfg.targetRateBps cfg.cap }.put conn
              { s.loops conn with
                phase := .flushing (targetBytes cfg peerCount) })
      ∨ (∃ conn target pad pad' res, e = .flushNext conn pad pad' res
        ∧ (s.loops conn).phase = .flushing target
        ∧ step P cfg s e = s.flushNext conn target pad pad' res)
      ∨ (∃ conn target draws pad res, e = .cover conn draws pad res
        ∧ (s.loops conn).phase = .covering target
        ∧ step P cfg s e = cover P cfg s conn target draws pad res)
      ∨ ∃ ms, e = .wait ms ∧ step P cfg s e = { s with now := s.now + ms }
      := by
  cases e with
  | wait ms => exact .inr (.inr (.inr (.inr (.inr ⟨ms, rfl, rfl⟩))))
  | receive conn msg pad res =>
      cases hp : (s.loops conn).phase with
      | idle =>
          exact .inr (.inl ⟨conn, msg, pad, res, rfl, hp, by
            simp only [step, hp]⟩)
      | _ => exact .inl (by simp only [step, hp])
  | tick conn peerCount =>
      cases hp : (s.loops conn).phase with
      | idle =>
          exact .inr (.inr (.inl ⟨conn, peerCount, rfl, hp, by
            simp only [step, hp]⟩))
      | _ => exact .inl (by simp only [step, hp])
  | flushNext conn pad pad' res =>
      cases hp : (s.loops conn).phase with
      | flushing target =>
          exact .inr (.inr (.inr (.inl ⟨conn, target, pad, pad', res, rfl,
            hp, by simp only [step, hp]⟩)))
      | _ => exact .inl (by simp only [step, hp])
  | cover conn draws pad res =>
      cases hp : (s.loops conn).phase with
      | covering target =>
          exact .inr (.inr (.inr (.inr (.inl ⟨conn, target, draws, pad,
            res, rfl, hp, by simp only [step, hp]⟩))))
      | _ => exact .inl (by simp only [step, hp])

end Shaper

end StaticNet
