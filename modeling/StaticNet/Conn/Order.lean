/-
The order in which a connection loop writes its real messages.

# What holds

The queue is first in, first out, and what is still queued is younger than
what was written, as long as nothing goes past the queue (`OrderInv`).

# Where it breaks

The arm of a real message asks the bucket before it looks at the queue.
When the bucket has been refilled since the last tick, a message that
arrives then is written at once, ahead of those that wait
(`session_reply_first`).
-/
import StaticNet.Conn.Shaper
import StaticNet.Lib.Exact

namespace StaticNet

open Exact Shaper

variable {P : Prims} {cfg : CoverTrafficConfig} {s : Shaper} {conn : Nat}
  {l : ShaperLoop} {msg : WireMessage}

-- ===== what is meant

/-- No write of a real message on the connection fails. -/
def ShaperEvent.Writes (conn : Nat) : ShaperEvent → Prop
  | .receive c _ _ res => c = conn → res = .ok
  | .flushNext c _ _ res => c = conn → res = .ok
  | _ => True

namespace Shaper

/-- The real messages are written in the order of their arrival, none twice,
and one that is missing is still queued or was dropped as the oldest of a
full queue. -/
structure InOrder (conn : Nat) (s : Shaper) : Prop where
  sorted : ((s.loops conn).written.map Prod.fst).Pairwise (· < ·)
  received : ∀ x ∈ (s.loops conn).written,
    (s.loops conn).received[x.1]? = some x.2
  missing : ∀ i < (s.loops conn).received.length,
    i ∈ (s.loops conn).written.map Prod.fst
      ∨ i ∈ (s.loops conn).pendingReal.map Prod.fst
      ∨ i ∈ (s.loops conn).dropped

/-- A message the loop receives can be framed, and finds the queue empty or
the bucket short of it. -/
def InTurn (conn : Nat) (s : Shaper) : ShaperEvent → Prop
  | .receive c msg _ _ =>
      c = conn → (s.loops conn).phase = .idle →
        msg.frameSize ≤ msg.maxSize
          ∧ ((s.loops conn).pendingReal = []
            ∨ (s.bucket.refill s.now).tokens < msg.frameSize)
  | _ => True

end Shaper

/-- The written and the queued messages are one sequence of arrivals; what
is queued can be framed, and nothing is lost but what was dropped. -/
structure ShaperLoop.OrderInv (l : ShaperLoop) : Prop where
  sorted : ((l.written ++ l.pendingReal).map Prod.fst).Pairwise (· < ·)
  received : ∀ x ∈ l.written ++ l.pendingReal, l.received[x.1]? = some x.2
  framed : ∀ x ∈ l.pendingReal, x.2.frameSize ≤ x.2.maxSize
  missing : ∀ i < l.received.length, i ∈ l.written.map Prod.fst
    ∨ i ∈ l.pendingReal.map Prod.fst ∨ i ∈ l.dropped

namespace ShaperLoop

-- ========== the loop

/-- The sequence with one more arrival at its end. -/
theorem OrderInv.snoc (h : l.OrderInv) (msg : WireMessage) :
    (((l.written ++ l.pendingReal) ++ [(l.received.length, msg)]).map
        Prod.fst).Pairwise (· < ·)
      ∧ ∀ x ∈ (l.written ++ l.pendingReal)
          ++ [(l.received.length, msg)],
        (l.received ++ [msg])[x.1]? = some x.2 := by
  have hlt : ∀ x ∈ l.written ++ l.pendingReal, x.1 < l.received.length :=
    fun x hx => (List.getElem?_eq_some_iff.1 (h.received x hx)).1
  constructor
  · rw [List.map_append, List.pairwise_append]
    refine ⟨h.sorted, List.pairwise_singleton _ _, fun i hi j hj => ?_⟩
    obtain ⟨x, hx, rfl⟩ := List.mem_map.1 hi
    rw [List.mem_singleton.1 hj]
    exact hlt x hx
  · intro x hx
    rcases List.mem_append.1 hx with hx | hx
    · rw [List.getElem?_append_left (hlt x hx)]
      exact h.received x hx
    · rw [List.mem_singleton.1 hx]
      exact List.getElem?_concat_length

/-- A number below one more than a length. -/
theorem OrderInv.missing_snoc (h : l.OrderInv) {i : Nat}
    (hi : i < (l.received ++ [msg]).length) :
    (i ∈ l.written.map Prod.fst ∨ i ∈ l.pendingReal.map Prod.fst
      ∨ i ∈ l.dropped) ∨ i = l.received.length := by
  rw [List.length_append, List.length_singleton] at hi
  by_cases hlt : i < l.received.length
  · exact .inl (h.missing i hlt)
  · exact .inr (by omega)

/-- A message written at once, when nothing waits. -/
theorem OrderInv.direct (h : l.OrderInv) (hempty : l.pendingReal = [])
    (bytes : Nat) :
    ((l.take msg).wrote (l.received.length, msg) bytes).OrderInv := by
  obtain ⟨hsorted, hreceived⟩ := h.snoc msg
  rw [hempty, List.append_nil] at hsorted hreceived
  constructor
  · show ((l.written ++ [_]) ++ l.pendingReal |>.map Prod.fst).Pairwise _
    rw [hempty, List.append_nil]
    exact hsorted
  · show ∀ x ∈ (l.written ++ [_]) ++ l.pendingReal, _
    rw [hempty, List.append_nil]
    exact hreceived
  · exact h.framed
  · intro i hi
    show i ∈ (l.written ++ [_]).map Prod.fst ∨ _
    rw [List.map_append, List.mem_append]
    rcases h.missing_snoc hi with (hw | hrest) | hnew
    · exact .inl (.inl hw)
    · exact .inr hrest
    · exact .inl (.inr (by simp [hnew]))

/-- A message queued, with the oldest dropped when the queue is full. -/
theorem OrderInv.queue (h : l.OrderInv)
    (hframe : msg.frameSize ≤ msg.maxSize) :
    ((l.take msg).queue (l.received.length, msg)).OrderInv := by
  obtain ⟨hsorted, hreceived⟩ := h.snoc msg
  have hframed : ∀ x ∈ l.pendingReal ++ [(l.received.length, msg)],
      x.2.frameSize ≤ x.2.maxSize := by
    intro x hx
    rcases List.mem_append.1 hx with hx | hx
    · exact h.framed x hx
    · rw [List.mem_singleton.1 hx]
      exact hframe
  unfold ShaperLoop.queue
  by_cases hfull : MAX_PENDING ≤ l.pendingReal.length
  · rw [if_pos (show MAX_PENDING ≤ (l.take msg).pendingReal.length from
      hfull)]
    -- what stays is a part of the sequence in its order
    have hsub : (l.pendingReal.drop 1 ++ [(l.received.length, msg)]).Sublist
        (l.pendingReal ++ [(l.received.length, msg)]) :=
      (List.drop_sublist 1 _).append (List.Sublist.refl _)
    have hsub' : (l.written
        ++ (l.pendingReal.drop 1 ++ [(l.received.length, msg)])).Sublist
        ((l.written ++ l.pendingReal) ++ [(l.received.length, msg)]) := by
      rw [List.append_assoc]
      exact (List.Sublist.refl _).append hsub
    refine ⟨hsorted.sublist (hsub'.map _),
      fun x hx => hreceived x (hsub'.subset hx),
      fun x hx => hframed x (hsub.subset hx), fun i hi => ?_⟩
    show i ∈ l.written.map Prod.fst
      ∨ i ∈ (l.pendingReal.drop 1 ++ [_]).map Prod.fst
      ∨ i ∈ l.dropped ++ (l.pendingReal.take 1).map Prod.fst
    rw [List.map_append, List.mem_append, List.mem_append]
    rcases h.missing_snoc hi with (hw | hp | hd) | hnew
    · exact .inl hw
    · rw [← List.take_append_drop 1 l.pendingReal, List.map_append,
        List.mem_append] at hp
      rcases hp with hp | hp
      · exact .inr (.inr (.inr hp))
      · exact .inr (.inl (.inl hp))
    · exact .inr (.inr (.inl hd))
    · exact .inr (.inl (.inr (by simp [hnew])))
  · rw [if_neg (show ¬ MAX_PENDING ≤ (l.take msg).pendingReal.length from
      hfull)]
    rw [List.append_assoc] at hsorted hreceived
    refine ⟨hsorted, hreceived, hframed, fun i hi => ?_⟩
    show i ∈ l.written.map Prod.fst
      ∨ i ∈ (l.pendingReal ++ [_]).map Prod.fst ∨ i ∈ l.dropped
    rw [List.map_append, List.mem_append]
    rcases h.missing_snoc hi with (hw | hp | hd) | hnew
    · exact .inl hw
    · exact .inr (.inl (.inl hp))
    · exact .inr (.inr hd)
    · exact .inr (.inl (.inr (by simp [hnew])))

/-- The head of the queue written. -/
theorem OrderInv.flush {front : Nat × WireMessage}
    {rest : List (Nat × WireMessage)} (h : l.OrderInv)
    (hpending : l.pendingReal = front :: rest) (bytes : Nat) :
    ({ l with pendingReal := rest }.wrote front bytes).OrderInv := by
  have hseq : (l.written ++ [front]) ++ rest = l.written ++ l.pendingReal := by
    rw [hpending, List.append_assoc]
    rfl
  refine ⟨?_, ?_, fun x hx => h.framed x ?_, fun i hi => ?_⟩
  · show (((l.written ++ [front]) ++ rest).map Prod.fst).Pairwise _
    rw [hseq]
    exact h.sorted
  · show ∀ x ∈ (l.written ++ [front]) ++ rest, _
    rw [hseq]
    exact h.received
  · rw [hpending]
    exact List.mem_cons_of_mem _ hx
  · show i ∈ (l.written ++ [front]).map Prod.fst
      ∨ i ∈ rest.map Prod.fst ∨ i ∈ l.dropped
    rw [List.map_append, List.mem_append]
    rcases h.missing i hi with hw | hp | hd
    · exact .inl (.inl hw)
    · rw [hpending, List.map_cons, List.mem_cons] at hp
      rcases hp with hp | hp
      · exact .inl (.inr (by simp [hp]))
      · exact .inr (.inl hp)
    · exact .inr (.inr hd)

/-- What the loop has of messages is all that is asked. -/
theorem OrderInv.congr {l' : ShaperLoop} (h : l.OrderInv)
    (hw : l'.written = l.written) (hp : l'.pendingReal = l.pendingReal)
    (hr : l'.received = l.received) (hd : l'.dropped = l.dropped) :
    l'.OrderInv := by
  refine ⟨?_, ?_, ?_, ?_⟩
  · rw [hw, hp]
    exact h.sorted
  · rw [hw, hp, hr]
    exact h.received
  · rw [hp]
    exact h.framed
  · rw [hw, hp, hr, hd]
    exact h.missing

end ShaperLoop

theorem ShaperLoop.OrderInv.inOrder (h : (s.loops conn).OrderInv) :
    s.InOrder conn := by
  refine ⟨h.sorted.sublist ?_, fun x hx => h.received x ?_, h.missing⟩
  · exact (List.sublist_append_left _ _).map _
  · exact List.mem_append_left _ hx

-- ========== one step

@[simp] theorem loops_put_self : (s.put conn l).loops conn = l :=
  Function.update_self _ _ _

theorem loops_put_ne {c : Nat} (h : conn ≠ c) :
    (s.put c l).loops conn = s.loops conn := Function.update_of_ne h _ _

theorem affords_of_le {bytes : Nat}
    (h : (s.bucket.refill s.now).tokens < bytes) :
    s.affords bytes = false := by
  unfold affords TokenBucket.tryConsume
  dsimp only
  rw [if_neg (Nat.not_le.2 h)]

theorem order_receive {pad : Nat → UInt8} (h : (s.loops conn).OrderInv)
    (hframe : msg.frameSize ≤ msg.maxSize)
    (hturn : (s.loops conn).pendingReal = []
      ∨ (s.bucket.refill s.now).tokens < msg.frameSize) :
    ((s.receive conn msg pad .ok).loops conn).OrderInv := by
  obtain ⟨frame, hok, hlen⟩ := serializeMessage_of_le pad hframe
  unfold Shaper.receive
  simp only [hok, hlen]
  by_cases hpaid : s.affords msg.frameSize = true
  · rw [if_pos hpaid, loops_put_self]
    have hempty : (s.loops conn).pendingReal = [] := by
      refine hturn.resolve_right fun hshort => ?_
      rw [affords_of_le hshort] at hpaid
      cases hpaid
    exact h.direct hempty _
  · rw [if_neg hpaid, loops_put_self]
    exact h.queue hframe

theorem order_flushNext {target : Nat} {pad pad' : Nat → UInt8}
    (h : (s.loops conn).OrderInv) :
    ((s.flushNext conn target pad pad' .ok).loops conn).OrderInv := by
  cases hpending : (s.loops conn).pendingReal with
  | nil =>
      simp only [Shaper.flushNext, hpending, loops_put_self]
      exact h.congr rfl hpending.symm rfl rfl
  | cons front rest =>
      have hfront : front.2.frameSize ≤ front.2.maxSize :=
        h.framed front (by rw [hpending]; exact List.mem_cons_self)
      obtain ⟨frame, hok, -⟩ := serializeMessage_of_le pad hfront
      obtain ⟨frame', hok', -⟩ := serializeMessage_of_le pad' hfront
      simp only [Shaper.flushNext, hpending, hok, hok']
      by_cases hpaid : s.affords frame.length = true
      · rw [if_pos hpaid, loops_put_self]
        exact h.flush hpending _
      · rw [if_neg hpaid, loops_put_self]
        exact h.congr rfl hpending.symm rfl rfl

theorem order_cover {target : Nat} {draws : CoverDraws} {pad : Nat → UInt8}
    {res : WriteResult} (h : (s.loops conn).OrderInv) :
    ((cover P cfg s conn target draws pad res).loops conn).OrderInv := by
  unfold cover
  dsimp only
  split
  · cases serializeMessage pad (coverMessage P draws) with
    | error e =>
        simp only [loops_put_self]
        exact h.congr rfl rfl rfl rfl
    | ok frame =>
        simp only [loops_put_self]
        cases res <;> exact h.congr rfl rfl rfl rfl
  · rw [loops_put_self]
    exact h.congr rfl rfl rfl rfl

/-- The loop a step is of. -/
def ShaperEvent.conn? : ShaperEvent → Option Nat
  | .receive c _ _ _ => some c
  | .tick c _ => some c
  | .flushNext c _ _ _ => some c
  | .cover c _ _ _ => some c
  | .wait _ => none

theorem loops_receive_ne {c : Nat} {pad : Nat → UInt8} {res : WriteResult}
    (h : conn ≠ c) :
    (s.receive c msg pad res).loops conn = s.loops conn := by
  unfold Shaper.receive
  cases serializeMessage pad msg with
  | error e => exact loops_put_ne h
  | ok frame =>
      dsimp only
      split
      · exact loops_put_ne h
      · exact loops_put_ne h

theorem loops_flushNext_ne {c target : Nat} {pad pad' : Nat → UInt8}
    {res : WriteResult} (h : conn ≠ c) :
    (s.flushNext c target pad pad' res).loops conn = s.loops conn := by
  unfold Shaper.flushNext
  dsimp only
  cases (s.loops c).pendingReal with
  | nil => exact loops_put_ne h
  | cons front rest =>
      dsimp only
      cases serializeMessage pad front.2 with
      | error e => exact loops_put_ne h
      | ok frame =>
          dsimp only
          split
          · cases serializeMessage pad' front.2 with
            | error e => exact loops_put_ne h
            | ok frame' => exact loops_put_ne h
          · exact loops_put_ne h

theorem loops_cover_ne {c target : Nat} {draws : CoverDraws}
    {pad : Nat → UInt8} {res : WriteResult} (h : conn ≠ c) :
    (cover P cfg s c target draws pad res).loops conn = s.loops conn := by
  unfold cover
  dsimp only
  split
  · cases serializeMessage pad (coverMessage P draws) with
    | error e => exact loops_put_ne h
    | ok frame => exact loops_put_ne h
  · exact loops_put_ne h

/-- A step touches no loop but its own. -/
theorem loops_step_other {e : ShaperEvent} (h : e.conn? ≠ some conn) :
    (step P cfg s e).loops conn = s.loops conn := by
  have hne : ∀ c, e.conn? = some c → conn ≠ c := by
    rintro c hc rfl
    exact h hc
  obtain hsame | ⟨c, msg, pad, res, rfl, -, hstep⟩
      | ⟨c, peerCount, rfl, -, hstep⟩
      | ⟨c, target, pad, pad', res, rfl, -, hstep⟩
      | ⟨c, target, draws, pad, res, rfl, -, hstep⟩
      | ⟨ms, rfl, hstep⟩ := step_cases P cfg s e
  · rw [hsame]
  · rw [hstep, loops_receive_ne (hne c rfl)]
  · rw [hstep, loops_put_ne (hne c rfl)]
  · rw [hstep, loops_flushNext_ne (hne c rfl)]
  · rw [hstep, loops_cover_ne (hne c rfl)]
  · rw [hstep]

theorem order_step {e : ShaperEvent} (hw : e.Writes conn)
    (he : s.InTurn conn e) (h : (s.loops conn).OrderInv) :
    ((step P cfg s e).loops conn).OrderInv := by
  by_cases hconn : e.conn? = some conn
  · obtain hsame | ⟨c, msg, pad, res, rfl, hp, hstep⟩
        | ⟨c, peerCount, rfl, -, hstep⟩
        | ⟨c, target, pad, pad', res, rfl, -, hstep⟩
        | ⟨c, target, draws, pad, res, rfl, -, hstep⟩
        | ⟨ms, rfl, hstep⟩ := step_cases P cfg s e
    · rw [hsame]
      exact h
    · obtain rfl : c = conn := Option.some.inj hconn
      obtain rfl := hw rfl
      obtain ⟨hframe, hturn⟩ := he rfl hp
      rw [hstep]
      exact order_receive h hframe hturn
    · obtain rfl : c = conn := Option.some.inj hconn
      rw [hstep, loops_put_self]
      exact h.congr rfl rfl rfl rfl
    · obtain rfl : c = conn := Option.some.inj hconn
      obtain rfl := hw rfl
      rw [hstep]
      exact order_flushNext h
    · obtain rfl : c = conn := Option.some.inj hconn
      rw [hstep]
      exact order_cover h
    · cases hconn
  · rw [loops_step_other hconn]
    exact h

-- =========== the run

theorem orderInv_start : ShaperLoop.start.OrderInv := by
  constructor <;> simp [ShaperLoop.start]

/-- Whatever the other loops and the bucket do: a loop whose messages all
come in their turn keeps their order and loses none but the oldest of a full
queue. -/
theorem order_kept (P : Prims) (cfg : CoverTrafficConfig) (now conn : Nat)
    (es : List ShaperEvent) (hwrites : ∀ e ∈ es, e.Writes conn)
    (h : Along (step P cfg) (InTurn conn) (Shaper.start cfg now) es) :
    Always (step P cfg) (InOrder conn) (Shaper.start cfg now) es :=
  (always_of_along (I := fun s => (s.loops conn).OrderInv)
    (fun _ _ he hs => order_step he.1 he.2 hs) (h.and_forall hwrites)
    orderInv_start).mono fun _ hs => hs.inOrder

/-- A first packet and a reply of its session. -/
def firstPacket : WireMessage :=
  dummySphinxMessage (fun _ => 0) (Bytes.zero 32)

def sessionReplyAfter : WireMessage :=
  .sessionReply ⟨Bytes.zero 32, Bytes.zero 32, List.replicate WIRE_BODY_SIZE 0⟩

theorem firstPacket_fits : firstPacket.Fits := dummySphinxMessage_fits _ _

theorem sessionReplyAfter_fits : sessionReplyAfter.Fits :=
  List.length_replicate

/-- A rate at which the bucket holds one packet and part of another. -/
def narrowCover : CoverTrafficConfig := ⟨4000, 100, true⟩

/-- What the three ways of a real message come to, by the bucket's answer. -/
theorem receive_paid (P : Prims) (cfg : CoverTrafficConfig) (s : Shaper)
    (conn : Nat) {pad : Nat → UInt8} {frame : List UInt8}
    {b : TokenBucket} (hphase : (s.loops conn).phase = .idle)
    (hok : serializeMessage pad msg = .ok frame)
    (hpaid : s.bucket.tryConsume s.now frame.length = (true, b)) :
    (step P cfg s (.receive conn msg pad .ok)).now = s.now
      ∧ (step P cfg s (.receive conn msg pad .ok)).bucket = b
      ∧ (step P cfg s (.receive conn msg pad .ok)).loops conn
        = ((s.loops conn).take msg).wrote
            ((s.loops conn).received.length, msg) frame.length := by
  simp [step, hphase, Shaper.receive, hok, affords, consume, emit, hpaid, put]

theorem receive_short (P : Prims) (cfg : CoverTrafficConfig) (s : Shaper)
    (conn : Nat) {pad : Nat → UInt8} {frame : List UInt8}
    {b : TokenBucket} (hphase : (s.loops conn).phase = .idle)
    (hok : serializeMessage pad msg = .ok frame)
    (hshort : s.bucket.tryConsume s.now frame.length = (false, b)) :
    (step P cfg s (.receive conn msg pad .ok)).now = s.now
      ∧ (step P cfg s (.receive conn msg pad .ok)).bucket = b
      ∧ (step P cfg s (.receive conn msg pad .ok)).loops conn
        = ((s.loops conn).take msg).queue
            ((s.loops conn).received.length, msg) := by
  simp [step, hphase, Shaper.receive, hok, affords, consume, hshort, put]

theorem flushNext_paid (P : Prims) (cfg : CoverTrafficConfig) (s : Shaper)
    (conn target : Nat) (front : Nat × WireMessage)
    (rest : List (Nat × WireMessage)) {pad pad' : Nat → UInt8}
    {frame frame' : List UInt8} {b : TokenBucket}
    (hphase : (s.loops conn).phase = .flushing target)
    (hpending : (s.loops conn).pendingReal = front :: rest)
    (hok : serializeMessage pad front.2 = .ok frame)
    (hok' : serializeMessage pad' front.2 = .ok frame')
    (hpaid : s.bucket.tryConsume s.now frame.length = (true, b)) :
    (step P cfg s (.flushNext conn pad pad' .ok)).loops conn
      = { s.loops conn with pendingReal := rest }.wrote front
          frame.length := by
  simp [step, hphase, Shaper.flushNext, hpending, hok, hok', affords,
    consume, emit, hpaid, put]

/-- Three messages at once: the bucket pays for the first, the others are
queued; after a wait the tick writes the second. -/
def queueing (a b c : WireMessage) : List ShaperEvent :=
  [.receive 0 a (fun _ => 0) .ok, .receive 0 b (fun _ => 0) .ok,
    .receive 0 c (fun _ => 0) .ok, .wait 2000, .tick 0 1,
    .flushNext 0 (fun _ => 0) (fun _ => 0) .ok]

/-- Each comes in its turn, and the first two are written. -/
theorem queueing_inTurn {a b c : WireMessage}
    (ha : a.frameSize ≤ a.maxSize) (hb : b.frameSize ≤ b.maxSize)
    (hc : c.frameSize ≤ c.maxSize) (hsa : a.frameSize = 6735)
    (hsb : b.frameSize = 6735) (hsc : c.frameSize = 6735) :
    Along (step P narrowCover) (InTurn 0) (Shaper.start narrowCover 0)
        (queueing a b c)
      ∧ (((queueing a b c).foldl (step P narrowCover)
          (Shaper.start narrowCover 0)).loops 0).written.map Prod.fst
        = [0, 1]
      ∧ (((queueing a b c).foldl (step P narrowCover)
          (Shaper.start narrowCover 0)).loops 0).pendingReal
        = [(2, c)] := by
  obtain ⟨fa, hfa, hla⟩ := serializeMessage_of_le (fun _ => 0) ha
  obtain ⟨fb, hfb, hlb⟩ := serializeMessage_of_le (fun _ => 0) hb
  obtain ⟨fc, hfc, hlc⟩ := serializeMessage_of_le (fun _ => 0) hc
  unfold queueing
  simp only [List.foldl]
  set s₀ := Shaper.start narrowCover 0
  obtain ⟨hn₁, hb₁, hl₁⟩ := receive_paid P narrowCover s₀ 0
    (b := ⟨1265, 8000, 4000, 0⟩) rfl hfa
    (by rw [hla, hsa]; decide)
  set s₁ := step P narrowCover s₀ (.receive 0 a (fun _ => 0) .ok)
  obtain ⟨hn₂, hb₂, hl₂⟩ := receive_short P narrowCover s₁ 0
    (b := ⟨1265, 8000, 4000, 0⟩) (by rw [hl₁]; rfl)
    hfb (by rw [hlb, hsb, hb₁, hn₁]; decide)
  set s₂ := step P narrowCover s₁ (.receive 0 b (fun _ => 0) .ok)
  obtain ⟨hn₃, hb₃, hl₃⟩ := receive_short P narrowCover s₂ 0
    (b := ⟨1265, 8000, 4000, 0⟩) (by rw [hl₂, hl₁]; rfl)
    hfc (by rw [hlc, hsc, hb₂, hn₂, hn₁]; decide)
  set s₃ := step P narrowCover s₂ (.receive 0 c (fun _ => 0) .ok)
  rw [hl₂, hl₁] at hl₃
  set s₄ := step P narrowCover s₃ (.wait 2000)
  have hidle : (s₄.loops 0).phase = .idle := by
    show (s₃.loops 0).phase = .idle
    rw [hl₃]
    rfl
  set s₅ := step P narrowCover s₄ (.tick 0 1) with hs₅
  have hl₅ : s₅.loops 0 = { s₃.loops 0 with phase := .flushing 400 } := by
    rw [hs₅]
    simp only [step, hidle, loops_put_self]
    rfl
  have hb₅ : s₅.bucket = ⟨1265, 8000, 4000, 0⟩ := by
    rw [hs₅]
    simp only [step, hidle]
    show s₃.bucket.setRate _ _ = _
    rw [hb₃]
    decide
  have hn₅ : s₅.now = 2000 := by
    rw [hs₅]
    simp only [step, hidle]
    show s₃.now + 2000 = 2000
    rw [hn₃, hn₂, hn₁]
    rfl
  rw [hl₃] at hl₅
  have hflush := flushNext_paid P narrowCover s₅ 0 400 (1, b) [(2, c)]
    (b := ⟨1265, 8000, 4000, 2000⟩) (by rw [hl₅]) (by rw [hl₅]; rfl) hfb hfb
    (by rw [hlb, hsb, hb₅, hn₅]; decide)
  refine ⟨⟨fun _ _ => ⟨ha, .inl rfl⟩, fun _ _ => ⟨hb, .inr ?_⟩,
    fun _ _ => ⟨hc, .inr ?_⟩, trivial, trivial, trivial, trivial⟩, ?_, ?_⟩
  · show (s₁.bucket.refill s₁.now).tokens < _
    rw [hb₁, hn₁, hsb]
    decide
  · show (s₂.bucket.refill s₂.now).tokens < _
    rw [hb₂, hn₂, hn₁, hsc]
    decide
  · rw [hflush, hl₅]
    rfl
  · rw [hflush, hl₅]
    rfl

/-- Of two packets and a reply the first two are written, in order, and the
third waits in the queue. -/
theorem order_kept_queueing :
    Always (step Prims.plain narrowCover) (InOrder 0)
        (Shaper.start narrowCover 0)
        (queueing firstPacket firstPacket sessionReplyAfter)
      ∧ (((queueing firstPacket firstPacket sessionReplyAfter).foldl
          (step Prims.plain narrowCover)
          (Shaper.start narrowCover 0)).loops 0).written.map Prod.fst
        = [0, 1]
      ∧ (((queueing firstPacket firstPacket sessionReplyAfter).foldl
          (step Prims.plain narrowCover)
          (Shaper.start narrowCover 0)).loops 0).pendingReal
        = [(2, sessionReplyAfter)] := by
  have hfirst := frameSize_le_of_fits firstPacket_fits
  have hreply := frameSize_le_of_fits sessionReplyAfter_fits
  obtain ⟨hturn, hdone⟩ := queueing_inTurn (P := Prims.plain) hfirst hfirst
    hreply (frameSize_of_fits firstPacket_fits)
    (frameSize_of_fits firstPacket_fits)
    (frameSize_of_fits sessionReplyAfter_fits)
  exact ⟨order_kept Prims.plain narrowCover 0 0
    (queueing firstPacket firstPacket sessionReplyAfter)
    (by simp [queueing, ShaperEvent.Writes]) hturn, hdone⟩

/-- Three messages and a tick: the second finds the bucket short, the third
finds it refilled, and the tick comes last. -/
def crossing (a b c : WireMessage) : List ShaperEvent :=
  [.receive 0 a (fun _ => 0) .ok, .receive 0 b (fun _ => 0) .ok, .wait 2000,
    .receive 0 c (fun _ => 0) .ok, .wait 2000, .tick 0 1,
    .flushNext 0 (fun _ => 0) (fun _ => 0) .ok]

/-- The third is written before the second. -/
theorem crossing_written {a b c : WireMessage}
    (ha : a.frameSize ≤ a.maxSize) (hb : b.frameSize ≤ b.maxSize)
    (hc : c.frameSize ≤ c.maxSize) (hsa : a.frameSize = 6735)
    (hsb : b.frameSize = 6735) (hsc : c.frameSize = 6735) :
    (((crossing a b c).foldl (step P narrowCover)
      (Shaper.start narrowCover 0)).loops 0).written.map Prod.fst
        = [0, 2, 1] := by
  obtain ⟨fa, hfa, hla⟩ := serializeMessage_of_le (fun _ => 0) ha
  obtain ⟨fb, hfb, hlb⟩ := serializeMessage_of_le (fun _ => 0) hb
  obtain ⟨fc, hfc, hlc⟩ := serializeMessage_of_le (fun _ => 0) hc
  unfold crossing
  simp only [List.foldl]
  set s₀ := Shaper.start narrowCover 0
  obtain ⟨hn₁, hb₁, hl₁⟩ := receive_paid P narrowCover s₀ 0
    (b := ⟨1265, 8000, 4000, 0⟩) rfl hfa
    (by rw [hla, hsa]; decide)
  set s₁ := step P narrowCover s₀ (.receive 0 a (fun _ => 0) .ok)
  obtain ⟨hn₂, hb₂, hl₂⟩ := receive_short P narrowCover s₁ 0
    (b := ⟨1265, 8000, 4000, 0⟩) (by rw [hl₁]; rfl)
    hfb (by rw [hlb, hsb, hb₁, hn₁]; decide)
  set s₂ := step P narrowCover s₁ (.receive 0 b (fun _ => 0) .ok)
  rw [hl₁] at hl₂
  set s₃ := step P narrowCover s₂ (.wait 2000)
  have hn₃ : s₃.now = 2000 := by
    show s₂.now + 2000 = 2000
    rw [hn₂, hn₁]
    rfl
  obtain ⟨hn₄, hb₄, hl₄⟩ := receive_paid P narrowCover s₃ 0
    (b := ⟨1265, 8000, 4000, 2000⟩)
    (show (s₂.loops 0).phase = .idle by rw [hl₂]; rfl) hfc
    (show s₂.bucket.tryConsume s₃.now fc.length = _ by
      rw [hlc, hsc, hb₂, hn₃]; decide)
  set s₄ := step P narrowCover s₃ (.receive 0 c (fun _ => 0) .ok)
  have hl₄' : s₄.loops 0 = _ := hl₄
  rw [show s₃.loops 0 = s₂.loops 0 from rfl, hl₂] at hl₄'
  set s₅ := step P narrowCover s₄ (.wait 2000)
  have hidle : (s₅.loops 0).phase = .idle := by
    show (s₄.loops 0).phase = .idle
    rw [hl₄']
    rfl
  set s₆ := step P narrowCover s₅ (.tick 0 1) with hs₆
  have hl₆ : s₆.loops 0 = { s₄.loops 0 with phase := .flushing 400 } := by
    rw [hs₆]
    simp only [step, hidle, loops_put_self]
    rfl
  have hb₆ : s₆.bucket = ⟨1265, 8000, 4000, 2000⟩ := by
    rw [hs₆]
    simp only [step, hidle]
    show s₄.bucket.setRate _ _ = _
    rw [hb₄]
    decide
  have hn₆ : s₆.now = 4000 := by
    rw [hs₆]
    simp only [step, hidle]
    show s₄.now + 2000 = 4000
    rw [hn₄, hn₃]
  rw [hl₄'] at hl₆
  rw [flushNext_paid P narrowCover s₆ 0 400 (1, b) []
    (b := ⟨1265, 8000, 4000, 4000⟩) (by rw [hl₆]) (by rw [hl₆]; rfl) hfb hfb
    (by rw [hlb, hsb, hb₆, hn₆]; decide), hl₆]
  rfl

/-- A session reply is written before the first packet sent before it. -/
theorem session_reply_first :
    (∀ e ∈ crossing firstPacket firstPacket sessionReplyAfter, e.Writes 0)
      ∧ ¬ Always (step Prims.plain narrowCover) (InOrder 0)
          (Shaper.start narrowCover 0)
          (crossing firstPacket firstPacket sessionReplyAfter) := by
  refine ⟨by simp [crossing, ShaperEvent.Writes], fun h => ?_⟩
  have hfirst := frameSize_le_of_fits firstPacket_fits
  have hreply := frameSize_le_of_fits sessionReplyAfter_fits
  have hsorted := h.last.sorted
  rw [crossing_written hfirst hfirst hreply
    (frameSize_of_fits firstPacket_fits) (frameSize_of_fits firstPacket_fits)
    (frameSize_of_fits sessionReplyAfter_fits)] at hsorted
  exact absurd hsorted (by decide)

end StaticNet
