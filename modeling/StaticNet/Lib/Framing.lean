/-
Reading framed messages off a stream that arrives in pieces.

A reader looks at the front of a buffer: it takes one frame off, asks
for more, or fails. `drain` reads until it asks for more, `feed` appends
the pieces of a stream to the buffer one by one and drains after each.

What a format owes (`Frames`) is local: a frame in front of anything is
read as its message, and a part of a frame asks for more. That every
segmentation of a stream then gives the same messages (`feed_frames`) is
an induction over the pieces, and what it carries along is that the
buffer is a part of what is still to be read.

A reader of one message (`next`) starts with an empty buffer and stops
as soon as it has its message. What stands in the buffer behind it is
lost; there is nothing when a piece ends where the frame does
(`next_frames`).
-/
import Mathlib.Data.List.Infix

namespace StaticNet

namespace Framing

variable {α M E : Type}

/-- A step of reading: a message taken off the front of the buffer, or
none yet, or an error. -/
abbrev Reader (α M E : Type) := List α → Except E (Option M) × List α

/-- Read until more input is needed. -/
def drain (read : Reader α M E) : Nat → List α →
    Except E (List M) × List α
  | 0, buf => (.ok [], buf)
  | fuel + 1, buf =>
      match read buf with
      | (.error e, rest) => (.error e, rest)
      | (.ok none, rest) => (.ok [], rest)
      | (.ok (some m), rest) =>
          match drain read fuel rest with
          | (.error e, rest) => (.error e, rest)
          | (.ok ms, rest) => (.ok (m :: ms), rest)

/-- Append the pieces of a stream to the buffer, draining after each. -/
def feed (read : Reader α M E) : List α → List (List α) →
    Except E (List M) × List α
  | buf, [] => (.ok [], buf)
  | buf, piece :: pieces =>
      match drain read (buf ++ piece).length (buf ++ piece) with
      | (.error e, rest) => (.error e, rest)
      | (.ok ms, rest) =>
          match feed read rest pieces with
          | (.error e, rest) => (.error e, rest)
          | (.ok ms', rest) => (.ok (ms ++ ms'), rest)

/-- `frame` is a frame of `m`: it is read whatever follows, and no part
of it is read as anything. -/
structure Frames (read : Reader α M E) (m : M) (frame : List α) :
    Prop where
  nonempty : frame ≠ []
  whole : ∀ rest, read (frame ++ rest) = (.ok (some m), rest)
  short : ∀ part, part <+: frame → part ≠ frame →
    read part = (.ok none, part)

variable {read : Reader α M E}

/-- Frames of a list of messages, one each. -/
abbrev Stream (read : Reader α M E) (ms : List M)
    (frames : List (List α)) : Prop :=
  List.Forall₂ (Frames read) ms frames

/-- The buffer is a part of what is still to be read: nothing when
nothing is, less than the next frame otherwise. -/
def Pending (frames : List (List α)) (buf : List α) : Prop :=
  match frames with
  | [] => buf = []
  | frame :: _ => buf <+: frame ∧ buf ≠ frame

theorem pending_nil {ms : List M} {frames : List (List α)}
    (h : Stream read ms frames) : Pending frames [] := by
  cases h with
  | nil => rfl
  | cons hframe _ => exact ⟨List.nil_prefix, hframe.nonempty.symm⟩

/-- A part of the next frame waits. -/
theorem drain_pending (hidle : read [] = (.ok none, []))
    {ms : List M} {frames : List (List α)} (h : Stream read ms frames)
    {buf : List α} (hbuf : Pending frames buf) (fuel : Nat) :
    drain read fuel buf = (.ok [], buf) := by
  have hnone : read buf = (.ok none, buf) := by
    cases h with
    | nil =>
        rw [show buf = [] from hbuf]
        exact hidle
    | cons hframe _ => exact hframe.short buf hbuf.1 hbuf.2
  cases fuel with
  | zero => rfl
  | succ fuel => rw [drain, hnone]

/-- A buffer with a part of the stream is drained of the frames it holds
whole. -/
theorem drain_frames (hidle : read [] = (.ok none, []))
    {ms : List M} {frames : List (List α)} (h : Stream read ms frames)
    {buf left : List α} (hstream : buf ++ left = frames.flatten)
    {fuel : Nat} (hfuel : buf.length ≤ fuel) :
    ∃ done ms' frames' rest,
      drain read fuel buf = (.ok done, rest)
      ∧ ms = done ++ ms' ∧ Stream read ms' frames'
      ∧ Pending frames' rest ∧ rest ++ left = frames'.flatten := by
  induction h generalizing buf fuel with
  | nil =>
      have hnil : buf = [] ∧ left = [] := by simpa using hstream
      obtain ⟨rfl, rfl⟩ := hnil
      exact ⟨[], [], [], [], drain_pending hidle .nil rfl fuel, rfl, .nil,
        rfl, rfl⟩
  | @cons m frame ms frames hframe hrest ih =>
      have hbuf : buf <+: (frame :: frames).flatten := ⟨left, hstream⟩
      have hhead : frame <+: (frame :: frames).flatten :=
        ⟨frames.flatten, rfl⟩
      by_cases hwhole : frame <+: buf
      · -- the frame is there: take it off and go on with what follows
        obtain ⟨tail, rfl⟩ := hwhole
        have hpos : 0 < frame.length := List.length_pos_iff.2 hframe.nonempty
        rw [List.length_append] at hfuel
        obtain ⟨fuel, rfl⟩ : ∃ n, fuel = n + 1 := ⟨fuel - 1, by omega⟩
        rw [List.flatten_cons, List.append_assoc,
          List.append_cancel_left_eq] at hstream
        obtain ⟨done, ms', frames', rest, hdrain, hms, hs, hp, hleft⟩ :=
          ih hstream (show tail.length ≤ fuel by omega)
        refine ⟨m :: done, ms', frames', rest, ?_, by rw [hms]; rfl, hs, hp,
          hleft⟩
        rw [drain, hframe.whole tail]
        simp only [hdrain]
      · -- only a part of it is
        have hpart : buf <+: frame ∧ buf ≠ frame := by
          rcases List.prefix_or_prefix_of_prefix hbuf hhead with hp | hp
          · exact ⟨hp, fun heq => hwhole (heq ▸ List.prefix_refl _)⟩
          · exact absurd hp hwhole
        have hs : Stream read (m :: ms) (frame :: frames) :=
          .cons hframe hrest
        exact ⟨[], _, _, buf, drain_pending hidle hs hpart fuel, rfl, hs,
          hpart, hstream⟩

/-- However a stream is cut, its messages are read in order and nothing
is left over. -/
theorem feed_frames (hidle : read [] = (.ok none, []))
    {ms : List M} {frames : List (List α)} (h : Stream read ms frames)
    (pieces : List (List α)) {buf : List α} (hbuf : Pending frames buf)
    (hstream : buf ++ pieces.flatten = frames.flatten) :
    feed read buf pieces = (.ok ms, []) := by
  induction pieces generalizing buf ms frames with
  | nil =>
      rw [List.flatten_nil, List.append_nil] at hstream
      cases h with
      | nil =>
          rw [show buf = [] from hbuf]
          rfl
      | cons hframe hrest =>
          -- a part of the first frame is not the whole stream
          refine absurd ?_ hbuf.2
          refine hbuf.1.eq_of_length_le ?_
          rw [hstream, List.flatten_cons, List.length_append]
          exact Nat.le_add_right _ _
  | cons piece pieces ih =>
      rw [List.flatten_cons, ← List.append_assoc] at hstream
      obtain ⟨done, ms', frames', rest, hdrain, rfl, hs, hp, hleft⟩ :=
        drain_frames hidle h hstream (Nat.le_refl (buf ++ piece).length)
      rw [feed, hdrain]
      simp only [ih hs hp hleft]

-- ==== what is handled

/-- What a loop hands on that drains the buffer until more is needed or
reading fails: the messages, and the buffer unless it failed. -/
def drainUntil (read : Reader α M E) : Nat → List α →
    List M × Option (List α)
  | 0, buf => ([], some buf)
  | fuel + 1, buf =>
      match read buf with
      | (.error _, _) => ([], none)
      | (.ok none, rest) => ([], some rest)
      | (.ok (some m), rest) =>
          (m :: (drainUntil read fuel rest).1, (drainUntil read fuel rest).2)

/-- The messages a loop handles that appends the pieces to its buffer
and ends at the first error. -/
def serve (read : Reader α M E) : List α → List (List α) → List M
  | _, [] => []
  | buf, piece :: pieces =>
      match drainUntil read (buf ++ piece).length (buf ++ piece) with
      | (ms, none) => ms
      | (ms, some rest) => ms ++ serve read rest pieces

theorem drainUntil_of_drain {fuel : Nat} {buf rest : List α} {ms : List M}
    (h : drain read fuel buf = (.ok ms, rest)) :
    drainUntil read fuel buf = (ms, some rest) := by
  induction fuel generalizing buf ms with
  | zero =>
      obtain ⟨hms, rfl⟩ := Prod.mk.inj h
      obtain rfl := Except.ok.inj hms
      rfl
  | succ fuel ih =>
      rw [drain] at h
      rw [drainUntil]
      rcases hread : read buf with ⟨_ | _ | m, rest'⟩
      · rw [hread] at h
        cases h
      · rw [hread] at h
        obtain ⟨hms, rfl⟩ := Prod.mk.inj h
        obtain rfl := Except.ok.inj hms
        rfl
      · rw [hread] at h
        dsimp only at h ⊢
        rcases hdrain : drain read fuel rest' with ⟨_ | ms', rest''⟩
        · rw [hdrain] at h
          cases h
        · rw [hdrain] at h
          obtain ⟨hms, rfl⟩ := Prod.mk.inj h
          obtain rfl := Except.ok.inj hms
          rw [ih hdrain]

/-- Where nothing fails, the messages handled are the messages read. -/
theorem serve_of_feed {pieces : List (List α)} {buf rest : List α}
    {ms : List M} (h : feed read buf pieces = (.ok ms, rest)) :
    serve read buf pieces = ms := by
  induction pieces generalizing buf ms with
  | nil => exact Except.ok.inj (congrArg Prod.fst h)
  | cons piece pieces ih =>
      rw [feed] at h
      rw [serve]
      rcases hdrain : drain read (buf ++ piece).length (buf ++ piece) with
        ⟨_ | ms₁, rest₁⟩
      · rw [hdrain] at h
        cases h
      · rw [hdrain] at h
        dsimp only at h
        rcases hfeed : feed read rest₁ pieces with ⟨_ | ms₂, rest₂⟩
        · rw [hfeed] at h
          cases h
        · rw [hfeed] at h
          obtain ⟨hms, rfl⟩ := Prod.mk.inj h
          obtain rfl := Except.ok.inj hms
          rw [drainUntil_of_drain hdrain]
          dsimp only
          rw [ih hfeed]

/-- A reader that also says which elements its message was read from. -/
def withFrame (read : Reader α M E) : Reader α (M × List α) E :=
  fun buf =>
    match read buf with
    | (.error e, rest) => (.error e, rest)
    | (.ok none, rest) => (.ok none, rest)
    | (.ok (some m), rest) =>
        (.ok (some (m, buf.take (buf.length - rest.length))), rest)

theorem Frames.withFrame {m : M} {frame : List α}
    (h : Frames read m frame) :
    Frames (withFrame read) (m, frame) frame := by
  refine ⟨h.nonempty, ?_, ?_⟩
  · intro rest
    simp [Framing.withFrame, h.whole rest]
  · intro part hpart hne
    simp [Framing.withFrame, h.short part hpart hne]

/-- A reader takes messages off the front. -/
def TakesFront (read : Reader α M E) : Prop :=
  ∀ buf r rest, read buf = (.ok r, rest) → rest <:+ buf

/-- What is handled was in the buffer. -/
theorem length_drainUntil (hread : TakesFront read) (fuel : Nat)
    (buf : List α) :
    (((drainUntil (withFrame read) fuel buf).1.map Prod.snd).flatten).length
        + ((drainUntil (withFrame read) fuel buf).2.getD []).length
      ≤ buf.length := by
  induction fuel generalizing buf with
  | zero => simp [drainUntil]
  | succ fuel ih =>
      rw [drainUntil, withFrame]
      rcases hr : read buf with ⟨_ | _ | m, rest⟩
      · simp
      · simpa using (hread buf _ rest hr).length_le
      · have hle := (hread buf _ rest hr).length_le
        have hrest := ih rest
        simp only [List.map_cons, List.flatten_cons, List.length_append,
          List.length_take]
        omega

theorem length_serve (hread : TakesFront read) (pieces : List (List α))
    (buf : List α) :
    ((serve (withFrame read) buf pieces).map Prod.snd).flatten.length
      ≤ buf.length + pieces.flatten.length := by
  induction pieces generalizing buf with
  | nil => simp [serve]
  | cons piece pieces ih =>
      have hdrain := length_drainUntil hread (buf ++ piece).length
        (buf ++ piece)
      rw [serve, List.flatten_cons]
      generalize drainUntil (withFrame read) (buf ++ piece).length
        (buf ++ piece) = drained at hdrain ⊢
      obtain ⟨ms, _ | rest⟩ := drained
      · simp only [Option.getD_none, List.length_nil,
          List.length_append] at hdrain ⊢
        omega
      · have hrest := ih rest
        simp only [Option.getD_some, List.length_append] at hdrain
        simp only [List.map_append, List.flatten_append,
          List.length_append]
        omega

-- ======= one message

/-- Read one message, starting with an empty buffer: the message, if
there is one, and the pieces not yet received. -/
def nextFrom (read : Reader α M E) : List α → List (List α) →
    Option M × List (List α)
  | _, [] => (none, [])
  | buf, piece :: pieces =>
      match read (buf ++ piece) with
      | (.error _, _) => (none, pieces)
      | (.ok (some m), _) => (some m, pieces)
      | (.ok none, rest) => nextFrom read rest pieces

/-- A piece ends `k` elements into the stream. -/
def Boundary (pieces : List (List α)) (k : Nat) : Prop :=
  ∃ front, front <+: pieces ∧ front.flatten.length = k

theorem boundary_zero (pieces : List (List α)) : Boundary pieces 0 :=
  ⟨[], List.nil_prefix, rfl⟩

theorem boundary_cons {piece : List α} {pieces : List (List α)} {k : Nat}
    (hk : 0 < k) :
    Boundary (piece :: pieces) k
      ↔ piece.length ≤ k ∧ Boundary pieces (k - piece.length) := by
  constructor
  · rintro ⟨front, hfront, rfl⟩
    cases front with
    | nil => exact absurd hk (Nat.lt_irrefl _)
    | cons first front =>
        obtain ⟨rfl, hrest⟩ := List.cons_prefix_cons.1 hfront
        rw [List.flatten_cons, List.length_append]
        exact ⟨Nat.le_add_right _ _, front, hrest,
          (Nat.add_sub_cancel_left _ _).symm⟩
  · rintro ⟨hle, front, hfront, hlen⟩
    refine ⟨piece :: front, List.cons_prefix_cons.2 ⟨rfl, hfront⟩, ?_⟩
    rw [List.flatten_cons, List.length_append]
    omega

/-- After pieces that end at `k`, boundaries are those of the rest. -/
theorem boundary_append {taken rest : List (List α)} {k : Nat}
    (hk : 0 < k) :
    Boundary (taken ++ rest) (taken.flatten.length + k)
      ↔ Boundary rest k := by
  induction taken with
  | nil => simp
  | cons piece taken ih =>
      rw [List.cons_append, boundary_cons (by omega), List.flatten_cons,
        List.length_append, Nat.add_assoc, Nat.add_sub_cancel_left, ih]
      exact and_iff_right (Nat.le_add_right _ _)

/-- The reader of one message gets it, with what is left of the piece it
came in lost. Nothing is lost exactly when a piece ends where the frame
does. -/
theorem nextFrom_frames {m : M} {frame : List α} (h : Frames read m frame)
    (pieces : List (List α)) {buf tail : List α}
    (hbuf : buf <+: frame ∧ buf ≠ frame)
    (hstream : buf ++ pieces.flatten = frame ++ tail) :
    ∃ taken rest left, pieces = taken ++ rest
      ∧ buf ++ taken.flatten = frame ++ left
      ∧ left ++ rest.flatten = tail
      ∧ nextFrom read buf pieces = (some m, rest)
      ∧ (left = [] ↔ Boundary pieces (frame.length - buf.length)) := by
  induction pieces generalizing buf with
  | nil =>
      -- a part of the frame is not the whole stream
      refine absurd ?_ hbuf.2
      refine hbuf.1.eq_of_length_le ?_
      rw [List.flatten_nil, List.append_nil] at hstream
      rw [hstream, List.length_append]
      exact Nat.le_add_right _ _
  | cons piece pieces ih =>
      rw [List.flatten_cons, ← List.append_assoc] at hstream
      have hlt : buf.length < frame.length :=
        lt_of_le_of_ne hbuf.1.length_le
          fun heq => hbuf.2 (hbuf.1.eq_of_length heq)
      rw [boundary_cons (by omega)]
      by_cases hwhole : frame <+: buf ++ piece
      · -- the message is there, with what is left of the piece behind it
        obtain ⟨left, hleft⟩ := hwhole
        have hlen := congrArg List.length hleft
        rw [List.length_append, List.length_append] at hlen
        refine ⟨[piece], pieces, left, rfl, by simp [hleft], ?_, ?_, ?_⟩
        · rw [← hleft, List.append_assoc,
            List.append_cancel_left_eq] at hstream
          exact hstream
        · rw [nextFrom, ← hleft, h.whole left]
        · rw [← List.length_eq_zero_iff]
          constructor
          · intro hnil
            have hk : frame.length - buf.length - piece.length = 0 := by
              omega
            rw [hk]
            exact ⟨by omega, boundary_zero _⟩
          · rintro ⟨hle, -⟩
            omega
      · -- a part of it is: go on with the next piece
        have hpart : buf ++ piece <+: frame ∧ buf ++ piece ≠ frame := by
          have hhead : frame <+: (buf ++ piece) ++ pieces.flatten :=
            ⟨tail, hstream.symm⟩
          rcases List.prefix_or_prefix_of_prefix
            (List.prefix_append (buf ++ piece) pieces.flatten) hhead
            with hp | hp
          · exact ⟨hp, fun heq => hwhole (heq ▸ List.prefix_refl _)⟩
          · exact absurd hp hwhole
        obtain ⟨taken, rest, left, rfl, htaken, htail, hnext, hiff⟩ :=
          ih hpart hstream
        have hle := hpart.1.length_le
        rw [List.length_append] at hle hiff
        refine ⟨piece :: taken, rest, left, rfl, ?_, htail, ?_, ?_⟩
        · rw [List.flatten_cons, ← List.append_assoc, htaken]
        · rw [nextFrom, h.short _ hpart.1 hpart.2]
          exact hnext
        · rw [hiff, Nat.sub_sub]
          exact (and_iff_right (by omega)).symm

end Framing

end StaticNet
