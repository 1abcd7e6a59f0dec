/-
Reading a buffer the way a hand-written decoder does: an offset moves
through it, lengths are compared with what is left, and bytes are taken
by index.

A decoder stops without a value in two ways: with an error of its own,
or with a panic, when it takes bytes outside the buffer or subtracts
below zero. Two relations say what a decoder does, each with a rule for
every way to compose.

# What it meets

`Meets c data off Q E` is a weakest precondition: the decoder does not
panic, the value and the offset it ends with are in `Q`, an error it
stops with is in `E`. The rules are equivalences, so that `simp` turns
the question into one about lengths. They apply from the outside in (`↓`),
since the rest of a decoder is worth a look only behind its first step.

# What it reads back

`Reads c bytes rest a`: in front of `bytes`, with `rest` behind them, the
decoder takes exactly these bytes and gives `a`. An encoder is a
concatenation, and the rule for a sequence splits it (`Reads.bind`).
-/
import StaticNet.Lib.Bytes

namespace StaticNet

/-- How a decoder stops without a value. -/
inductive Halt (ε : Type)
  | error (e : ε)
  | panic
deriving DecidableEq

/-- A decoder: from a buffer and an offset, a value and the next
offset. -/
def Cursor (ε α : Type) :=
  List UInt8 → Nat → Except (Halt ε) (α × Nat)

namespace Cursor

variable {ε α β : Type}

instance : Monad (Cursor ε) where
  pure a := fun _ off => .ok (a, off)
  bind c f := fun data off =>
    (c data off).bind fun r => f r.1 data r.2

/-- A whole buffer, from its start. -/
def run (c : Cursor ε α) (data : List UInt8) : Except (Halt ε) α :=
  (c data 0).map Prod.fst

-- ======== operations

/-- Halt with an error. -/
def fail (e : ε) : Cursor ε α := fun _ _ => .error (.error e)

/-- The length of the buffer. -/
def size : Cursor ε Nat := fun data off => .ok (data.length, off)

/-- Where the decoder stands. -/
def pos : Cursor ε Nat := fun _ off => .ok (off, off)

/-- What is left of the buffer. -/
def remaining : Cursor ε (List UInt8) := fun data off =>
  .ok (data.drop off, off)

/-- A condition, or an error. -/
def ensure (p : Prop) [Decidable p] (e : ε) : Cursor ε Unit :=
  if p then pure () else fail e

/-- A value that may be missing, or an error. -/
def ofOption (o : Option α) (e : ε) : Cursor ε α :=
  o.elim (fail e) pure

/-- At least `n` bytes are left, or an error that is told the offset they
would end at and the length. -/
def need (n : Nat) (err : Nat → Nat → ε) : Cursor ε Unit :=
  fun data off =>
    if data.length < off + n then
      .error (.error (err (off + n) data.length))
    else .ok ((), off)

/-- The next `n` bytes, unchecked. -/
def raw (n : Nat) : Cursor ε (List UInt8) := fun data off =>
  if off + n ≤ data.length then .ok (slice data off n, off + n)
  else .error .panic

/-- `n` bytes from a place of the buffer, unchecked. -/
def range (start n : Nat) : Cursor ε (List UInt8) := fun data off =>
  if start + n ≤ data.length then .ok (slice data start n, off)
  else .error .panic

/-- The byte at a place of the buffer, unchecked. -/
def index (i : Nat) : Cursor ε UInt8 := fun data off =>
  if i < data.length then .ok (data.getD i 0, off) else .error .panic

/-- A difference of lengths, unchecked. -/
def sub (a b : Nat) : Cursor ε Nat := fun _ off =>
  if b ≤ a then .ok (a - b, off) else .error .panic

/-- The next byte, unchecked. -/
def next : Cursor ε UInt8 := do
  let bytes ← raw 1
  pure (bytes.getD 0 0)

/-- A decoder on the part of the buffer from here on, as a buffer of its
own. -/
def onRest (c : Cursor ε α) : Cursor ε α := fun data off =>
  (c (data.drop off) 0).map fun r => (r.1, off + r.2)

/-- A decoder on other bytes. -/
def within (bytes : List UInt8) (c : Cursor ε α) : Cursor ε α :=
  fun _ off => (c bytes 0).map fun r => (r.1, off)

/-- The errors of a decoder told in another way. -/
def mapError {ε' : Type} (g : ε → ε') (c : Cursor ε α) : Cursor ε' α :=
  fun data off =>
    match c data off with
    | .ok r => .ok r
    | .error .panic => .error .panic
    | .error (.error e) => .error (.error (g e))

/-- The next `n` bytes, if they are there. -/
def take (n : Nat) (err : Nat → Nat → ε) : Cursor ε (List UInt8) := do
  need n err
  raw n

/-- The next `n` bytes as an array. -/
def array (n : Nat) (err : Nat → Nat → ε) : Cursor ε (Bytes n) := do
  let bytes ← take n err
  pure (Bytes.ofList n bytes)

/-- The next `n` bytes as a big-endian integer. -/
def uint (n : Nat) (err : Nat → Nat → ε) : Cursor ε Nat := do
  let bytes ← take n err
  pure (ofBeBytes bytes)

/-- The next byte. -/
def byte (err : Nat → Nat → ε) : Cursor ε UInt8 := do
  let bytes ← take 1 err
  pure (bytes.getD 0 0)

/-- A counted loop. -/
def many (c : Cursor ε α) : Nat → Cursor ε (List α)
  | 0 => pure []
  | n + 1 => do
      let a ← c
      let rest ← many c n
      pure (a :: rest)

-- ===== what it meets

theorem bind_ok {c : Cursor ε α} {f : α → Cursor ε β}
    {data : List UInt8} {off off' : Nat} {a : α}
    (h : c data off = .ok (a, off')) :
    (c >>= f) data off = f a data off' := by
  show (c data off).bind _ = _
  rw [h]
  rfl

theorem bind_error {c : Cursor ε α} {f : α → Cursor ε β}
    {data : List UInt8} {off : Nat} {s : Halt ε}
    (h : c data off = .error s) : (c >>= f) data off = .error s := by
  show (c data off).bind _ = _
  rw [h]
  rfl

/-- The decoder does not panic, gives what is in `Q` and fails with what
is in `E`. -/
def Meets (c : Cursor ε α) (data : List UInt8) (off : Nat)
    (Q : α → Nat → Prop) (E : ε → Prop) : Prop :=
  c data off ≠ .error .panic
    ∧ (∀ a off', c data off = .ok (a, off') → Q a off')
    ∧ ∀ e, c data off = .error (.error e) → E e

variable {c : Cursor ε α} {data : List UInt8} {off n : Nat}
  {Q : α → Nat → Prop} {E : ε → Prop}

theorem meets_ok {a : α} {off' : Nat} (h : c data off = .ok (a, off')) :
    c.Meets data off Q E ↔ Q a off' := by
  unfold Meets
  rw [h]
  constructor
  · intro hmeets
    exact hmeets.2.1 a off' rfl
  · intro hq
    refine ⟨?_, ?_, ?_⟩
    · intro heq
      cases heq
    · intro b off₂ heq
      cases heq
      exact hq
    · intro e heq
      cases heq

theorem meets_error {e : ε} (h : c data off = .error (.error e)) :
    c.Meets data off Q E ↔ E e := by
  unfold Meets
  rw [h]
  constructor
  · intro hmeets
    exact hmeets.2.2 e rfl
  · intro he
    refine ⟨?_, ?_, ?_⟩
    · intro heq
      cases heq
    · intro a off' heq
      cases heq
    · intro e' heq
      cases heq
      exact he

theorem meets_panic (h : c data off = .error .panic) :
    c.Meets data off Q E ↔ False := by
  unfold Meets
  constructor
  · intro hmeets
    exact hmeets.1 h
  · exact False.elim

@[simp ↓] theorem meets_pure (a : α) :
    (pure a : Cursor ε α).Meets data off Q E ↔ Q a off :=
  meets_ok rfl

@[simp ↓] theorem meets_bind {f : α → Cursor ε β} {Q : β → Nat → Prop} :
    (c >>= f).Meets data off Q E
      ↔ c.Meets data off (fun a off' => (f a).Meets data off' Q E) E := by
  cases h : c data off with
  | error s =>
      cases s with
      | error e => rw [meets_error h, meets_error (bind_error h)]
      | panic => rw [meets_panic h, meets_panic (bind_error h)]
  | ok r =>
      obtain ⟨a, off'⟩ := r
      rw [meets_ok h]
      unfold Meets
      rw [bind_ok h]

@[simp ↓] theorem meets_map {g : α → β} {Q : β → Nat → Prop} :
    (g <$> c).Meets data off Q E
      ↔ c.Meets data off (fun a off' => Q (g a) off') E := by
  have hmap : g <$> c = c >>= fun a => pure (g a) := rfl
  rw [hmap, meets_bind]
  simp only [meets_pure]

@[simp ↓] theorem meets_fail (e : ε) :
    (fail e : Cursor ε α).Meets data off Q E ↔ E e :=
  meets_error rfl

@[simp ↓] theorem meets_size {Q : Nat → Nat → Prop} :
    (size : Cursor ε Nat).Meets data off Q E ↔ Q data.length off :=
  meets_ok rfl

@[simp ↓] theorem meets_pos {Q : Nat → Nat → Prop} :
    (pos : Cursor ε Nat).Meets data off Q E ↔ Q off off :=
  meets_ok rfl

@[simp ↓] theorem meets_remaining {Q : List UInt8 → Nat → Prop} :
    (remaining : Cursor ε (List UInt8)).Meets data off Q E
      ↔ Q (data.drop off) off :=
  meets_ok rfl

@[simp ↓] theorem meets_ensure {p : Prop} [Decidable p] {e : ε}
    {Q : Unit → Nat → Prop} : (ensure p e).Meets data off Q E
      ↔ (p → Q () off) ∧ (¬ p → E e) := by
  unfold ensure
  by_cases hp : p
  · simp [hp]
  · simp [hp]

@[simp ↓] theorem meets_ofOption {o : Option α} {e : ε} :
    (ofOption o e).Meets data off Q E
      ↔ (∀ a, o = some a → Q a off) ∧ (o = none → E e) := by
  unfold ofOption
  cases o with
  | none => simp
  | some a => simp

@[simp ↓] theorem meets_need {err : Nat → Nat → ε} {Q : Unit → Nat → Prop} :
    (need n err).Meets data off Q E
      ↔ (off + n ≤ data.length → Q () off)
        ∧ (data.length < off + n → E (err (off + n) data.length)) := by
  by_cases h : data.length < off + n
  · rw [meets_error (if_pos h)]
    simp [h, Nat.not_le.2 h]
  · rw [meets_ok (if_neg h)]
    simp [h, Nat.not_lt.1 h]

@[simp ↓] theorem meets_raw {Q : List UInt8 → Nat → Prop} :
    (raw n : Cursor ε (List UInt8)).Meets data off Q E
      ↔ off + n ≤ data.length ∧ Q (slice data off n) (off + n) := by
  by_cases h : off + n ≤ data.length
  · rw [meets_ok (if_pos h)]
    simp [h]
  · rw [meets_panic (if_neg h)]
    simp [h]

@[simp ↓] theorem meets_range {start : Nat} {Q : List UInt8 → Nat → Prop} :
    (range start n : Cursor ε (List UInt8)).Meets data off Q E
      ↔ start + n ≤ data.length ∧ Q (slice data start n) off := by
  by_cases h : start + n ≤ data.length
  · rw [meets_ok (if_pos h)]
    simp [h]
  · rw [meets_panic (if_neg h)]
    simp [h]

@[simp ↓] theorem meets_index {i : Nat} {Q : UInt8 → Nat → Prop} :
    (index i : Cursor ε UInt8).Meets data off Q E
      ↔ i < data.length ∧ Q (data.getD i 0) off := by
  by_cases h : i < data.length
  · rw [meets_ok (if_pos h)]
    simp [h]
  · rw [meets_panic (if_neg h)]
    simp [h]

@[simp ↓] theorem meets_sub {a b : Nat} {Q : Nat → Nat → Prop} :
    (sub a b : Cursor ε Nat).Meets data off Q E
      ↔ b ≤ a ∧ Q (a - b) off := by
  by_cases h : b ≤ a
  · rw [meets_ok (if_pos h)]
    simp [h]
  · rw [meets_panic (if_neg h)]
    simp [h]

@[simp ↓] theorem meets_next {Q : UInt8 → Nat → Prop} :
    (next : Cursor ε UInt8).Meets data off Q E
      ↔ off + 1 ≤ data.length ∧ Q ((slice data off 1).getD 0 0) (off + 1) := by
  unfold next
  rw [meets_bind, meets_raw]
  simp only [meets_pure]

@[simp ↓] theorem meets_onRest : (onRest c).Meets data off Q E
    ↔ c.Meets (data.drop off) 0 (fun a used => Q a (off + used)) E := by
  have hrest : onRest c data off
      = (c (data.drop off) 0).map fun r => (r.1, off + r.2) := rfl
  cases h : c (data.drop off) 0 with
  | error s =>
      rw [h] at hrest
      cases s with
      | error e => rw [meets_error h, meets_error hrest]
      | panic => rw [meets_panic h, meets_panic hrest]
  | ok r =>
      obtain ⟨a, used⟩ := r
      rw [h] at hrest
      rw [meets_ok h, meets_ok hrest]

@[simp ↓] theorem meets_within {bytes : List UInt8} :
    (within bytes c).Meets data off Q E
      ↔ c.Meets bytes 0 (fun a _ => Q a off) E := by
  have hwithin : within bytes c data off
      = (c bytes 0).map fun r => (r.1, off) := rfl
  cases h : c bytes 0 with
  | error s =>
      rw [h] at hwithin
      cases s with
      | error e => rw [meets_error h, meets_error hwithin]
      | panic => rw [meets_panic h, meets_panic hwithin]
  | ok r =>
      obtain ⟨a, used⟩ := r
      rw [h] at hwithin
      rw [meets_ok h, meets_ok hwithin]

@[simp ↓] theorem meets_mapError {ε' : Type} {g : ε → ε'} {E : ε' → Prop} :
    (mapError g c).Meets data off Q E
      ↔ c.Meets data off Q fun e => E (g e) := by
  cases h : c data off with
  | error s =>
      cases s with
      | error e =>
          have hmap : mapError g c data off = .error (.error (g e)) := by
            unfold mapError
            rw [h]
          rw [meets_error h, meets_error hmap]
      | panic =>
          have hmap : mapError g c data off = .error .panic := by
            unfold mapError
            rw [h]
          rw [meets_panic h, meets_panic hmap]
  | ok r =>
      obtain ⟨a, off'⟩ := r
      have hmap : mapError g c data off = .ok (a, off') := by
        unfold mapError
        rw [h]
      rw [meets_ok h, meets_ok hmap]

@[simp ↓] theorem meets_take {err : Nat → Nat → ε}
    {Q : List UInt8 → Nat → Prop} : (take n err).Meets data off Q E
      ↔ (off + n ≤ data.length → Q (slice data off n) (off + n))
        ∧ (data.length < off + n → E (err (off + n) data.length)) := by
  unfold take
  rw [meets_bind, meets_need]
  refine and_congr_left fun _ => ?_
  simp only [meets_raw]
  exact ⟨fun h hle => (h hle).2, fun h hle => ⟨hle, h hle⟩⟩

@[simp ↓] theorem meets_array {err : Nat → Nat → ε}
    {Q : Bytes n → Nat → Prop} : (array n err).Meets data off Q E
      ↔ (off + n ≤ data.length
          → Q (Bytes.ofList n (slice data off n)) (off + n))
        ∧ (data.length < off + n → E (err (off + n) data.length)) := by
  unfold array
  rw [meets_bind, meets_take]
  simp only [meets_pure]

@[simp ↓] theorem meets_uint {err : Nat → Nat → ε} {Q : Nat → Nat → Prop} :
    (uint n err).Meets data off Q E
      ↔ (off + n ≤ data.length
          → Q (ofBeBytes (slice data off n)) (off + n))
        ∧ (data.length < off + n → E (err (off + n) data.length)) := by
  unfold uint
  rw [meets_bind, meets_take]
  simp only [meets_pure]

@[simp ↓] theorem meets_byte {err : Nat → Nat → ε}
    {Q : UInt8 → Nat → Prop} : (byte err).Meets data off Q E
      ↔ (off + 1 ≤ data.length
          → Q ((slice data off 1).getD 0 0) (off + 1))
        ∧ (data.length < off + 1 → E (err (off + 1) data.length)) := by
  unfold byte
  rw [meets_bind, meets_take]
  simp only [meets_pure]

@[simp ↓] theorem meets_ite {p : Prop} [Decidable p] {c' : Cursor ε α} :
    (if p then c else c').Meets data off Q E
      ↔ (p → c.Meets data off Q E) ∧ (¬ p → c'.Meets data off Q E) := by
  by_cases hp : p
  · simp [hp]
  · simp [hp]

theorem Meets.mono {Q' : α → Nat → Prop} {E' : ε → Prop}
    (h : c.Meets data off Q E) (hq : ∀ a off', Q a off' → Q' a off')
    (he : ∀ e, E e → E' e) : c.Meets data off Q' E' := by
  obtain ⟨hpanic, hok, herror⟩ := h
  refine ⟨hpanic, ?_, ?_⟩
  · intro a off' heq
    exact hq a off' (hok a off' heq)
  · intro e heq
    exact he e (herror e heq)

/-- A loop that keeps room for what is left of it. -/
theorem Meets.many {I : Nat → Nat → Prop}
    (hstep : ∀ n off, I (n + 1) off →
      c.Meets data off (fun _ off' => I n off') E) (n off : Nat)
    (h : I n off) :
    (many c n).Meets data off (fun _ off' => I 0 off') E := by
  induction n generalizing off with
  | zero => exact (meets_pure _).2 h
  | succ n ih =>
      unfold Cursor.many
      rw [meets_bind]
      refine (hstep n off h).mono ?_ fun _ he => he
      intro a off' hn
      rw [meets_bind]
      refine (ih off' hn).mono ?_ fun _ he => he
      intro rest off₂ hend
      exact (meets_pure _).2 hend

/-- No panic on this buffer. -/
def Safe (c : Cursor ε α) (data : List UInt8) : Prop :=
  c.run data ≠ .error .panic

theorem safe_iff :
    c.Safe data ↔ c.Meets data 0 (fun _ _ => True) (fun _ => True) := by
  have hrun : c.run data = .error .panic ↔ c data 0 = .error .panic := by
    unfold run
    cases h : c data 0 with
    | error s => simp [Except.map]
    | ok r => simp [Except.map]
  unfold Safe Meets
  rw [ne_eq, hrun]
  simp

theorem Meets.safe (h : c.Meets data 0 Q E) : c.Safe data :=
  safe_iff.2 (h.mono (fun _ _ _ => trivial) fun _ _ => trivial)

/-- What a decoder gives is what it meets. -/
theorem Meets.of_run {Q : α → Prop} (h : c.Meets data 0 (fun a _ => Q a) E)
    {a : α} (hrun : c.run data = .ok a) : Q a := by
  unfold run at hrun
  cases hend : c data 0 with
  | error s =>
      rw [hend] at hrun
      cases hrun
  | ok r =>
      rw [hend] at hrun
      cases hrun
      exact h.2.1 r.1 r.2 hend

/-- A decoder that meets nothing with a value stops with an error. -/
theorem Meets.refused (h : c.Meets data 0 (fun _ _ => False) E) :
    ∃ e, c.run data = .error (.error e) ∧ E e := by
  obtain ⟨hpanic, hok, herror⟩ := h
  unfold run
  cases hrun : c data 0 with
  | ok r => exact (hok r.1 r.2 hrun).elim
  | error s =>
      cases s with
      | panic => exact absurd hrun hpanic
      | error e => exact ⟨e, rfl, herror e hrun⟩

/-- What a decoder without panics gives. -/
def total (r : Except ε α) : Except (Halt ε) α := r.mapError Halt.error

/-- A decoder does what a function says: values and errors. -/
theorem Meets.run_eq {r : Except ε α}
    (h : c.Meets data 0 (fun a _ => r = .ok a) (fun e => r = .error e)) :
    c.run data = total r := by
  obtain ⟨hpanic, hok, herror⟩ := h
  unfold run
  cases hrun : c data 0 with
  | ok res =>
      rw [hok res.1 res.2 hrun]
      rfl
  | error s =>
      cases s with
      | panic => exact absurd hrun hpanic
      | error e =>
          rw [herror e hrun]
          rfl

theorem meets_of_run_eq {r : Except ε α} (h : c.run data = total r) :
    c.Meets data 0 (fun a _ => r = .ok a) (fun e => r = .error e) := by
  unfold run at h
  refine ⟨?_, ?_, ?_⟩
  · intro hpanic
    rw [hpanic] at h
    cases r with
    | ok a => cases h
    | error e => cases h
  · intro a off' hok
    rw [hok] at h
    cases r with
    | ok b =>
        cases h
        rfl
    | error e => cases h
  · intro e herror
    rw [herror] at h
    cases r with
    | ok b => cases h
    | error e' =>
        cases h
        rfl

theorem safe_of_run_eq {r : Except ε α} (h : c.run data = total r) :
    c.Safe data :=
  (meets_of_run_eq h).safe

/-- The value of a decoder, put into a larger one. -/
theorem map_run_eq {r : Except ε α} (g : α → β)
    (h : c.run data = total r) :
    (g <$> c).run data = total (r.map g) := by
  apply Meets.run_eq
  rw [meets_map]
  refine (meets_of_run_eq h).mono ?_ ?_
  · intro a _ hok
    rw [hok]
    rfl
  · intro e herror
    rw [herror]
    rfl

-- ==== what it reads back

/-- In front of `bytes`, with `rest` behind, the decoder takes these bytes
and gives `a`. -/
def Reads (c : Cursor ε α) (bytes rest : List UInt8) (a : α) : Prop :=
  ∀ front : List UInt8, c (front ++ (bytes ++ rest)) front.length
    = .ok (a, (front ++ bytes).length)

variable {bytes bytes' rest : List UInt8} {a : α} {b : β}
  {f : α → Cursor ε β}

theorem Reads.run (h : c.Reads bytes rest a) :
    c.run (bytes ++ rest) = .ok a := by
  have hfront := h []
  rw [List.nil_append, List.length_nil] at hfront
  unfold Cursor.run
  rw [hfront]
  rfl

theorem Reads.bind (h : c.Reads bytes (bytes' ++ rest) a)
    (h' : (f a).Reads bytes' rest b) :
    (c >>= f).Reads (bytes ++ bytes') rest b := by
  intro front
  have hsecond := h' (front ++ bytes)
  rw [List.append_assoc bytes bytes' rest, bind_ok (h front),
    ← List.append_assoc front bytes (bytes' ++ rest), hsecond,
    List.append_assoc]

/-- A step that takes nothing. -/
theorem Reads.step (h : c.Reads [] (bytes ++ rest) a)
    (h' : (f a).Reads bytes rest b) : (c >>= f).Reads bytes rest b :=
  h.bind h'

/-- A step after which nothing is taken. -/
theorem Reads.last (h : c.Reads bytes rest a)
    (h' : (f a).Reads [] rest b) : (c >>= f).Reads bytes rest b := by
  have hboth : (c >>= f).Reads (bytes ++ []) rest b := Reads.bind h h'
  rw [List.append_nil] at hboth
  exact hboth

theorem Reads.pure (a : α) (rest : List UInt8) :
    (Pure.pure a : Cursor ε α).Reads [] rest a := by
  intro front
  rw [List.append_nil]
  rfl

theorem Reads.ensure {p : Prop} [Decidable p] (hp : p) (e : ε)
    (rest : List UInt8) : (ensure p e).Reads [] rest () := by
  unfold Cursor.ensure
  rw [if_pos hp]
  exact Reads.pure () rest

theorem Reads.ofOption {o : Option α} (h : o = some a) (e : ε)
    (rest : List UInt8) : (ofOption o e).Reads [] rest a := by
  unfold Cursor.ofOption
  rw [h]
  exact Reads.pure a rest

theorem Reads.size {f : Nat → Cursor ε β}
    (h : ∀ len, rest.length + bytes.length ≤ len →
      (f len).Reads bytes rest b) :
    (Cursor.size >>= f).Reads bytes rest b := by
  intro front
  refine h _ ?_ front
  rw [List.length_append, List.length_append]
  omega

theorem Reads.pos {f : Nat → Cursor ε β}
    (h : ∀ off, (f off).Reads bytes rest b) :
    (Cursor.pos >>= f).Reads bytes rest b :=
  fun front => h _ front

/-- What is left is these bytes and what stands behind them. -/
theorem Reads.remaining {f : List UInt8 → Cursor ε β}
    (h : (f (bytes ++ rest)).Reads bytes rest b) :
    (Cursor.remaining >>= f).Reads bytes rest b := by
  intro front
  have hrest : (Cursor.remaining : Cursor ε (List UInt8))
      (front ++ (bytes ++ rest)) front.length
        = .ok (bytes ++ rest, front.length) := by
    unfold Cursor.remaining
    rw [List.drop_left]
  rw [bind_ok hrest]
  exact h front

theorem Reads.need (err : Nat → Nat → ε) (h : n ≤ rest.length) :
    (need n err).Reads [] rest () := by
  intro front
  unfold Cursor.need
  rw [if_neg]
  · rw [List.append_nil]
  · rw [List.length_append, List.nil_append]
    omega

theorem Reads.raw (bytes rest : List UInt8) (h : bytes.length = n) :
    (raw n : Cursor ε (List UInt8)).Reads bytes rest bytes := by
  intro front
  unfold Cursor.raw
  rw [if_pos, slice_field front rest rfl rfl h, List.length_append, h]
  rw [List.length_append, List.length_append]
  omega

theorem Reads.next (x : UInt8) (rest : List UInt8) :
    (next : Cursor ε UInt8).Reads [x] rest x :=
  Reads.last (Reads.raw [x] rest rfl) (Reads.pure x rest)

theorem Reads.onRest (h : c.Reads bytes rest a) :
    (onRest c).Reads bytes rest a := by
  intro front
  have hstart := h []
  rw [List.nil_append, List.nil_append, List.length_nil] at hstart
  unfold Cursor.onRest
  rw [List.drop_left, hstart, List.length_append]
  rfl

theorem Reads.take (err : Nat → Nat → ε) (bytes rest : List UInt8)
    (h : bytes.length = n) : (take n err).Reads bytes rest bytes := by
  unfold Cursor.take
  refine Reads.step (Reads.need err ?_) (Reads.raw bytes rest h)
  rw [List.length_append]
  omega

theorem Reads.array (err : Nat → Nat → ε) (x : Bytes n)
    (rest : List UInt8) : (array n err).Reads x.toList rest x := by
  refine Reads.last (Reads.take err x.toList rest x.length_toList) ?_
  show (Pure.pure (Bytes.ofList n x.toList) : Cursor ε (Bytes n)).Reads []
    rest x
  rw [Bytes.ofList_toList]
  exact Reads.pure x rest

theorem Reads.uint (err : Nat → Nat → ε) {x : Nat} (h : x < 256 ^ n)
    (rest : List UInt8) : (uint n err).Reads (beBytes n x) rest x := by
  refine Reads.last
    (Reads.take err (beBytes n x) rest (length_beBytes n x)) ?_
  show (Pure.pure (ofBeBytes (beBytes n x)) : Cursor ε Nat).Reads [] rest x
  rw [ofBeBytes_beBytes_of_lt h]
  exact Reads.pure x rest

theorem Reads.byte (err : Nat → Nat → ε) (x : UInt8)
    (rest : List UInt8) : (byte err).Reads [x] rest x :=
  Reads.last (Reads.take err [x] rest rfl) (Reads.pure x rest)

/-- A counted list of values, each read back in front of anything. -/
theorem Reads.many (enc : α → List UInt8) (xs : List α)
    (h : ∀ x ∈ xs, ∀ rest, c.Reads (enc x) rest x) (rest : List UInt8) :
    (many c xs.length).Reads (xs.map enc).flatten rest xs := by
  induction xs with
  | nil => exact Reads.pure [] rest
  | cons x xs ih =>
      have hx := h x List.mem_cons_self ((xs.map enc).flatten ++ rest)
      have hxs := ih fun y hy => h y (List.mem_cons_of_mem x hy)
      exact Reads.bind hx (Reads.last hxs (Reads.pure (x :: xs) rest))

end Cursor

end StaticNet
