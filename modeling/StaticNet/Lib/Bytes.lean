/-
Byte strings the way a wire format uses them: fixed-size arrays that
carry their size, big- and little-endian integers with the decoder that
inverts them, slices of a buffer, and the keystream XOR every stream
cipher layer is made of.

The slice lemmas are stated for concatenations, because an encoder is a
concatenation: `slice_skip` steps over a field and `slice_here` reads
one, so a decoder that reads fields at running offsets is evaluated
field by field.
-/
import Mathlib.Data.List.Basic
import Mathlib.Tactic.Ring

namespace StaticNet

-- ==== fixed-size arrays

/-- An array of exactly `n` bytes. -/
@[ext]
structure Bytes (n : Nat) where
  toList : List UInt8
  length_toList : toList.length = n
deriving DecidableEq

namespace Bytes

/-- Every byte equal to `b`. -/
def fill (n : Nat) (b : UInt8) : Bytes n :=
  ⟨List.replicate n b, List.length_replicate⟩

/-- The all-zero array. -/
def zero (n : Nat) : Bytes n := fill n 0

instance (n : Nat) : Inhabited (Bytes n) := ⟨zero n⟩

attribute [simp] length_toList

/-- The first `n` bytes of a list, zero-filled when it is shorter. -/
def ofList (n : Nat) (l : List UInt8) : Bytes n :=
  ⟨(l ++ List.replicate n 0).take n, by simp⟩

/-- Reading an array back out of its own bytes. -/
@[simp] theorem ofList_toList {n : Nat} (b : Bytes n) :
    ofList n b.toList = b := by
  ext1
  simp [ofList]

/-- A list of the right length is kept as it is. -/
theorem toList_ofList {n : Nat} {l : List UInt8} (h : l.length = n) :
    (ofList n l).toList = l := by
  simp [ofList, ← h]

/-- An array survives a longer array's padding. -/
theorem ofList_ofList {m n : Nat} (h : n ≤ m) (b : Bytes n) :
    ofList n (ofList m b.toList).toList = b := by
  have hlen : b.toList.length = n := b.length_toList
  apply Bytes.ext
  simp only [ofList]
  rw [List.take_append_of_le_length (by simp [hlen]; omega),
    List.take_take, Nat.min_eq_left h,
    List.take_append_of_le_length (Nat.le_of_eq hlen.symm),
    List.take_of_length_le (Nat.le_of_eq hlen)]

theorem fill_injective {n : Nat} (hn : 0 < n) {a b : UInt8}
    (h : fill n a = fill n b) : a = b := by
  have hl : List.replicate n a = List.replicate n b :=
    congrArg toList h
  exact (List.replicate_inj.1 hl).2.resolve_left (by omega)

end Bytes

-- ========== integers

/-- The low `w` bytes of `n`, most significant first. -/
def beBytes : Nat → Nat → List UInt8
  | 0, _ => []
  | w + 1, n => UInt8.ofNat (n / 256 ^ w) :: beBytes w n

/-- The integer a big-endian byte string denotes. -/
def ofBeBytes (l : List UInt8) : Nat :=
  l.foldl (fun acc b => acc * 256 + b.toNat) 0

/-- The low `w` bytes of `n`, least significant first. -/
def leBytes (w n : Nat) : List UInt8 := (beBytes w n).reverse

@[simp] theorem length_beBytes (w n : Nat) : (beBytes w n).length = w := by
  induction w with
  | zero => rfl
  | succ w ih => simp [beBytes, ih]

@[simp] theorem length_leBytes (w n : Nat) : (leBytes w n).length = w := by
  simp [leBytes]

private theorem foldl_be (l : List UInt8) (a : Nat) :
    l.foldl (fun acc b => acc * 256 + b.toNat) a
      = a * 256 ^ l.length + ofBeBytes l := by
  induction l generalizing a with
  | nil => simp [ofBeBytes]
  | cons b l ih =>
      rw [List.foldl_cons, ih]
      rw [show ofBeBytes (b :: l) = l.foldl
          (fun acc b => acc * 256 + b.toNat) (0 * 256 + b.toNat) from rfl,
        ih (0 * 256 + b.toNat)]
      rw [List.length_cons, pow_succ]
      ring

theorem ofBeBytes_cons (b : UInt8) (l : List UInt8) :
    ofBeBytes (b :: l) = b.toNat * 256 ^ l.length + ofBeBytes l := by
  rw [show ofBeBytes (b :: l) = l.foldl
    (fun acc b => acc * 256 + b.toNat) (0 * 256 + b.toNat) from rfl,
    foldl_be, Nat.zero_mul, Nat.zero_add]

theorem ofBeBytes_lt (l : List UInt8) : ofBeBytes l < 256 ^ l.length := by
  induction l with
  | nil => simp [ofBeBytes]
  | cons b l ih =>
      rw [ofBeBytes_cons, List.length_cons, pow_succ]
      have hb : b.toNat < 256 := b.toNat_lt
      have hmul : b.toNat * 256 ^ l.length ≤ 255 * 256 ^ l.length :=
        Nat.mul_le_mul_right _ (by omega)
      omega

/-- Decoding inverts encoding, modulo the width. -/
theorem ofBeBytes_beBytes (w n : Nat) :
    ofBeBytes (beBytes w n) = n % 256 ^ w := by
  induction w with
  | zero => simp [beBytes, ofBeBytes, Nat.mod_one]
  | succ w ih =>
      rw [beBytes]
      rw [ofBeBytes_cons, ih, length_beBytes]
      have hb : (UInt8.ofNat (n / 256 ^ w)).toNat = n / 256 ^ w % 256 := by
        simp
      rw [hb, pow_succ, Nat.mod_mul]
      ring

/-- Decoding inverts encoding for an integer that fits the width. -/
theorem ofBeBytes_beBytes_of_lt {w n : Nat} (h : n < 256 ^ w) :
    ofBeBytes (beBytes w n) = n := by
  rw [ofBeBytes_beBytes, Nat.mod_eq_of_lt h]

/-- The leading digit is determined by the value. -/
private theorem digit_le {a b m r r' : Nat} (hr : r' < m)
    (h : a * m + r = b * m + r') : a ≤ b := by
  by_contra hlt
  have hmul : (b + 1) * m ≤ a * m :=
    Nat.mul_le_mul_right _ (by omega)
  rw [Nat.succ_mul] at hmul
  omega

/-- Byte strings of one length that denote the same integer are
equal. -/
theorem ofBeBytes_inj {l l' : List UInt8} (hlen : l.length = l'.length)
    (h : ofBeBytes l = ofBeBytes l') : l = l' := by
  induction l generalizing l' with
  | nil => exact (List.length_eq_zero_iff.1 hlen.symm).symm
  | cons b l ih =>
      cases l' with
      | nil => cases hlen
      | cons b' l' =>
          have hlen' : l.length = l'.length := by simpa using hlen
          have hlt := ofBeBytes_lt l
          have hlt' := ofBeBytes_lt l'
          rw [ofBeBytes_cons, ofBeBytes_cons, hlen'] at h
          rw [hlen'] at hlt
          have hq : b.toNat = b'.toNat :=
            Nat.le_antisymm (digit_le hlt' h) (digit_le hlt h.symm)
          rw [hq] at h
          rw [UInt8.toNat_inj.1 hq, ih hlen' (Nat.add_left_cancel h)]

/-- An array as an integer: an injective key. -/
def Bytes.toNat {n : Nat} (b : Bytes n) : Nat := ofBeBytes b.toList

theorem Bytes.toNat_injective {n : Nat} :
    Function.Injective (Bytes.toNat (n := n)) := by
  intro a b h
  apply Bytes.ext
  exact ofBeBytes_inj (a.length_toList.trans b.length_toList.symm) h

/-- Two integers that fit the width and encode alike are equal. -/
theorem leBytes_inj {w a b : Nat} (ha : a < 256 ^ w) (hb : b < 256 ^ w)
    (h : leBytes w a = leBytes w b) : a = b := by
  have hbe : beBytes w a = beBytes w b := List.reverse_injective h
  rw [← ofBeBytes_beBytes_of_lt ha, hbe, ofBeBytes_beBytes_of_lt hb]

-- ============ slices

/-- `data[off .. off + len]`. -/
def slice (data : List UInt8) (off len : Nat) : List UInt8 :=
  (data.drop off).take len

/-- A slice inside the buffer has the length asked for. -/
theorem length_slice {data : List UInt8} {off len : Nat}
    (h : off + len ≤ data.length) : (slice data off len).length = len := by
  simp only [slice, List.length_take, List.length_drop]
  omega

/-- A slice that starts after a field skips it. -/
theorem slice_skip {a b : List UInt8} {off len : Nat}
    (h : a.length ≤ off) :
    slice (a ++ b) off len = slice b (off - a.length) len := by
  rw [slice, List.drop_append, List.drop_eq_nil_of_le h]
  rfl

/-- A slice that covers exactly the first field reads it. -/
theorem slice_here {a b : List UInt8} {len : Nat} (h : a.length = len) :
    slice (a ++ b) 0 len = a := by
  subst h
  simp [slice]

/-- A slice reads the field that stands at its offset. -/
theorem slice_field {data field : List UInt8} {off len : Nat}
    (front back : List UInt8) (h : data = front ++ (field ++ back))
    (hoff : front.length = off)
    (hlen : field.length = len) : slice data off len = field := by
  subst h hoff
  rw [slice_skip (Nat.le_refl _), Nat.sub_self, slice_here hlen]

/-- A byte is read at its offset. -/
theorem getD_field {data : List UInt8} {x : UInt8} {off : Nat}
    (front back : List UInt8) (h : data = front ++ (x :: back))
    (hoff : front.length = off) : data.getD off 0 = x := by
  subst h hoff
  simp

/-- A slice inside a front part does not see what follows. -/
theorem slice_front {a b : List UInt8} {off len : Nat} (h : a <+: b)
    (hlen : off + len ≤ a.length) : slice b off len = slice a off len := by
  obtain ⟨rest, rfl⟩ := h
  rw [slice, slice, List.drop_append_of_le_length (by omega),
    List.take_append_of_le_length (by rw [List.length_drop]; omega)]

/-- A slice inside a field is a slice of the field. -/
theorem slice_within {data field : List UInt8} {start off len : Nat}
    (front back : List UInt8) (h : data = front ++ (field ++ back))
    (hstart : front.length = start) (hlen : off + len ≤ field.length) :
    slice data (start + off) len = slice field off len := by
  subst h hstart
  rw [slice_skip (Nat.le_add_right _ _), Nat.add_sub_cancel_left,
    slice_front (List.prefix_append _ _) hlen]

/-- A slice that covers a whole buffer is the buffer. -/
theorem slice_all {a : List UInt8} {len : Nat} (h : a.length = len) :
    slice a 0 len = a := by
  subst h
  simp [slice]

-- ============== pads

/-- A byte string zero-filled to `n` bytes (kept when longer). -/
def padTo (n : Nat) (l : List UInt8) : List UInt8 :=
  l ++ List.replicate (n - l.length) 0

theorem length_padTo {n : Nat} {l : List UInt8} (h : l.length ≤ n) :
    (padTo n l).length = n := by
  simp only [padTo, List.length_append, List.length_replicate]
  omega

/-- Consecutive windows make up the list. -/
theorem flatten_windows (l : List UInt8) (m n : Nat) :
    ((List.range n).map fun i => (l.drop (i * m)).take m).flatten
      = l.take (n * m) := by
  induction n with
  | zero => simp
  | succ n ih =>
      rw [List.range_succ, List.map_append, List.flatten_append, ih,
        Nat.succ_mul, List.take_add]
      simp

/-- A window of a list, filled up with zeros, is one of the list filled
up with zeros. -/
theorem padTo_window {l : List UInt8} {off size n : Nat}
    (hstart : off ≤ l.length) (hend : off + size ≤ n) :
    padTo size ((l.drop off).take size)
      = ((padTo n l).drop off).take size := by
  have hzeros : size - ((l.drop off).take size).length
      = min (size - (l.drop off).length) (n - l.length) := by
    rw [List.length_take, List.length_drop]
    omega
  unfold padTo
  rw [List.drop_append_of_le_length hstart, List.take_append,
    List.take_replicate, hzeros]

/-- `len` bytes drawn from a random source. -/
def randomBytes (src : Nat → UInt8) (len : Nat) : List UInt8 :=
  (List.range len).map src

@[simp] theorem length_randomBytes (src : Nat → UInt8) (len : Nat) :
    (randomBytes src len).length = len := by
  simp [randomBytes]

-- =============== XOR

/-- Byte-wise XOR with a keystream. -/
def xorBytes (stream data : List UInt8) : List UInt8 :=
  List.zipWith (· ^^^ ·) data stream

theorem length_xorBytes {stream data : List UInt8}
    (h : stream.length = data.length) :
    (xorBytes stream data).length = data.length := by
  simp [xorBytes, h]

/-- XOR with the same keystream twice is the identity. -/
theorem xorBytes_xorBytes {stream data : List UInt8}
    (h : stream.length = data.length) :
    xorBytes stream (xorBytes stream data) = data := by
  induction data generalizing stream with
  | nil => simp [xorBytes]
  | cons d data ih =>
      cases stream with
      | nil => simp at h
      | cons k stream =>
          have htail : stream.length = data.length := by simpa using h
          have hrec := ih htail
          simp only [xorBytes, List.zipWith_cons_cons] at hrec ⊢
          rw [hrec, UInt8.xor_assoc, UInt8.xor_self, UInt8.xor_zero]

end StaticNet
