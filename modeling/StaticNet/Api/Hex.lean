/-
The hex strings of the local API.

# Two grammars

`hex_decode` cuts a string into pairs of bytes and gives each pair to the
integer parser of the standard library. A cut inside a character panics,
and the parser takes a leading `+`, so a pair is taken on a wider grammar
than two hex digits (`TakenPair`). The pairs are read in order and the
first one that fails ends the decoding, so a cut behind it is never made.

# Characters for bytes

The decoder is put as a recursion over the characters (`readChars`), one
case per width of the first one, and what it answers is read off there.
-/
import StaticNet.Lib.Cursor
import StaticNet.Api.Token

namespace StaticNet.Api

-- ==== the standard library

/-- `str::is_char_boundary`. -/
def isCharBoundary (data : List UInt8) (index : Nat) : Bool :=
  if index = 0 then true
  else if data.length ≤ index then index == data.length
  else
    let b := data.getD index 0
    b < 0x80 || 0xC0 ≤ b

/-- `&data[i..j]` on a string. -/
def sliceStr (data : List UInt8) (i j : Nat) :
    Except (Halt String) (List UInt8) :=
  if i ≤ j ∧ isCharBoundary data i ∧ isCharBoundary data j then
    .ok (slice data i (j - i))
  else .error .panic

/-- `IntErrorKind`, as far as an unsigned parser uses it. -/
inductive IntErrorKind
  | empty
  | invalidDigit
  | posOverflow
deriving DecidableEq

/-- `Display` of a `ParseIntError`. -/
def IntErrorKind.display : IntErrorKind → String
  | .empty => "cannot parse integer from empty string"
  | .invalidDigit => "invalid digit found in string"
  | .posOverflow => "number too large to fit in target type"

/-- `(b as char).to_digit(16)`. -/
def toDigit16 (b : UInt8) : Option Nat :=
  if 0x30 ≤ b ∧ b ≤ 0x39 then some (b.toNat - 0x30)
  else if 0x61 ≤ b ∧ b ≤ 0x66 then some (b.toNat - 0x61 + 10)
  else if 0x41 ≤ b ∧ b ≤ 0x46 then some (b.toNat - 0x41 + 10)
  else none

/-- One more digit of a `u8`. -/
def pushDigit (result : Nat) (b : UInt8) : Except IntErrorKind Nat :=
  match toDigit16 b with
  | none => .error .invalidDigit
  | some d =>
      if result * 16 + d < 256 then .ok (result * 16 + d)
      else .error .posOverflow

/-- `u8::from_str_radix(src, 16)`. -/
def fromStrRadix16 (src : List UInt8) : Except IntErrorKind UInt8 :=
  if src = [] then .error .empty
  else if src = [0x2B] ∨ src = [0x2D] then .error .invalidDigit
  else
    let digits := if src.head? = some 0x2B then src.tail else src
    (digits.foldlM pushDigit 0).map UInt8.ofNat

-- ========== the code

/-- One of the sixteen digits `{:02x}` writes. -/
def hexDigitOf (n : Nat) : Char :=
  "0123456789abcdef".toList.getD n '0'

/-- `format!("{:02x}", b)`. -/
def hexPair (b : UInt8) : List Char :=
  [hexDigitOf (b.toNat / 16), hexDigitOf (b.toNat % 16)]

/-- `hex_encode`. -/
def hexEncode (data : List UInt8) : String :=
  String.ofList (data.flatMap hexPair)

/-- The closure of `hex_decode`: the byte at offset `i`. -/
def hexByte (data : List UInt8) (i : Nat) :
    Except (Halt String) UInt8 := do
  let pair ← sliceStr data i (i + 2)
  (fromStrRadix16 pair).mapError fun e =>
    .error ("Hex decode error: " ++ e.display)

/-- `hex_decode`. -/
def hexDecode (data : String) : Except (Halt String) (List UInt8) :=
  let bytes := asBytes data
  if bytes.length % 2 ≠ 0 then
    .error (.error "Hex decode error: odd length")
  else (List.range' 0 (bytes.length / 2) 2).mapM (hexByte bytes)

/-- An error of `hex_decode` under the caller's words; a panic stays
one. -/
def invalidKey : Halt String → Halt String
  | .error e => .error ("Invalid content_pub_key: " ++ e)
  | .panic => .panic

/-- `parse_content_key`. -/
def parseContentKey (keyHex : Option String) :
    Except (Halt String) (Bytes 32) := do
  let keyHex ← match keyHex with
    | none => .error (.error "Missing content_pub_key")
    | some keyHex => .ok keyHex
  let keyBytes ← (hexDecode keyHex).mapError invalidKey
  if h : keyBytes.length = 32 then .ok ⟨keyBytes, h⟩
  else .error (.error "content_pub_key must be 32 bytes")

-- ======== characters

/-- A byte a character can start at. -/
def leads (b : UInt8) : Bool := b < 0x80 || 0xC0 ≤ b

/-- `is_ascii_hexdigit`. -/
def isAsciiHexdigit (c : Char) : Bool :=
  ('0' ≤ c && c ≤ '9') || ('a' ≤ c && c ≤ 'f') || ('A' ≤ c && c ≤ 'F')

theorem leads_low : ∀ b : UInt8, leads (b &&& 0x3f ||| 0x80) = false := by
  have hall : ∀ n : Fin 256,
      leads (UInt8.ofNat n.val &&& 0x3f ||| 0x80) = false := by
    decide +kernel
  intro b
  have hb := hall ⟨b.toNat, b.toNat_lt⟩
  rwa [UInt8.ofNat_toNat] at hb

theorem le_lead (b mask mark : UInt8) (h : 0xC0 ≤ mark) :
    0xC0 ≤ (b &&& mask ||| mark) := by
  have hmark : mark.toNat ≤ (b &&& mask ||| mark).toNat := by
    rw [UInt8.toNat_or]
    exact Nat.right_le_or
  rw [UInt8.le_iff_toNat_le] at h ⊢
  exact Nat.le_trans h hmark

/-- A character is one byte below 128, or a byte from 192 on and then
bytes no character starts at: one of them, or more. -/
inductive Encoded (c : Char) : List UInt8 → Prop
  | one (b : UInt8) : b.toNat = c.toNat → c.toNat < 0x80 → Encoded c [b]
  | two (a b : UInt8) : 0x80 ≤ c.toNat → 0xC0 ≤ a → leads b = false →
      c.utf8Size = 2 → Encoded c [a, b]
  | more (a b d : UInt8) (rest : List UInt8) : 0x80 ≤ c.toNat → 0xC0 ≤ a →
      leads b = false → leads d = false → 3 ≤ c.utf8Size →
      Encoded c (a :: b :: d :: rest)

theorem encoded (c : Char) : Encoded c (String.utf8EncodeChar c) := by
  have hpos := c.utf8Size_pos
  have hle := c.utf8Size_le_four
  have hascii : c.utf8Size = 1 ↔ c.toNat < 0x80 := by
    rw [Char.utf8Size_eq_one_iff, UInt32.le_iff_toNat_le]
    exact Nat.lt_succ_iff.symm
  obtain h | h | h | h : c.utf8Size = 1 ∨ c.utf8Size = 2 ∨ c.utf8Size = 3
      ∨ c.utf8Size = 4 := by omega
  · rw [String.utf8EncodeChar_eq_singleton h]
    have hlt := hascii.1 h
    refine Encoded.one _ ?_ hlt
    rw [UInt32.toNat_toUInt8]
    exact Nat.mod_eq_of_lt (Nat.lt_trans hlt (by decide))
  · rw [String.utf8EncodeChar_eq_cons_cons h]
    exact Encoded.two _ _ (by omega) (le_lead _ _ _ (by decide))
      (leads_low _) h
  · rw [String.utf8EncodeChar_eq_cons_cons_cons h]
    exact Encoded.more _ _ _ _ (by omega) (le_lead _ _ _ (by decide))
      (leads_low _) (leads_low _) (by omega)
  · rw [String.utf8EncodeChar_eq_cons_cons_cons_cons h]
    exact Encoded.more _ _ _ _ (by omega) (le_lead _ _ _ (by decide))
      (leads_low _) (leads_low _) (by omega)

-- ============= pairs

theorem toDigit16_lt {b : UInt8} {d : Nat} (h : toDigit16 b = some d) :
    d < 16 := by
  simp only [toDigit16, UInt8.le_iff_toNat_le] at h
  simp at h
  grind

theorem toDigit16_high {b : UInt8} (h : 0xC0 ≤ b) : toDigit16 b = none := by
  simp only [toDigit16, UInt8.le_iff_toNat_le] at h ⊢
  simp at h ⊢
  grind

/-- On one byte the parser's digits are the hex digits. -/
theorem isSome_toDigit16_iff {b : UInt8} {c : Char} (h : b.toNat = c.toNat) :
    (toDigit16 b).isSome = isAsciiHexdigit c := by
  simp only [toDigit16, isAsciiHexdigit, UInt8.le_iff_toNat_le, h,
    Char.le_def, UInt32.le_iff_toNat_le]
  simp
  grind

theorem plus_toDigit16 : toDigit16 0x2B = none := by decide

/-- The parser on a pair: a leading `+` is dropped. -/
theorem fromStrRadix16_pair (a b : UInt8) :
    fromStrRadix16 [a, b]
      = if a = 0x2B then ([b].foldlM pushDigit 0).map UInt8.ofNat
        else ([a, b].foldlM pushDigit 0).map UInt8.ofNat := by
  by_cases ha : a = 0x2B
  · simp [fromStrRadix16, ha]
  · simp [fromStrRadix16, ha]

theorem pushDigit_ok {m d : Nat} {b : UInt8} (hb : toDigit16 b = some d)
    (hm : m < 16) : pushDigit m b = .ok (m * 16 + d) := by
  have hd := toDigit16_lt hb
  simp only [pushDigit, hb]
  rw [if_pos (by omega)]

theorem pushDigit_none {m : Nat} {b : UInt8} (hb : toDigit16 b = none) :
    pushDigit m b = .error .invalidDigit := by
  simp only [pushDigit, hb]

/-- Two digits are the byte they spell. -/
theorem fromStrRadix16_digits {a b : UInt8} {m n : Nat}
    (ha : toDigit16 a = some m) (hb : toDigit16 b = some n) :
    fromStrRadix16 [a, b] = .ok (UInt8.ofNat (m * 16 + n)) := by
  have hplus : a ≠ 0x2B := by
    rintro rfl
    rw [plus_toDigit16] at ha
    cases ha
  have hfirst : pushDigit 0 a = .ok m := by
    rw [pushDigit_ok ha (by decide)]
    simp
  rw [fromStrRadix16_pair, if_neg hplus]
  simp only [List.foldlM_cons, List.foldlM_nil, hfirst]
  change ((pushDigit m b).bind pure).map UInt8.ofNat = _
  rw [pushDigit_ok hb (toDigit16_lt ha)]
  rfl

/-- The pairs `from_str_radix` takes. -/
def takenBytes (a b : UInt8) : Bool :=
  ((toDigit16 a).isSome || a == 0x2B) && (toDigit16 b).isSome

theorem fromStrRadix16_taken {a b : UInt8} (h : takenBytes a b = true) :
    ∃ v, fromStrRadix16 [a, b] = .ok v := by
  simp only [takenBytes, Bool.and_eq_true, Bool.or_eq_true, beq_iff_eq,
    Option.isSome_iff_exists] at h
  obtain ⟨⟨m, ha⟩ | rfl, n, hb⟩ := h
  · exact ⟨_, fromStrRadix16_digits ha hb⟩
  · rw [fromStrRadix16_pair, if_pos rfl]
    simp only [List.foldlM_cons, List.foldlM_nil,
      pushDigit_ok hb (by decide : 0 < 16)]
    exact ⟨_, rfl⟩

theorem fromStrRadix16_not_taken {a b : UInt8}
    (h : takenBytes a b = false) :
    fromStrRadix16 [a, b] = .error .invalidDigit := by
  rw [fromStrRadix16_pair]
  by_cases hplus : a = 0x2B
  · have hb : toDigit16 b = none := by simpa [takenBytes, hplus] using h
    rw [if_pos hplus]
    simp only [List.foldlM_cons, pushDigit_none hb]
    rfl
  · rw [if_neg hplus]
    cases ha : toDigit16 a with
    | none =>
        simp only [List.foldlM_cons, pushDigit_none ha]
        rfl
    | some m =>
        have hb : toDigit16 b = none := by simpa [takenBytes, ha] using h
        have hfirst : pushDigit 0 a = .ok m := by
          rw [pushDigit_ok ha (by decide)]
          simp
        simp only [List.foldlM_cons, hfirst]
        change ((pushDigit m b).bind pure).map UInt8.ofNat = _
        rw [pushDigit_none hb]
        rfl

-- ==== one pair at a time

/-- Nothing is left, or a character starts here. -/
def atBoundary (data : List UInt8) : Bool := data.head?.elim true leads

/-- The parser's error, as the decoder passes it on. -/
def digitError (e : IntErrorKind) : Halt String :=
  .error ("Hex decode error: " ++ e.display)

/-- The decoder as a recursion over the bytes that are left. -/
def readPairs : List UInt8 → Except (Halt String) (List UInt8)
  | a :: b :: rest =>
      if atBoundary rest then do
        let v ← (fromStrRadix16 [a, b]).mapError digitError
        let vs ← readPairs rest
        return v :: vs
      else .error .panic
  | _ => .ok []

theorem isCharBoundary_append (before rest : List UInt8)
    (h : before = [] → atBoundary rest = true) :
    isCharBoundary (before ++ rest) before.length = atBoundary rest := by
  cases before with
  | nil => simp [isCharBoundary, h rfl]
  | cons a before =>
      cases rest with
      | nil => simp [isCharBoundary, atBoundary]
      | cons b rest => simp [isCharBoundary, atBoundary, leads]

/-- At a boundary, the pair is taken when the next one is a boundary
too. -/
theorem hexByte_append (before rest : List UInt8) (a b : UInt8)
    (h : isCharBoundary (before ++ a :: b :: rest) before.length = true) :
    hexByte (before ++ a :: b :: rest) before.length
      = if atBoundary rest then
          (fromStrRadix16 [a, b]).mapError digitError
        else .error .panic := by
  have hnext : isCharBoundary (before ++ a :: b :: rest)
      (before.length + 2) = atBoundary rest := by
    have hsplit := isCharBoundary_append (before ++ [a, b]) rest
      (by simp)
    simpa using hsplit
  have hpair : slice (before ++ a :: b :: rest) before.length 2
      = [a, b] := by
    simp [slice]
  have hsub : before.length + 2 - before.length = 2 := by omega
  have hle : before.length ≤ before.length + 2 := by omega
  simp only [hexByte, sliceStr, h, hnext, hle, true_and, hsub, hpair]
  cases atBoundary rest with
  | true => rfl
  | false => rfl

theorem length_half (a b : UInt8) (rest : List UInt8) :
    (a :: b :: rest).length / 2 = rest.length / 2 + 1 := by
  simp only [List.length_cons]
  omega

/-- The offsets in order are the pairs in order. -/
theorem mapM_hexByte (before rest : List UInt8)
    (heven : rest.length % 2 = 0)
    (h : isCharBoundary (before ++ rest) before.length = true) :
    (List.range' before.length (rest.length / 2) 2).mapM
        (hexByte (before ++ rest))
      = readPairs rest := by
  induction rest using readPairs.induct generalizing before with
  | case1 a b rest hrest ih =>
      have hnext := ih (before ++ [a, b])
        (by simp only [List.length_cons] at heven; omega)
        (by rw [isCharBoundary_append _ _ (by simp), hrest])
      simp only [List.append_assoc, List.cons_append, List.nil_append,
        List.length_append, List.length_cons, List.length_nil] at hnext
      rw [length_half, List.range'_succ, List.mapM_cons,
        hexByte_append before rest a b h, readPairs, if_pos hrest,
        if_pos hrest, hnext]
  | case2 a b rest hrest =>
      rw [length_half, List.range'_succ, List.mapM_cons,
        hexByte_append before rest a b h, readPairs, if_neg hrest,
        if_neg hrest]
      rfl
  | case3 rest hrest =>
      cases rest with
      | nil => rfl
      | cons a rest =>
          cases rest with
          | nil => simp at heven
          | cons b rest => exact absurd rfl (hrest a b rest)

theorem hexDecode_even {s : String} (h : (asBytes s).length % 2 = 0) :
    hexDecode s = readPairs (asBytes s) := by
  have hmap := mapM_hexByte [] (asBytes s) h (by
    rw [List.nil_append, List.length_nil]
    rfl)
  simp only [hexDecode, h]
  exact hmap

-- ==== one character at a time

/-- Two characters the parser takes for a byte. -/
def takenPair (x y : Char) : Bool :=
  (isAsciiHexdigit x || x == '+') && isAsciiHexdigit y

/-- Pairs the parser takes, to the end. -/
def takenPairs : List Char → Bool
  | [] => true
  | [_] => false
  | x :: y :: rest => takenPair x y && takenPairs rest

/-- Behind pairs the parser takes, two bytes end inside a character. -/
def cutsChar : List Char → Bool
  | [] => false
  | [x] => 3 ≤ x.utf8Size
  | x :: y :: rest =>
      if takenPair x y then cutsChar rest
      else 3 ≤ x.utf8Size || (x.utf8Size == 1 && 2 ≤ y.utf8Size)

/-- The bytes of a row of characters. -/
def charBytes (cs : List Char) : List UInt8 :=
  cs.flatMap String.utf8EncodeChar

theorem asBytes_eq (s : String) : asBytes s = charBytes s.toList := by
  have hbytes := String.toByteArray_ofList (l := s.toList)
  rw [String.ofList_toList] at hbytes
  simp only [asBytes, charBytes, String.toUTF8_eq_toByteArray, hbytes,
    List.utf8Encode, List.toList_data_toByteArray]

theorem utf8Size_eq_one {c : Char} : c.utf8Size = 1 ↔ c.toNat < 0x80 := by
  rw [Char.utf8Size_eq_one_iff, UInt32.le_iff_toNat_le]
  exact Nat.lt_succ_iff.symm

theorem isAsciiHexdigit_lt {c : Char} (h : isAsciiHexdigit c = true) :
    c.toNat < 0x80 := by
  simp only [isAsciiHexdigit, Char.le_def, UInt32.le_iff_toNat_le] at h
  simp at h
  omega

theorem takenPair_lt {x y : Char} (h : takenPair x y = true) :
    x.toNat < 0x80 ∧ y.toNat < 0x80 := by
  simp only [takenPair, Bool.and_eq_true, Bool.or_eq_true,
    beq_iff_eq] at h
  obtain ⟨hx | rfl, hy⟩ := h
  · exact ⟨isAsciiHexdigit_lt hx, isAsciiHexdigit_lt hy⟩
  · exact ⟨by decide, isAsciiHexdigit_lt hy⟩

/-- On characters of one byte each, taken is taken. -/
theorem takenBytes_eq {a b : UInt8} {x y : Char} (ha : a.toNat = x.toNat)
    (hb : b.toNat = y.toNat) : takenBytes a b = takenPair x y := by
  have hplus : (a == 0x2B) = (x == '+') := by
    rw [Bool.eq_iff_iff, beq_iff_eq, beq_iff_eq, ← UInt8.toNat_inj, ha]
    exact ⟨fun h => Char.toNat_inj.1 h, fun h => by rw [h]; rfl⟩
  rw [takenBytes, takenPair, isSome_toDigit16_iff ha,
    isSome_toDigit16_iff hb, hplus]

/-- A character starts with a byte one can start at. -/
theorem atBoundary_charBytes (cs : List Char) :
    atBoundary (charBytes cs) = true := by
  cases cs with
  | nil => rfl
  | cons c cs =>
      have henc := encoded c
      simp only [charBytes, List.flatMap_cons]
      cases henc' : String.utf8EncodeChar c with
      | nil => exact absurd henc' String.utf8EncodeChar_ne_nil
      | cons b bs =>
          rw [henc'] at henc
          simp only [atBoundary, List.cons_append, List.head?_cons,
            Option.elim_some, leads, Bool.or_eq_true, decide_eq_true_eq]
          cases henc with
          | one _ hb hlt =>
              left
              rw [UInt8.lt_iff_toNat_lt, hb]
              exact hlt
          | two _ _ _ ha => exact Or.inr ha
          | more _ _ _ _ _ ha => exact Or.inr ha

/-- What the decoder answers, pair by pair. -/
theorem readPairs_taken {a b : UInt8} {rest : List UInt8}
    (hrest : atBoundary rest = true) (h : takenBytes a b = true) :
    ∃ v, readPairs (a :: b :: rest)
      = (readPairs rest).map fun vs => v :: vs := by
  obtain ⟨v, hv⟩ := fromStrRadix16_taken h
  refine ⟨v, ?_⟩
  rw [readPairs, if_pos hrest, hv]
  cases readPairs rest <;> rfl

theorem readPairs_refused {a b : UInt8} {rest : List UInt8}
    (hrest : atBoundary rest = true) (h : takenBytes a b = false) :
    readPairs (a :: b :: rest)
      = .error (digitError .invalidDigit) := by
  rw [readPairs, if_pos hrest, fromStrRadix16_not_taken h]
  rfl

theorem readPairs_cut {a b : UInt8} {rest : List UInt8}
    (hrest : atBoundary rest = false) :
    readPairs (a :: b :: rest) = .error .panic := by
  rw [readPairs, hrest]
  rfl

theorem takenBytes_high {a b : UInt8} (h : 0xC0 ≤ a) :
    takenBytes a b = false := by
  have hplus : (a == 0x2B) = false := by
    rw [beq_eq_false_iff_ne]
    rintro rfl
    exact absurd h (by decide)
  simp [takenBytes, toDigit16_high h, hplus]

/-- What the decoder answers, as far as it matters here. -/
structure Answers (bytes : List UInt8) (panics takes : Bool) : Prop where
  panic : readPairs bytes = .error .panic ↔ panics = true
  ok : (∃ d, readPairs bytes = .ok d) ↔ takes = true

theorem Answers.refused {bytes : List UInt8}
    (h : readPairs bytes = .error (digitError .invalidDigit)) :
    Answers bytes false false := by
  constructor <;> simp [h, digitError]

theorem Answers.cut {bytes : List UInt8}
    (h : readPairs bytes = .error .panic) : Answers bytes true false := by
  constructor <;> simp [h]

theorem Answers.pair {bytes rest : List UInt8} {v : UInt8}
    {panics takes : Bool} (hrest : Answers rest panics takes)
    (h : readPairs bytes = (readPairs rest).map fun vs => v :: vs) :
    Answers bytes panics takes := by
  constructor
  · rw [h, ← hrest.panic]
    cases readPairs rest <;> simp [Except.map]
  · rw [h, ← hrest.ok]
    cases readPairs rest <;> simp [Except.map]

theorem not_takenPair_of_wide {x y : Char}
    (h : 0x80 ≤ x.toNat ∨ 0x80 ≤ y.toNat) : takenPair x y = false := by
  rw [Bool.eq_false_iff]
  intro htaken
  obtain ⟨hx, hy⟩ := takenPair_lt htaken
  omega

theorem charBytes_cons (c : Char) (cs : List Char) :
    charBytes (c :: cs) = String.utf8EncodeChar c ++ charBytes cs :=
  List.flatMap_cons

/-- A first character of two bytes is a pair no digit is in. -/
theorem answers_two {x : Char} {a b : UInt8} {rest : List UInt8}
    (ha : 0xC0 ≤ a) (hrest : atBoundary rest = true) (y : Char)
    (cs : List Char) (hx : 0x80 ≤ x.toNat) (hsize : x.utf8Size = 2) :
    Answers (a :: b :: rest) (cutsChar (x :: y :: cs))
      (takenPairs (x :: y :: cs)) := by
  simp only [cutsChar, takenPairs, hsize,
    not_takenPair_of_wide (y := y) (Or.inl hx)]
  exact Answers.refused (readPairs_refused hrest (takenBytes_high ha))

/-- A first character of more is cut. -/
theorem answers_more {x : Char} {a b d : UInt8} {rest : List UInt8}
    (hd : leads d = false) (y : Char) (cs : List Char)
    (hx : 0x80 ≤ x.toNat) (hsize : 3 ≤ x.utf8Size) :
    Answers (a :: b :: d :: rest) (cutsChar (x :: y :: cs))
      (takenPairs (x :: y :: cs)) := by
  simp only [cutsChar, takenPairs, hsize,
    not_takenPair_of_wide (y := y) (Or.inl hx)]
  exact Answers.cut (readPairs_cut hd)

/-- Behind a first character of one byte, the second one decides. -/
theorem answers_one {x y : Char} {b : UInt8} {cs : List Char}
    (hb : b.toNat = x.toNat) (hx : x.toNat < 0x80)
    (ih : (charBytes cs).length % 2 = 0 →
      Answers (charBytes cs) (cutsChar cs) (takenPairs cs))
    (heven : (b :: charBytes (y :: cs)).length % 2 = 0) :
    Answers (b :: charBytes (y :: cs)) (cutsChar (x :: y :: cs))
      (takenPairs (x :: y :: cs)) := by
  have hxsize := utf8Size_eq_one.2 hx
  have henc := encoded y
  rw [charBytes_cons] at heven ⊢
  generalize String.utf8EncodeChar y = bytes at henc heven ⊢
  cases henc with
  | one b' hb' hy =>
      have hysize := utf8Size_eq_one.2 hy
      have heven' : (charBytes cs).length % 2 = 0 := by
        simp only [List.length_cons, List.cons_append,
          List.nil_append] at heven
        omega
      have hpair := takenBytes_eq hb hb'
      cases htaken : takenPair x y with
      | true =>
          rw [htaken] at hpair
          obtain ⟨v, hv⟩ :=
            readPairs_taken (atBoundary_charBytes cs) hpair
          simp only [cutsChar, takenPairs, htaken, if_true, Bool.true_and]
          exact (ih heven').pair hv
      | false =>
          rw [htaken] at hpair
          simp only [cutsChar, takenPairs, htaken, hxsize, hysize]
          exact Answers.refused
            (readPairs_refused (atBoundary_charBytes cs) hpair)
  | two a b' hy _ hb' hysize =>
      simp only [cutsChar, takenPairs, hxsize, hysize,
        not_takenPair_of_wide (x := x) (Or.inr hy)]
      exact Answers.cut (readPairs_cut hb')
  | more a b' d rest hy _ hb' _ hysize =>
      have hwide : 2 ≤ y.utf8Size := by omega
      simp only [cutsChar, takenPairs, hxsize, hwide,
        not_takenPair_of_wide (x := x) (Or.inr hy)]
      exact Answers.cut (readPairs_cut hb')

/-- The decoder on the bytes of characters, by the characters. -/
theorem answers_charBytes (cs : List Char)
    (heven : (charBytes cs).length % 2 = 0) :
    Answers (charBytes cs) (cutsChar cs) (takenPairs cs) := by
  induction cs using takenPairs.induct with
  | case1 =>
      constructor
      · simp [charBytes, readPairs, cutsChar]
      · simp [charBytes, readPairs, takenPairs]
  | case2 x =>
      have henc := encoded x
      rw [charBytes_cons] at heven ⊢
      generalize String.utf8EncodeChar x = bytes at henc heven ⊢
      cases henc with
      | one _ _ _ => simp [charBytes] at heven
      | two _ _ _ ha _ hsize =>
          simp only [cutsChar, takenPairs, hsize]
          exact Answers.refused
            (readPairs_refused rfl (takenBytes_high ha))
      | more _ _ _ _ _ _ _ hd hsize =>
          simp only [cutsChar, takenPairs, hsize, decide_true]
          exact Answers.cut (readPairs_cut hd)
  | case3 x y rest ih =>
      have henc := encoded x
      rw [charBytes_cons] at heven ⊢
      generalize String.utf8EncodeChar x = bytes at henc heven ⊢
      cases henc with
      | one _ hb hlt => exact answers_one hb hlt ih heven
      | two _ _ hx ha _ hsize =>
          exact answers_two ha (atBoundary_charBytes (y :: rest)) y rest hx
            hsize
      | more _ _ _ _ hx _ _ hd hsize =>
          exact answers_more hd y rest hx hsize

-- ====== what is read

/-- An even number of bytes, and hex digits only. -/
def HexText (s : String) : Prop :=
  (asBytes s).length % 2 = 0 ∧ ∀ c ∈ s.toList, isAsciiHexdigit c = true

/-- Read otherwise than as hex digits: a pair ends inside a character, or
every pair is taken and one of them starts with a `+`. -/
def Misread (s : String) : Prop :=
  (asBytes s).length % 2 = 0
    ∧ (cutsChar s.toList = true
      ∨ takenPairs s.toList = true ∧ '+' ∈ s.toList)

/-- The decoder and the key parser on one string, as they are meant. -/
structure HexExact (s : String) : Prop where
  noPanic : hexDecode s ≠ .error .panic
  decodes : (∃ d, hexDecode s = .ok d) ↔ HexText s
  parses : (∃ key, parseContentKey (some s) = .ok key)
    ↔ s.toList.length = 64 ∧ ∀ c ∈ s.toList, isAsciiHexdigit c = true

theorem hexDecode_odd {s : String} (h : (asBytes s).length % 2 ≠ 0) :
    hexDecode s = .error (.error "Hex decode error: odd length") := by
  simp only [hexDecode]
  rw [if_pos h]

theorem hexDecode_answers {s : String} (h : (asBytes s).length % 2 = 0) :
    (hexDecode s = .error .panic ↔ cutsChar s.toList = true)
      ∧ ((∃ d, hexDecode s = .ok d) ↔ takenPairs s.toList = true) := by
  rw [hexDecode_even h, asBytes_eq]
  rw [asBytes_eq] at h
  have hanswers := answers_charBytes s.toList h
  exact ⟨hanswers.panic, hanswers.ok⟩

theorem length_readPairs {bytes d : List UInt8}
    (h : readPairs bytes = .ok d) : d.length = bytes.length / 2 := by
  induction bytes using readPairs.induct generalizing d with
  | case1 a b rest hrest ih =>
      rw [readPairs, if_pos hrest] at h
      cases hv : (fromStrRadix16 [a, b]).mapError digitError with
      | error e =>
          rw [hv] at h
          cases h
      | ok v =>
          cases hvs : readPairs rest with
          | error e =>
              rw [hv, hvs] at h
              cases h
          | ok vs =>
              rw [hv, hvs] at h
              cases h
              rw [length_half, List.length_cons, ih hvs]
  | case2 a b rest hrest =>
      rw [readPairs, if_neg hrest] at h
      cases h
  | case3 rest hrest =>
      cases rest with
      | nil =>
          cases h
          rfl
      | cons a rest =>
          cases rest with
          | nil =>
              cases h
              simp
          | cons b rest => exact absurd rfl (hrest a b rest)

theorem length_hexDecode {s : String} {d : List UInt8}
    (h : hexDecode s = .ok d) : d.length = (asBytes s).length / 2 := by
  by_cases heven : (asBytes s).length % 2 = 0
  · rw [hexDecode_even heven] at h
    exact length_readPairs h
  · rw [hexDecode_odd heven] at h
    cases h

theorem plus_not_hex : isAsciiHexdigit '+' = false := by decide

/-- Of the pairs the parser takes, those without a `+` are digits. -/
theorem takenPairs_hex {cs : List Char} (h : takenPairs cs = true) :
    '+' ∉ cs ↔ ∀ c ∈ cs, isAsciiHexdigit c = true := by
  constructor
  · intro hplus
    induction cs using takenPairs.induct with
    | case1 => simp
    | case2 x => cases h
    | case3 x y rest ih =>
        simp only [takenPairs, takenPair, Bool.and_eq_true, Bool.or_eq_true,
          beq_iff_eq] at h
        simp only [List.mem_cons, not_or] at hplus
        have hx := h.1.1.resolve_right fun heq => hplus.1 heq.symm
        intro c hc
        rcases List.mem_cons.1 hc with rfl | hc
        · exact hx
        · rcases List.mem_cons.1 hc with rfl | hc
          · exact h.1.2
          · exact ih h.2 hplus.2.2 c hc
  · intro hall hmem
    have := hall '+' hmem
    rw [plus_not_hex] at this
    cases this

theorem length_charBytes_hex {cs : List Char}
    (h : ∀ c ∈ cs, isAsciiHexdigit c = true) :
    (charBytes cs).length = cs.length := by
  induction cs with
  | nil => rfl
  | cons c cs ih =>
      have hc := isAsciiHexdigit_lt (h c List.mem_cons_self)
      have hrest := ih fun x hx => h x (List.mem_cons_of_mem _ hx)
      rw [charBytes_cons, List.length_append, String.length_utf8EncodeChar,
        utf8Size_eq_one.2 hc, hrest, List.length_cons, Nat.add_comm]

theorem takenPairs_of_hex {cs : List Char} (heven : cs.length % 2 = 0)
    (h : ∀ c ∈ cs, isAsciiHexdigit c = true) : takenPairs cs = true := by
  induction cs using takenPairs.induct with
  | case1 => rfl
  | case2 x => simp at heven
  | case3 x y rest ih =>
      have hx := h x List.mem_cons_self
      have hy := h y (List.mem_cons_of_mem _ List.mem_cons_self)
      simp only [List.length_cons] at heven
      have hrest := ih (by omega) fun c hc =>
        h c (List.mem_cons_of_mem _ (List.mem_cons_of_mem _ hc))
      simp only [takenPairs, takenPair, hx, hy, hrest, Bool.true_or,
        Bool.and_true]

/-- Hex text, as the decoder sees it. -/
theorem hexText_iff {s : String} (heven : (asBytes s).length % 2 = 0) :
    HexText s ↔ takenPairs s.toList = true ∧ '+' ∉ s.toList := by
  constructor
  · rintro ⟨_, hall⟩
    rw [asBytes_eq, length_charBytes_hex hall] at heven
    have htaken := takenPairs_of_hex heven hall
    exact ⟨htaken, (takenPairs_hex htaken).2 hall⟩
  · rintro ⟨htaken, hplus⟩
    exact ⟨heven, (takenPairs_hex htaken).1 hplus⟩

/-- A key is what decodes to 32 bytes. -/
theorem parseContentKey_ok_iff (s : String) :
    (∃ key, parseContentKey (some s) = .ok key)
      ↔ ∃ d, hexDecode s = .ok d ∧ d.length = 32 := by
  cases hdecode : hexDecode s with
  | error e =>
      simp [parseContentKey, hdecode, bind, Except.bind, Except.mapError]
  | ok d =>
      by_cases hlen : d.length = 32
      · simp [parseContentKey, hdecode, bind, Except.bind, Except.mapError,
          hlen]
      · simp [parseContentKey, hdecode, bind, Except.bind, Except.mapError,
          hlen]

/-- Where the decoder takes hex text and no more, the key parser takes
the 64-digit strings and no more. -/
theorem parses_of_decodes {s : String}
    (h : (∃ d, hexDecode s = .ok d) ↔ HexText s) :
    (∃ key, parseContentKey (some s) = .ok key)
      ↔ s.toList.length = 64
        ∧ ∀ c ∈ s.toList, isAsciiHexdigit c = true := by
  rw [parseContentKey_ok_iff]
  constructor
  · rintro ⟨d, hd, hlen⟩
    obtain ⟨heven, hall⟩ := h.1 ⟨d, hd⟩
    have hhalf := length_hexDecode hd
    rw [asBytes_eq, length_charBytes_hex hall] at hhalf heven
    exact ⟨by omega, hall⟩
  · rintro ⟨hlen, hall⟩
    have hbytes : (asBytes s).length = 64 := by
      rw [asBytes_eq, length_charBytes_hex hall, hlen]
    obtain ⟨d, hd⟩ := h.2 ⟨by omega, hall⟩
    exact ⟨d, hd, by rw [length_hexDecode hd, hbytes]⟩

theorem hexExact_iff (s : String) : HexExact s ↔ ¬Misread s := by
  by_cases heven : (asBytes s).length % 2 = 0
  · obtain ⟨hpanic, hok⟩ := hexDecode_answers heven
    constructor
    · rintro ⟨hno, hdecodes, -⟩ ⟨-, hcut | ⟨htaken, hplus⟩⟩
      · exact hno (hpanic.2 hcut)
      · exact ((hexText_iff heven).1 (hdecodes.1 (hok.2 htaken))).2 hplus
    · intro hread
      have hdecodes : (∃ d, hexDecode s = .ok d) ↔ HexText s := by
        rw [hok, hexText_iff heven]
        refine ⟨fun htaken => ⟨htaken, fun hplus => ?_⟩, And.left⟩
        exact hread ⟨heven, Or.inr ⟨htaken, hplus⟩⟩
      refine ⟨fun h => ?_, hdecodes, parses_of_decodes hdecodes⟩
      exact hread ⟨heven, Or.inl (hpanic.1 h)⟩
  · have hdecodes : (∃ d, hexDecode s = .ok d) ↔ HexText s := by
      rw [hexDecode_odd heven]
      constructor
      · rintro ⟨d, hd⟩
        cases hd
      · rintro ⟨h, -⟩
        exact absurd h heven
    refine ⟨fun _ h => heven h.1, fun _ => ?_⟩
    refine ⟨?_, hdecodes, parses_of_decodes hdecodes⟩
    rw [hexDecode_odd heven]
    intro h
    cases h

-- ======== round trip

/-- The byte of a digit. -/
def digitByte (n : Nat) : UInt8 := UInt8.ofNat (hexDigitOf n).toNat

theorem digit_facts : ∀ n : Fin 16,
    String.utf8EncodeChar (hexDigitOf n) = [digitByte n]
      ∧ toDigit16 (digitByte n) = some n.val
      ∧ leads (digitByte n) = true := by
  decide +kernel

theorem charBytes_hexPair (b : UInt8) :
    charBytes (hexPair b)
      = [digitByte (b.toNat / 16), digitByte (b.toNat % 16)] := by
  have hlt := b.toNat_lt
  have hhigh := (digit_facts ⟨b.toNat / 16, by omega⟩).1
  have hlow := (digit_facts ⟨b.toNat % 16, by omega⟩).1
  simp only [charBytes, hexPair, List.flatMap_cons, List.flatMap_nil,
    hhigh, hlow, List.cons_append, List.nil_append]

theorem asBytes_hexEncode (data : List UInt8) :
    asBytes (hexEncode data)
      = data.flatMap fun b =>
          [digitByte (b.toNat / 16), digitByte (b.toNat % 16)] := by
  rw [asBytes_eq, hexEncode, String.toList_ofList]
  induction data with
  | nil => rfl
  | cons b data ih =>
      rw [List.flatMap_cons, List.flatMap_cons, ← ih, ← charBytes_hexPair]
      exact List.flatMap_append

theorem readPairs_digits (data : List UInt8) :
    readPairs (data.flatMap fun b =>
      [digitByte (b.toNat / 16), digitByte (b.toNat % 16)])
      = .ok data := by
  induction data with
  | nil => rfl
  | cons b data ih =>
      have hlt := b.toNat_lt
      have hhigh := (digit_facts ⟨b.toNat / 16, by omega⟩).2.1
      have hlow := (digit_facts ⟨b.toNat % 16, by omega⟩).2.1
      have hbyte : UInt8.ofNat (b.toNat / 16 * 16 + b.toNat % 16) = b := by
        rw [Nat.div_add_mod']
        exact UInt8.ofNat_toNat
      have hrest : atBoundary (data.flatMap fun b =>
          [digitByte (b.toNat / 16), digitByte (b.toNat % 16)]) = true := by
        cases data with
        | nil => rfl
        | cons c data =>
            have hc := c.toNat_lt
            exact (digit_facts ⟨c.toNat / 16, by omega⟩).2.2
      rw [List.flatMap_cons, List.cons_append, List.cons_append,
        List.nil_append, readPairs, if_pos hrest, ih,
        fromStrRadix16_digits hhigh hlow, hbyte]
      rfl

theorem hexDecode_hexEncode (data : List UInt8) :
    hexDecode (hexEncode data) = .ok data := by
  have heven : (asBytes (hexEncode data)).length % 2 = 0 := by
    rw [asBytes_hexEncode]
    induction data with
    | nil => rfl
    | cons b data ih =>
        rw [List.flatMap_cons, List.length_append]
        simp only [List.length_cons, List.length_nil]
        omega
  rw [hexDecode_even heven, asBytes_hexEncode, readPairs_digits]

-- ========= the whole

/-- What is encoded decodes; and any other string is read as hex, without
a panic, unless it is one of the misread ones. -/
theorem hex_parsing_iff (s : String) (data : List UInt8) :
    hexDecode (hexEncode data) = .ok data ∧ (HexExact s ↔ ¬Misread s) :=
  ⟨hexDecode_hexEncode data, hexExact_iff s⟩

/-- A character behind one digit panics, and `+f` is a byte. -/
theorem hex_parsing_misreads :
    (¬∀ s, hexDecode s ≠ .error .panic)
      ∧ ¬∀ s, (∃ d, hexDecode s = .ok d) ↔ HexText s := by
  have hcut : (asBytes "a中").length % 2 = 0 := by decide
  have hplus : (asBytes "+f").length % 2 = 0 := by decide
  refine ⟨fun h => h "a中" ((hexDecode_answers hcut).1.2 (by decide)), ?_⟩
  intro h
  have hok := (hexDecode_answers hplus).2.2 (by decide)
  exact ((hexText_iff hplus).1 ((h "+f").1 hok)).2 (by decide)

end StaticNet.Api
