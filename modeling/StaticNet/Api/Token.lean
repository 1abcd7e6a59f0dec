/-
The bearer token of the local API and the comparison behind it.

# One accumulator

`constant_time_eq` walks up to the longer of two byte strings, reads zero
where one of them has ended, and folds every difference into one byte,
the difference of the lengths with it. The lengths enter by their low
byte only, so two strings that differ in nothing but trailing zeros, a
multiple of 256 of them, compare equal (`constantTimeEq_iff`).
-/
import Mathlib.Data.List.GetD
import StaticNet.Compute.Messages

namespace StaticNet.Api

/-- `constant_time_eq`. -/
def constantTimeEq (a b : List UInt8) : Bool :=
  let maxLen := max a.length b.length
  let diff := UInt8.ofNat (a.length ^^^ b.length)
  (List.range maxLen).foldl
    (fun diff i => diff ||| (a.getD i 0 ^^^ b.getD i 0)) diff == 0

/-- `verify_token`. -/
def verifyToken (requestToken expectedToken : Option String) : Bool :=
  expectedToken.elim true fun expected =>
    requestToken.elim false fun got =>
      constantTimeEq (asBytes got) (asBytes expected)

-- ====== bits of zero

theorem or_eq_zero (a b : UInt8) : a ||| b = 0 ↔ a = 0 ∧ b = 0 := by
  simp [← UInt8.toBitVec_inj]

theorem xor_eq_zero (a b : UInt8) : a ^^^ b = 0 ↔ a = b := by
  simp [← UInt8.toBitVec_inj]

/-- The accumulator is zero where nothing that went into it was not. -/
theorem foldl_or_eq_zero (f : Nat → UInt8) (l : List Nat) (diff : UInt8) :
    l.foldl (fun diff i => diff ||| f i) diff = 0
      ↔ diff = 0 ∧ ∀ i ∈ l, f i = 0 := by
  induction l generalizing diff with
  | nil => simp
  | cons i l ih =>
      rw [List.foldl_cons, ih, or_eq_zero, List.forall_mem_cons, and_assoc]

/-- Two lengths with one low byte differ by a multiple of 256. -/
theorem ofNat_xor_eq_zero (m n : Nat) :
    UInt8.ofNat (m ^^^ n) = 0 ↔ m % 256 = n % 256 := by
  have hmod : (m ^^^ n) % 256 = m % 256 ^^^ n % 256 :=
    Nat.xor_mod_two_pow (n := 8)
  rw [← UInt8.toNat_inj, UInt8.toNat_ofNat', hmod]
  change m % 256 ^^^ n % 256 = 0 ↔ _
  constructor
  · intro h
    calc m % 256 = m % 256 ^^^ n % 256 ^^^ n % 256 := by
          rw [Nat.xor_assoc, Nat.xor_self, Nat.xor_zero]
      _ = n % 256 := by rw [h, Nat.zero_xor]
  · intro h
    rw [h, Nat.xor_self]

-- ======= the padding

/-- `b` is `a` with a multiple of 256 zero bytes behind it. -/
def ZeroTail (a b : List UInt8) : Prop :=
  ∃ k, b = a ++ List.replicate (256 * k) 0

theorem getD_eq_iff_zeros {a b : List UInt8} (h : a.length ≤ b.length) :
    (∀ i < b.length, a.getD i 0 = b.getD i 0)
      ↔ b = a ++ List.replicate (b.length - a.length) 0 := by
  constructor
  · intro heq
    apply List.ext_getElem
    · simp
      omega
    · intro i hi _
      have hget := heq i hi
      rw [List.getD_eq_getElem b 0 hi] at hget
      by_cases hia : i < a.length
      · rw [List.getElem_append_left hia, ← hget,
          List.getD_eq_getElem a 0 hia]
      · rw [List.getElem_append_right (by omega), List.getElem_replicate,
          ← hget, List.getD_eq_default a 0 (by omega)]
  · intro heq i _
    rw [heq]
    by_cases hia : i < a.length
    · rw [List.getD_append a _ 0 i hia]
    · rw [List.getD_append_right a _ 0 i (by omega),
        List.getD_eq_default a 0 (by omega), List.getD_eq_getElem?_getD,
        List.getElem?_getD_replicate_default_eq]

/-- The shorter string first. -/
theorem padded_iff {a b : List UInt8} (h : a.length ≤ b.length) :
    (a.length % 256 = b.length % 256
        ∧ ∀ i < b.length, a.getD i 0 = b.getD i 0)
      ↔ ZeroTail a b := by
  rw [getD_eq_iff_zeros h]
  constructor
  · rintro ⟨hmod, heq⟩
    refine ⟨(b.length - a.length) / 256, ?_⟩
    rw [Nat.mul_div_cancel' (by omega)]
    exact heq
  · rintro ⟨k, rfl⟩
    simp

theorem ZeroTail.length_le {a b : List UInt8} (h : ZeroTail a b) :
    a.length ≤ b.length := by
  obtain ⟨k, rfl⟩ := h
  simp

/-- A tail on the longer string is empty, so it is one on the other too. -/
theorem ZeroTail.swap {a b : List UInt8} (h : ZeroTail b a)
    (hle : a.length ≤ b.length) : ZeroTail a b := by
  obtain ⟨k, rfl⟩ := h
  simp only [List.length_append, List.length_replicate] at hle
  have hk : 256 * k = 0 := by omega
  exact ⟨0, by simp [hk]⟩

/-- What the comparison takes for equal. -/
theorem constantTimeEq_iff (a b : List UInt8) :
    constantTimeEq a b = true ↔ ZeroTail a b ∨ ZeroTail b a := by
  have hfold : constantTimeEq a b = true
      ↔ a.length % 256 = b.length % 256
        ∧ ∀ i < max a.length b.length, a.getD i 0 = b.getD i 0 := by
    simp only [constantTimeEq, beq_iff_eq]
    rw [foldl_or_eq_zero, ofNat_xor_eq_zero]
    simp only [List.mem_range, xor_eq_zero]
  rw [hfold]
  rcases Nat.le_total a.length b.length with h | h
  · rw [Nat.max_eq_right h, padded_iff h]
    exact ⟨Or.inl, fun hor => hor.elim id fun hba => hba.swap h⟩
  · rw [Nat.max_eq_left h]
    have hba : (a.length % 256 = b.length % 256
          ∧ ∀ i < a.length, a.getD i 0 = b.getD i 0)
        ↔ ZeroTail b a := by
      rw [← padded_iff h]
      constructor
      · rintro ⟨hmod, heq⟩
        exact ⟨hmod.symm, fun i hi => (heq i hi).symm⟩
      · rintro ⟨hmod, heq⟩
        exact ⟨hmod.symm, fun i hi => (heq i hi).symm⟩
    rw [hba]
    exact ⟨Or.inr, fun hor => hor.elim (fun hab => hab.swap h) id⟩

-- ========= on tokens

/-- `n` NUL characters. -/
def nuls (n : Nat) : String := String.ofList (List.replicate n '\x00')

theorem asBytes_append (s t : String) :
    asBytes (s ++ t) = asBytes s ++ asBytes t := by
  simp [asBytes]

theorem asBytes_injective {s t : String} (h : asBytes s = asBytes t) :
    s = t := by
  apply String.toByteArray_inj.1
  apply ByteArray.ext
  apply Array.toList_inj.1
  exact h

theorem asBytes_nuls (n : Nat) : asBytes (nuls n) = List.replicate n 0 := by
  have hchar : String.utf8EncodeChar '\x00' = [0] := by decide
  simp only [asBytes, nuls, String.toUTF8_eq_toByteArray,
    String.toByteArray_ofList, List.utf8Encode,
    List.toList_data_toByteArray]
  induction n with
  | zero => rfl
  | succ n ih =>
      rw [List.replicate_succ, List.flatMap_cons, ih, hchar]
      rfl

/-- `t` is `s` and then NULs, a multiple of 256 of them and not none. -/
def NulTail (s t : String) : Prop :=
  ∃ k, 0 < k ∧ t = s ++ nuls (256 * k)

theorem zeroTail_asBytes_iff (s t : String) :
    ZeroTail (asBytes s) (asBytes t) ↔ s = t ∨ NulTail s t := by
  have hbytes : ∀ k, asBytes t = asBytes s ++ List.replicate (256 * k) 0
      ↔ t = s ++ nuls (256 * k) := by
    intro k
    rw [← asBytes_nuls, ← asBytes_append]
    exact ⟨asBytes_injective, fun h => by rw [h]⟩
  simp only [ZeroTail, hbytes]
  constructor
  · rintro ⟨k, hk⟩
    rcases Nat.eq_zero_or_pos k with rfl | hpos
    · exact Or.inl (by simpa [nuls] using hk.symm)
    · exact Or.inr ⟨k, hpos, hk⟩
  · rintro (rfl | ⟨k, -, hk⟩)
    · exact ⟨0, by simp [nuls]⟩
    · exact ⟨k, hk⟩

theorem NulTail.ne {s t : String} (h : NulTail s t) : s ≠ t := by
  obtain ⟨k, hk, rfl⟩ := h
  intro heq
  have hlen : s.length = (s ++ nuls (256 * k)).length := by rw [← heq]
  simp [nuls] at hlen
  omega

/-- What `verify_token` accepts for an expected token. -/
theorem verifyToken_iff (got expected : String) :
    verifyToken (some got) (some expected) = true
      ↔ got = expected ∨ NulTail got expected ∨ NulTail expected got := by
  have hcompare := constantTimeEq_iff (asBytes got) (asBytes expected)
  rw [zeroTail_asBytes_iff, zeroTail_asBytes_iff, eq_comm (a := expected),
    ← or_or_distrib_left] at hcompare
  exact hcompare

/-- The check of the token is exact unless one of the two is the other
with a multiple of 256 NULs behind it. -/
theorem token_check_exact_iff (got expected : String) :
    (verifyToken (some got) (some expected) = true ↔ got = expected)
      ↔ ¬NulTail got expected ∧ ¬NulTail expected got := by
  rw [verifyToken_iff]
  constructor
  · intro hexact
    refine ⟨fun h => h.ne (hexact.1 (Or.inr (Or.inl h))), fun h => ?_⟩
    exact h.ne (hexact.1 (Or.inr (Or.inr h))).symm
  · rintro ⟨hgot, hexpected⟩
    simp only [hgot, hexpected, or_false]

/-- A token with 256 NULs behind it is let in. -/
theorem token_check_not_exact :
    ¬∀ got expected : String,
      verifyToken (some got) (some expected) = true ↔ got = expected := by
  intro hexact
  have htail : NulTail "secret" ("secret" ++ nuls (256 * 1)) :=
    ⟨1, Nat.one_pos, rfl⟩
  have hpass := (verifyToken_iff ("secret" ++ nuls (256 * 1)) "secret").2
    (Or.inr (Or.inr htail))
  exact htail.ne ((hexact _ _).1 hpass).symm

end StaticNet.Api
