/-
Two data and two parity shards: the systematic Vandermonde code the
Reed-Solomon crate uses, byte by byte in the field of 256 elements.

The parity bytes of `x` and `y` are `3x + 2y` and `2x + 3y`. Written with
the difference of the data bytes (`firstParity`, `secondParity`) they
make every pair of the four bytes solvable by halving, by dividing by
three or by nothing at all, so two shards determine the word
(`solvePair_eq`).
-/
import StaticNet.Content.Erasure

namespace StaticNet

-- ========= the field

/-- Doubling in the field of 256 elements. -/
def gfDouble (x : UInt8) : UInt8 :=
  (x <<< 1) ^^^ (if x < 128 then 0 else 29)

/-- The product of field elements, over `n` bits of the first. -/
def gfMul : Nat → UInt8 → UInt8 → UInt8
  | 0, _, _ => 0
  | n + 1, c, x =>
      (if c % 2 = 1 then x else 0) ^^^ gfMul n (c / 2) (gfDouble x)

/-- The inverses of 2 and of 3. -/
def gfHalve (x : UInt8) : UInt8 := gfMul 8 142 x

def gfThird (x : UInt8) : UInt8 := gfMul 8 244 x

theorem gfHalve_double (x : UInt8) : gfHalve (gfDouble x) = x := by
  have h : ∀ i : Fin 256, gfHalve (gfDouble (UInt8.ofFin i))
      = UInt8.ofFin i := by decide +kernel
  exact h x.toFin

theorem gfThird_triple (x : UInt8) : gfThird (x ^^^ gfDouble x) = x := by
  have h : ∀ i : Fin 256,
      gfThird (UInt8.ofFin i ^^^ gfDouble (UInt8.ofFin i))
        = UInt8.ofFin i := by decide +kernel
  exact h x.toFin

-- ========== the code

/-- The parity of two data bytes, with coefficients 3, 2 and 2, 3. -/
def firstParity (x y : UInt8) : UInt8 := x ^^^ gfDouble (x ^^^ y)

def secondParity (x y : UInt8) : UInt8 := y ^^^ gfDouble (x ^^^ y)

/-- Two data shards and their parity. -/
def pairWord (a b : List UInt8) : List (List UInt8) :=
  [a, b, List.zipWith firstParity a b, List.zipWith secondParity a b]

/-- Two data and two parity shards: the systematic Vandermonde code. -/
def pairCode : ErasureCode where
  encode k n shards :=
    match shards with
    | [a, b, c, d] =>
        if k = 2 ∧ n = 2 ∧ 0 < a.length ∧ a.length = b.length
            ∧ c.length = a.length ∧ d.length = a.length then
          .ok (pairWord a b)
        else .error "incorrect shard size"
    | _ => .error "wrong number of shards"

/-- The data shards, from two of the four shards. -/
def solvePair : List (Option (List UInt8)) →
    Option (List UInt8 × List UInt8)
  | [some a, some b, _, _] => some (a, b)
  | [some a, none, some p, _] =>
      some (a, List.zipWith (fun x p => x ^^^ gfHalve (x ^^^ p)) a p)
  | [some a, none, none, some q] =>
      some (a, List.zipWith (fun x q => x ^^^ gfThird (x ^^^ q)) a q)
  | [none, some b, some p, _] =>
      some (List.zipWith (fun y p => y ^^^ gfThird (y ^^^ p)) b p, b)
  | [none, some b, none, some q] =>
      some (List.zipWith (fun y q => y ^^^ gfHalve (y ^^^ q)) b q, b)
  | [none, none, some p, some q] =>
      some (List.zipWith (fun p q => p ^^^ gfDouble (p ^^^ q)) p q,
        List.zipWith (fun p q => q ^^^ gfDouble (p ^^^ q)) p q)
  | _ => none

/-- Combining two bytewise combinations combines byte by byte. -/
theorem zipWith_both (f f' g e : UInt8 → UInt8 → UInt8)
    (a b : List UInt8) (h : ∀ x y, g (f x y) (f' x y) = e x y) :
    List.zipWith g (List.zipWith f a b) (List.zipWith f' a b)
      = List.zipWith e a b := by
  induction a generalizing b with
  | nil => rfl
  | cons x a ih =>
      cases b with
      | nil => rfl
      | cons y b =>
          rw [List.zipWith_cons_cons, List.zipWith_cons_cons,
            List.zipWith_cons_cons, List.zipWith_cons_cons, h, ih]

theorem zipWith_fst {a b : List UInt8} (h : a.length = b.length) :
    List.zipWith (fun x _ => x) a b = a := by
  apply List.ext_getElem?
  intro i
  by_cases hi : i < a.length
  · have hi' : i < b.length := h ▸ hi
    simp [hi, hi']
  · have hi' : ¬ i < b.length := h ▸ hi
    simp [hi, hi']

theorem zipWith_snd {a b : List UInt8} (h : a.length = b.length) :
    List.zipWith (fun _ y => y) a b = b := by
  rw [List.zipWith_comm]
  exact zipWith_fst h.symm

theorem xor_cancel (x t : UInt8) : x ^^^ (x ^^^ t) = t := by
  rw [← UInt8.xor_assoc, UInt8.xor_self, UInt8.zero_xor]

theorem xor_cancel_right (x y : UInt8) : y ^^^ (x ^^^ y) = x := by
  rw [UInt8.xor_comm x y, xor_cancel]

/-- Each two bytes of the four give the difference of the data bytes. -/
theorem first_difference (x y : UInt8) :
    x ^^^ firstParity x y = gfDouble (x ^^^ y)
      ∧ y ^^^ firstParity x y = (x ^^^ y) ^^^ gfDouble (x ^^^ y) := by
  unfold firstParity
  rw [xor_cancel, ← UInt8.xor_assoc, UInt8.xor_comm y x]
  exact ⟨rfl, rfl⟩

theorem second_difference (x y : UInt8) :
    x ^^^ secondParity x y = (x ^^^ y) ^^^ gfDouble (x ^^^ y)
      ∧ y ^^^ secondParity x y = gfDouble (x ^^^ y) := by
  unfold secondParity
  rw [xor_cancel, ← UInt8.xor_assoc]
  exact ⟨rfl, rfl⟩

theorem parity_difference (x y : UInt8) :
    firstParity x y ^^^ secondParity x y = x ^^^ y := by
  unfold firstParity secondParity
  rw [UInt8.xor_comm y, UInt8.xor_assoc, xor_cancel]

-- =========== solving

theorem four_of_length {S : Type} {l : List S} (h : l.length = 4) :
    ∃ a b c d, l = [a, b, c, d] := by
  obtain ⟨a, l, rfl⟩ := List.exists_cons_of_length_eq_add_one h
  obtain ⟨b, c, d, rfl⟩ := List.length_eq_three.1 (Nat.succ.inj h)
  exact ⟨a, b, c, d, rfl⟩

/-- A byte of one data shard and one of a combination give the other
data byte. -/
theorem zipWith_solve_snd {f g : UInt8 → UInt8 → UInt8} {a b : List UInt8}
    (hlen : a.length = b.length) (h : ∀ x y, g x (f x y) = y) :
    List.zipWith g a (List.zipWith f a b) = b := by
  have hboth := zipWith_both (fun x _ => x) f g (fun _ y => y) a b h
  rw [zipWith_fst hlen, zipWith_snd hlen] at hboth
  exact hboth

theorem zipWith_solve_fst {f g : UInt8 → UInt8 → UInt8} {a b : List UInt8}
    (hlen : a.length = b.length) (h : ∀ x y, g y (f x y) = x) :
    List.zipWith g b (List.zipWith f a b) = a := by
  have hboth := zipWith_both (fun _ y => y) f g (fun x _ => x) a b h
  rw [zipWith_fst hlen, zipWith_snd hlen] at hboth
  exact hboth

/-- Two shards of a word are enough to solve for the data. -/
theorem solvePair_eq {a b : List UInt8} (hlen : a.length = b.length)
    {received : List (Option (List UInt8))} (hk : 2 ≤ known received)
    (h : Agrees received (pairWord a b)) :
    solvePair received = some (a, b) := by
  obtain ⟨o₀, o₁, o₂, o₃, rfl⟩ := four_of_length h.length_eq
  have h₀ : ∀ s, o₀ = some s → s = a := fun s hs =>
    (Option.some.inj (h.symbol 0 s (by rw [hs]; rfl))).symm
  have h₁ : ∀ s, o₁ = some s → s = b := fun s hs =>
    (Option.some.inj (h.symbol 1 s (by rw [hs]; rfl))).symm
  have h₂ : ∀ s, o₂ = some s → s = List.zipWith firstParity a b :=
    fun s hs => (Option.some.inj (h.symbol 2 s (by rw [hs]; rfl))).symm
  have h₃ : ∀ s, o₃ = some s → s = List.zipWith secondParity a b :=
    fun s hs => (Option.some.inj (h.symbol 3 s (by rw [hs]; rfl))).symm
  cases o₀ with
  | some s₀ =>
      rw [h₀ s₀ rfl]
      cases o₁ with
      | some s₁ =>
          rw [h₁ s₁ rfl]
          rfl
      | none =>
          cases o₂ with
          | some s₂ =>
              rw [h₂ s₂ rfl, solvePair, zipWith_solve_snd hlen]
              intro x y
              rw [(first_difference x y).1, gfHalve_double, xor_cancel]
          | none =>
              cases o₃ with
              | some s₃ =>
                  rw [h₃ s₃ rfl, solvePair, zipWith_solve_snd hlen]
                  intro x y
                  rw [(second_difference x y).1, gfThird_triple, xor_cancel]
              | none => exact absurd hk (by simp [known])
  | none =>
      cases o₁ with
      | some s₁ =>
          rw [h₁ s₁ rfl]
          cases o₂ with
          | some s₂ =>
              rw [h₂ s₂ rfl, solvePair, zipWith_solve_fst hlen]
              intro x y
              rw [(first_difference x y).2, gfThird_triple,
                xor_cancel_right]
          | none =>
              cases o₃ with
              | some s₃ =>
                  rw [h₃ s₃ rfl, solvePair, zipWith_solve_fst hlen]
                  intro x y
                  rw [(second_difference x y).2, gfHalve_double,
                    xor_cancel_right]
              | none => exact absurd hk (by simp [known])
      | none =>
          cases o₂ with
          | none =>
              cases o₃ <;> exact absurd hk (by simp [known])
          | some s₂ =>
              cases o₃ with
              | none => exact absurd hk (by simp [known])
              | some s₃ =>
                  have hfirst : ∀ x y, firstParity x y ^^^ gfDouble
                      (firstParity x y ^^^ secondParity x y) = x := by
                    intro x y
                    rw [parity_difference]
                    unfold firstParity
                    rw [UInt8.xor_assoc, UInt8.xor_self, UInt8.xor_zero]
                  have hsecond : ∀ x y, secondParity x y ^^^ gfDouble
                      (firstParity x y ^^^ secondParity x y) = y := by
                    intro x y
                    rw [parity_difference]
                    unfold secondParity
                    rw [UInt8.xor_assoc, UInt8.xor_self, UInt8.xor_zero]
                  rw [h₂ s₂ rfl, h₃ s₃ rfl, solvePair,
                    zipWith_both firstParity secondParity
                      (fun p q => p ^^^ gfDouble (p ^^^ q)) (fun x _ => x)
                      a b hfirst,
                    zipWith_both firstParity secondParity
                      (fun p q => q ^^^ gfDouble (p ^^^ q)) (fun _ y => y)
                      a b hsecond,
                    zipWith_fst hlen, zipWith_snd hlen]

-- ============== laws

/-- The known shards have one positive size. -/
def sameSizes (received : List (Option (List UInt8))) : Bool :=
  match received.findSome? id with
  | none => true
  | some s =>
      received.all fun o =>
        o.all fun t => decide (0 < t.length ∧ t.length = s.length)

/-- Reconstruction for two data and two parity shards. -/
def pairRepair : ErasureRepair where
  reconstruct k n received :=
    if k = 2 ∧ n = 2 ∧ received.length = 4 then
      if sameSizes received then
        match solvePair received with
        | some w => .ok (pairWord w.1 w.2)
        | none => .error "too few shards present"
      else .error "incorrect shard size"
    else .error "wrong number of shards"

theorem sameSizes_iff {received : List (Option (List UInt8))} :
    sameSizes received = true ↔ ∀ s, some s ∈ received → 0 < s.length
      ∧ ∀ t, some t ∈ received → s.length = t.length := by
  unfold sameSizes
  cases hfirst : received.findSome? id with
  | none =>
      rw [List.findSome?_eq_none_iff] at hfirst
      refine iff_of_true rfl ?_
      intro s hs
      exact absurd (hfirst _ hs) (Option.some_ne_none s)
  | some a =>
      obtain ⟨o, ho, hoa⟩ := List.exists_of_findSome?_eq_some hfirst
      obtain rfl : o = some a := hoa
      dsimp only
      rw [List.all_eq_true]
      constructor
      · intro hall s hs
        have hsa := hall _ hs
        rw [Option.all_some, decide_eq_true_eq] at hsa
        refine ⟨hsa.1, ?_⟩
        intro t ht
        have hta := hall _ ht
        rw [Option.all_some, decide_eq_true_eq] at hta
        rw [hsa.2, hta.2]
      · intro hsame o ho'
        cases o with
        | none => rfl
        | some t =>
            obtain ⟨hpos, hall⟩ := hsame t ho'
            rw [Option.all_some, decide_eq_true_eq]
            exact ⟨hpos, hall a ho⟩

theorem length_pairWord {a b : List UInt8} (hlen : a.length = b.length) :
    ∀ s ∈ pairWord a b, s.length = a.length := by
  intro s hs
  unfold pairWord at hs
  simp only [List.mem_cons, List.not_mem_nil, or_false] at hs
  rcases hs with rfl | rfl | rfl | rfl
  · rfl
  · exact hlen.symm
  · rw [List.length_zipWith, ← hlen, Nat.min_self]
  · rw [List.length_zipWith, ← hlen, Nat.min_self]

theorem pairCode_encode {a b c d : List UInt8} {w : List (List UInt8)}
    (h : pairCode.encode 2 2 [a, b, c, d] = .ok w) :
    (0 < a.length ∧ a.length = b.length) ∧ w = pairWord a b := by
  unfold pairCode at h
  dsimp only at h
  by_cases hsize : 0 < a.length ∧ a.length = b.length
      ∧ c.length = a.length ∧ d.length = a.length
  · rw [if_pos ⟨rfl, rfl, hsize⟩] at h
    exact ⟨⟨hsize.1, hsize.2.1⟩, (Except.ok.inj h).symm⟩
  · rw [if_neg fun hall => hsize hall.2.2] at h
    cases h

theorem mem_codewords_pair {w : List (List UInt8)} :
    w ∈ codewords pairCode 2 2
      ↔ ∃ a b, (0 < a.length ∧ a.length = b.length)
        ∧ w = pairWord a b := by
  constructor
  · rintro ⟨shards, hlen, henc⟩
    obtain ⟨a, b, c, d, rfl⟩ := four_of_length hlen
    exact ⟨a, b, pairCode_encode henc⟩
  · rintro ⟨a, b, ⟨hpos, hlen⟩, rfl⟩
    exact ⟨[a, b, a, a], rfl, if_pos ⟨rfl, rfl, hpos, hlen, rfl, rfl⟩⟩

/-- Enough shards are solved for something. -/
theorem solvePair_some {received : List (Option (List UInt8))}
    (hlen : received.length = 4) (hk : 2 ≤ known received) :
    ∃ w, solvePair received = some w := by
  obtain ⟨o₀, o₁, o₂, o₃, rfl⟩ := four_of_length hlen
  cases o₀ <;> cases o₁ <;> cases o₂ <;> cases o₃ <;>
    first
      | exact ⟨_, rfl⟩
      | exact absurd hk (by simp [known])

theorem pair_reconstruct {received : List (Option (List UInt8))}
    {w : List UInt8 × List UInt8} (hlen : received.length = 4)
    (hsame : sameSizes received = true)
    (hsolve : solvePair received = some w) :
    pairRepair.reconstruct 2 2 received = .ok (pairWord w.1 w.2) := by
  unfold pairRepair
  dsimp only
  rw [if_pos ⟨rfl, rfl, hlen⟩, if_pos hsame, hsolve]

theorem pair_laws : ReedSolomonLaws pairCode pairRepair 2 2 where
  accepts := by
    intro shards size _ _ _ hpos hlen hsize
    obtain ⟨a, b, c, d, rfl⟩ := four_of_length hlen
    have ha := hsize a (by simp)
    have hb := hsize b (by simp)
    have hc := hsize c (by simp)
    have hd := hsize d (by simp)
    exact ⟨_, if_pos ⟨rfl, rfl, ha ▸ hpos, ha.trans hb.symm,
      hc.trans ha.symm, hd.trans ha.symm⟩⟩
  systematic := by
    intro shards w hlen henc
    obtain ⟨a, b, c, d, rfl⟩ := four_of_length hlen
    obtain ⟨-, rfl⟩ := pairCode_encode henc
    exact ⟨rfl, rfl⟩
  same_size := by
    intro shards w size hlen henc hsize s hs
    obtain ⟨a, b, c, d, rfl⟩ := four_of_length hlen
    obtain ⟨⟨-, hab⟩, rfl⟩ := pairCode_encode henc
    rw [length_pairWord hab s hs]
    exact hsize a (by simp)
  mds := by
    refine ⟨?_⟩
    intro v hv w hw received hk hfitv hfitw
    obtain ⟨a, b, ⟨-, hab⟩, rfl⟩ := mem_codewords_pair.1 hv
    obtain ⟨a', b', ⟨-, hab'⟩, rfl⟩ := mem_codewords_pair.1 hw
    have hsame := (solvePair_eq hab hk hfitv).symm.trans
      (solvePair_eq hab' hk hfitw)
    obtain ⟨rfl, rfl⟩ := Prod.mk.inj (Option.some.inj hsame)
    rfl
  fills := by
    intro w received hw hk hfits
    obtain ⟨a, b, ⟨hpos, hab⟩, rfl⟩ := mem_codewords_pair.1 hw
    refine ⟨_, hw, hfits, ?_⟩
    refine pair_reconstruct hfits.length_eq ?_ (solvePair_eq hab hk hfits)
    rw [sameSizes_iff]
    intro s hs
    rw [length_pairWord hab s (mem_of_agrees hfits hs)]
    refine ⟨hpos, ?_⟩
    intro t ht
    rw [length_pairWord hab t (mem_of_agrees hfits ht)]

/-- Two chunks of three bytes. -/
def chunkPair : List EncryptedChunk :=
  [[7, 8, 9], [1, 2, 3]].map fun data => ⟨Prims.plain.blake3 data, data⟩

/-- With both data shards lost the parity brings them back. -/
theorem erasure_round_trip_pair :
    ∃ encoded, erasureEncode Prims.plain pairCode chunkPair 2 2 = .ok encoded
      ∧ erasureDecode Prims.plain pairRepair (punctured {2, 3} encoded) 2 2
        = .ok chunkPair := by
  obtain ⟨hsome, hall⟩ := erasure_round_trip Prims.plain pairCode pairRepair
    2 2 (by decide) (by decide) pair_laws chunkPair rfl 3
    (by simp [chunkPair]) (by simp [chunkPair])
  obtain ⟨encoded, hok⟩ := hsome (by decide) (by decide)
  have hkept : ({2, 3} : Finset Nat) ⊆ Finset.range (2 + 2) := by decide
  exact ⟨encoded, hok, (hall encoded hok).2.2.2 {2, 3} hkept⟩

theorem pair_sizeChecked : SizeChecked pairRepair 2 2 where
  accepts := by
    intro received size hpos hlen hk hsize
    obtain ⟨w, hw⟩ := solvePair_some hlen hk
    refine ⟨_, pair_reconstruct hlen ?_ hw⟩
    rw [sameSizes_iff]
    intro s hs
    rw [hsize s hs]
    exact ⟨hpos, fun t ht => (hsize t ht).symm⟩
  refuses := by
    intro received filled hok
    unfold pairRepair at hok
    dsimp only at hok
    by_cases hlen : received.length = 4
    · by_cases hsame : sameSizes received = true
      · exact sameSizes_iff.1 hsame
      · rw [if_pos ⟨rfl, rfl, hlen⟩, if_neg hsame] at hok
        cases hok
    · rw [if_neg fun hall => hlen hall.2.2] at hok
      cases hok

end StaticNet
