/-
Merkle roots and proofs of a content's chunks
(`static-storage/src/integrity.rs`).

`compute_root` and `generate_proofs` run the same loop over levels, once
for the root and once keeping every level; both are the library's
`collapse` at `node_hash`. A proof is the sibling at each level, so the
walk of `verify_chunk` goes from an entry of a level to its parent in
the next (`walk_siblingPath`). Soundness is the library's: leaves are
not tagged, but no chunk has the 64 bytes of a pair.
-/
import StaticNet.Content.Basic
import StaticNet.Lib.Merkle
import Mathlib.Data.Nat.Bitwise

namespace StaticNet

-- ========== the root

/-- The loop of `compute_root`. Every level is shorter than the one
below, so the length of the leaves bounds it. -/
def rootLoop (P : Prims) : Nat → List (Bytes 32) → List (Bytes 32)
  | 0, level => level
  | fuel + 1, level =>
      if 1 < level.length then rootLoop P fuel (parents P (evenLevel level))
      else level

/-- `compute_root`. -/
def computeRoot (P : Prims) (chunks : List EncryptedChunk) : MerkleRoot :=
  if chunks.isEmpty then Bytes.zero 32
  else
    let leaves := chunks.map fun c => leafHash P c.data
    (rootLoop P leaves.length leaves).headD (Bytes.zero 32)

/-- The bytes of a node: left child, right child. -/
def nodeBytes (left right : Bytes 32) : List UInt8 :=
  left.toList ++ right.toList

section Loops

variable (P : Prims)

theorem evenLevel_eq (level : List (Bytes 32)) :
    evenLevel level = Merkle.even level := rfl

theorem parents_eq (level : List (Bytes 32)) :
    parents P level = Merkle.pairUp (nodeHash P) level := by
  induction level using Merkle.pairUp.induct with
  | case1 a b rest ih => rw [parents, Merkle.pairUp, ih]
  | case2 l h =>
      rcases l with _ | ⟨a, _ | ⟨b, rest⟩⟩
      · rw [parents, Merkle.pairUp]
        · intro a b rest hl
          cases hl
        · intro a b rest hl
          cases hl
      · rw [parents, Merkle.pairUp]
        · intro a b rest hl
          cases hl
        · intro a b rest hl
          cases hl
      · exact absurd rfl (h a b rest)

/-- The loop of `compute_root` is the library's. -/
theorem rootLoop_eq (fuel : Nat) (level : List (Bytes 32)) :
    rootLoop P fuel level = Merkle.collapse (nodeHash P) fuel level := by
  induction fuel generalizing level with
  | zero => rfl
  | succ fuel ih =>
      rw [rootLoop, Merkle.collapse, ih, parents_eq, evenLevel_eq]

/-- The loop of `generate_proofs` ends at the same root. -/
theorem merkleLevels_root (fuel : Nat) (level : List (Bytes 32)) :
    (merkleLevels P fuel level).2
      = (rootLoop P fuel level).headD (Bytes.zero 32) := by
  induction fuel generalizing level with
  | zero => rfl
  | succ fuel ih =>
      rw [merkleLevels, rootLoop]
      by_cases hlen : 1 < level.length
      · rw [if_pos hlen, if_pos hlen, ← ih]
      · rw [if_neg hlen, if_neg hlen]

end Loops

-- ====== completeness

section Completeness

variable {P : Prims} {level : List (Bytes 32)} {i : Nat} {x : Bytes 32}

/-- The entry of a level and its sibling hash to the entry above. -/
theorem getElem?_parents (h : level[i]? = some x) :
    (parents P (evenLevel level))[i / 2]?
      = some (if i % 2 = 0
          then nodeHash P x ((evenLevel level).getD (i ^^^ 1) (Bytes.zero 32))
          else nodeHash P ((evenLevel level).getD (i ^^^ 1) (Bytes.zero 32))
            x) := by
  obtain ⟨hi, -⟩ := List.getElem?_eq_some_iff.1 h
  have hx : (evenLevel level)[i]? = some x := by
    rw [evenLevel_eq, Merkle.getElem?_even hi, h]
  have hlen := Merkle.length_even level
  rw [← evenLevel_eq] at hlen
  rw [parents_eq]
  by_cases hpar : i % 2 = 0
  · have hxor : i ^^^ 1 = i + 1 := by
      rw [Nat.xor_one_of_even (Nat.even_iff.2 hpar)]
    have hlt : i + 1 < (evenLevel level).length := by omega
    rw [if_pos hpar, hxor, List.getD_eq_getElem?_getD,
      List.getElem?_eq_getElem hlt, Option.getD_some]
    apply Merkle.getElem?_pairUp
    · rw [show 2 * (i / 2) = i from by omega, hx]
    · rw [show 2 * (i / 2) + 1 = i + 1 from by omega,
        List.getElem?_eq_getElem hlt]
  · have hxor : i ^^^ 1 = i - 1 := by
      rw [Nat.xor_one_of_odd (Nat.odd_iff.2 (by omega))]
    have hlt : i - 1 < (evenLevel level).length := by omega
    rw [if_neg hpar, hxor, List.getD_eq_getElem?_getD,
      List.getElem?_eq_getElem hlt, Option.getD_some]
    apply Merkle.getElem?_pairUp
    · rw [show 2 * (i / 2) = i - 1 from by omega,
        List.getElem?_eq_getElem hlt]
    · rw [show 2 * (i / 2) + 1 = i from by omega, hx]

/-- The walk from an entry of a level along its siblings ends at the
root. -/
theorem walk_siblingPath {fuel : Nat} (hfuel : level.length ≤ fuel)
    (h : level[i]? = some x) :
    merkleWalk P x i (siblingPath (merkleLevels P fuel level).1 i)
      = (merkleLevels P fuel level).2 := by
  induction fuel generalizing level i x with
  | zero =>
      obtain ⟨hi, -⟩ := List.getElem?_eq_some_iff.1 h
      omega
  | succ fuel ih =>
      rw [merkleLevels]
      by_cases hlen : 1 < level.length
      · rw [if_pos hlen]
        simp only [siblingPath, merkleWalk]
        apply ih
        · rw [parents_eq, Merkle.length_pairUp, evenLevel_eq,
            Merkle.length_even]
          omega
        · exact getElem?_parents h
      · -- one entry is left, and it is the root
        obtain ⟨hi, hget⟩ := List.getElem?_eq_some_iff.1 h
        obtain rfl : i = 0 := by omega
        rw [if_neg hlen, siblingPath, merkleWalk, List.headD_eq_head?_getD,
          List.head?_eq_getElem?, h]
        rfl

end Completeness

-- ========= soundness

/-- The steps of a proof's walk: an even index has its sibling on the
right. -/
def walkSteps : Nat → List (Bytes 32) → List (Merkle.Step (Bytes 32))
  | _, [] => []
  | idx, sibling :: rest =>
      (if idx % 2 = 0 then Merkle.Step.right sibling
        else Merkle.Step.left sibling) :: walkSteps (idx / 2) rest

/-- The tree whose root `compute_root` returns. -/
def chunkTree (chunks : List EncryptedChunk) :
    List (Merkle.Tree (List UInt8)) :=
  Merkle.collapse Merkle.Tree.node chunks.length
    (chunks.map fun c => Merkle.Tree.leaf c.data)

/-- Everything that is hashed for the root of the chunks and for the
verification of a candidate. -/
def hashedBytes (P : Prims) (chunks : List EncryptedChunk)
    (data : List UInt8) (proof : MerkleProof) : List (List UInt8) :=
  (chunkTree chunks).flatMap (Merkle.Tree.inputs P.blake3 nodeBytes)
    ++ data :: Merkle.walked P.blake3 nodeBytes (leafHash P data)
      (walkSteps proof.leafIndex proof.siblings)

section Soundness

variable {P : Prims} {chunks : List EncryptedChunk}

theorem length_nodeBytes (a b : Bytes 32) :
    (nodeBytes a b).length = 64 := by
  rw [nodeBytes, List.length_append, Bytes.length_toList,
    Bytes.length_toList]

/-- The children are read back from the bytes of a node. -/
theorem nodeBytes_inj {a b a' b' : Bytes 32}
    (h : nodeBytes a b = nodeBytes a' b') : a = a' ∧ b = b' := by
  obtain ⟨ha, hb⟩ := List.append_inj h (by
    rw [Bytes.length_toList, Bytes.length_toList])
  exact ⟨Bytes.ext ha, Bytes.ext hb⟩

theorem merkleWalk_eq (current : Bytes 32) (idx : Nat)
    (siblings : List (Bytes 32)) :
    merkleWalk P current idx siblings
      = Merkle.walk P.blake3 nodeBytes current
        (walkSteps idx siblings) := by
  induction siblings generalizing current idx with
  | nil => rfl
  | cons sibling rest ih =>
      rw [merkleWalk, walkSteps, Merkle.walk]
      by_cases hpar : idx % 2 = 0
      · rw [if_pos hpar, if_pos hpar, ih]
        rfl
      · rw [if_neg hpar, if_neg hpar, ih]
        rfl

/-- The root of a non-empty list of chunks is that of one tree, whose
leaves are the chunks' data. -/
theorem computeRoot_tree (hne : chunks ≠ []) :
    ∃ t, chunkTree chunks = [t]
      ∧ computeRoot P chunks = t.root P.blake3 nodeBytes
      ∧ ∀ data ∈ t.leaves, ∃ c ∈ chunks, c.data = data := by
  have hlen : (chunkTree chunks).length = 1 := by
    apply Merkle.length_collapse
    · rw [List.length_map]
      exact List.length_pos_of_ne_nil hne
    · rw [List.length_map]
  obtain ⟨t, ht⟩ := List.length_eq_one_iff.1 hlen
  refine ⟨t, ht, ?_, ?_⟩
  · have hroots : rootLoop P chunks.length
        (chunks.map fun c => leafHash P c.data)
        = (chunkTree chunks).map (Merkle.Tree.root P.blake3 nodeBytes) := by
      have hnode : ∀ l r : Merkle.Tree (List UInt8),
          (Merkle.Tree.node l r).root P.blake3 nodeBytes
            = nodeHash P (l.root P.blake3 nodeBytes)
              (r.root P.blake3 nodeBytes) := fun _ _ => rfl
      rw [rootLoop_eq, chunkTree, Merkle.map_collapse hnode, List.map_map]
      rfl
    rw [computeRoot, if_neg (by rw [List.isEmpty_iff]; exact hne)]
    simp only [List.length_map, hroots, ht, List.map_cons, List.headD_cons]
  · have hnode : ∀ l r : Merkle.Tree (List UInt8),
        (∀ data ∈ l.leaves, ∃ c ∈ chunks, c.data = data) →
        (∀ data ∈ r.leaves, ∃ c ∈ chunks, c.data = data) →
        ∀ data ∈ (Merkle.Tree.node l r).leaves,
          ∃ c ∈ chunks, c.data = data := by
      intro l r hl hr data hdata
      rw [Merkle.Tree.leaves, List.mem_append] at hdata
      exact hdata.elim (hl data) (hr data)
    apply Merkle.collapse_forall hnode chunks.length
    · intro leaf hleaf
      obtain ⟨c, hc, rfl⟩ := List.mem_map.1 hleaf
      intro data hdata
      rw [Merkle.Tree.leaves, List.mem_singleton] at hdata
      exact ⟨c, hc, hdata.symm⟩
    · rw [← chunkTree, ht]
      exact List.mem_singleton_self t

/-- What verifies against the root of the chunks is the data of one. -/
theorem mem_chunks_of_verifyChunk (hne : chunks ≠ [])
    (hsize : ∀ c ∈ chunks, c.data.length ≠ 64) {data : List UInt8}
    (hdata : data.length ≠ 64) {proof : MerkleProof}
    (hfree : Merkle.CollisionFree P.blake3
      (hashedBytes P chunks data proof))
    (h : verifyChunk P data proof (computeRoot P chunks) = true) :
    ∃ c ∈ chunks, c.data = data := by
  obtain ⟨t, ht, hroot, hleaves⟩ := computeRoot_tree (P := P) hne
  rw [verifyChunk, decide_eq_true_eq, merkleWalk_eq, hroot] at h
  rw [hashedBytes, ht, List.flatMap_singleton] at hfree
  refine hleaves data (Merkle.mem_leaves_of_walk ?_ ?_ ?_ hfree h)
  · intro a b a' b' hab
    exact nodeBytes_inj hab
  · intro d hd a b hab
    obtain ⟨c, hc, rfl⟩ := hleaves d hd
    exact hsize c hc (by rw [hab, length_nodeBytes])
  · intro a b hab
    exact hdata (by rw [hab, length_nodeBytes])

end Soundness

-- ======== membership

/-- The proofs of `generate_proofs` verify against the root that
`compute_root` returns, one for each chunk and in order, and nothing but
the chunks' data verifies against it. -/
theorem merkle_membership (P : Prims) (chunks : List EncryptedChunk)
    (hne : chunks ≠ []) :
    (generateProofs P chunks).1 = computeRoot P chunks
      ∧ (generateProofs P chunks).2.length = chunks.length
      ∧ (∀ (i : Nat) (c : EncryptedChunk) (proof : MerkleProof),
        chunks[i]? = some c → (generateProofs P chunks).2[i]? = some proof →
          verifyChunk P c.data proof (computeRoot P chunks) = true)
      ∧ ((∀ c ∈ chunks, c.data.length ≠ 64) →
        ∀ (data : List UInt8) (proof : MerkleProof), data.length ≠ 64 →
          Merkle.CollisionFree P.blake3 (hashedBytes P chunks data proof) →
          verifyChunk P data proof (computeRoot P chunks) = true →
          ∃ c ∈ chunks, c.data = data) := by
  have hempty : ¬ chunks.isEmpty = true := by
    rw [List.isEmpty_iff]
    exact hne
  have hroot : (generateProofs P chunks).1 = computeRoot P chunks := by
    rw [generateProofs, computeRoot, if_neg hempty, if_neg hempty]
    exact merkleLevels_root P _ _
  refine ⟨hroot, ?_, ?_, ?_⟩
  · rw [generateProofs, if_neg hempty, List.length_map, List.length_range]
  · intro i c proof hc hproof
    rw [← hroot]
    rw [generateProofs, if_neg hempty] at hproof ⊢
    obtain ⟨hi, -⟩ := List.getElem?_eq_some_iff.1 hc
    rw [List.getElem?_map, List.getElem?_range hi] at hproof
    cases hproof
    rw [verifyChunk, decide_eq_true_eq]
    apply walk_siblingPath (Nat.le_refl _)
    rw [List.getElem?_map, hc]
    rfl
  · intro hsize data proof hdata hfree h
    exact mem_chunks_of_verifyChunk hne hsize hdata hfree h

/-- A hash without collisions on what two one-byte chunks need. -/
def shortHash : Prims :=
  { Prims.plain with
    blake3 := fun l =>
      Bytes.ofList 32
        (if l.length = 64 then [l.getD 0 0, l.getD 32 0, 9] else l) }

/-- Two chunks, and the proof of the second. -/
theorem merkle_membership_two :
    Merkle.CollisionFree shortHash.blake3
        (hashedBytes shortHash [⟨Bytes.zero 32, [1]⟩, ⟨Bytes.zero 32, [2]⟩]
          [2] ⟨1, [leafHash shortHash [1]]⟩)
      ∧ verifyChunk shortHash [2] ⟨1, [leafHash shortHash [1]]⟩
          (computeRoot shortHash
            [⟨Bytes.zero 32, [1]⟩, ⟨Bytes.zero 32, [2]⟩]) = true
      ∧ ∃ c ∈ [(⟨Bytes.zero 32, [1]⟩ : EncryptedChunk),
          ⟨Bytes.zero 32, [2]⟩], c.data = [2] := by
  have hfree : Merkle.CollisionFree shortHash.blake3
      (hashedBytes shortHash [⟨Bytes.zero 32, [1]⟩, ⟨Bytes.zero 32, [2]⟩]
        [2] ⟨1, [leafHash shortHash [1]]⟩) := by
    unfold Merkle.CollisionFree
    decide +kernel
  have hverify : verifyChunk shortHash [2] ⟨1, [leafHash shortHash [1]]⟩
      (computeRoot shortHash
        [⟨Bytes.zero 32, [1]⟩, ⟨Bytes.zero 32, [2]⟩]) = true := by
    decide +kernel
  have hsound := (merkle_membership shortHash
    [⟨Bytes.zero 32, [1]⟩, ⟨Bytes.zero 32, [2]⟩] (by decide)).2.2.2
  exact ⟨hfree, hverify,
    hsound (by decide) [2] _ (by decide) hfree hverify⟩

end StaticNet
