/-
Storage challenges, from the hashes in a manifest to the verdict
(`static-storage/src/verification.rs`, `static-node/src/runner.rs`).

# One segment, cut twice

The publisher hashes what `chunks(SEGMENT_SIZE)` yields; the holder cuts
the asked segment out by its offset. Both are windows of the chunk, the
last one as long as what is left (`toChunks_eq`), and a window is never
longer than a response may carry.

# The verdict

A response passes when it claims the chunk and its data has the hash of
the manifest. So what the holder of a chunk answers passes for every
segment of it, and anything else fails as far as the hash can tell.
-/
import StaticNet.Accounting.Basic
import StaticNet.Lib.Merkle
import StaticNet.Node.Senders

namespace StaticNet

-- =========== windows

/-- The windows of `n` bytes, the last one as long as what is left. -/
def windows (n : Nat) (l : List UInt8) : List (List UInt8) :=
  (List.range ((l.length + n - 1) / n)).map fun i => slice l (i * n) n

theorem windows_nil {n : Nat} (hn : 0 < n) : windows n [] = [] := by
  have hcount : (0 + n - 1) / n = 0 := Nat.div_eq_of_lt (by omega)
  rw [windows, List.length_nil, hcount]
  rfl

/-- A first full window. -/
theorem windows_append {n : Nat} {a b : List UInt8} (hn : 0 < n)
    (ha : a.length = n) : windows n (a ++ b) = a :: windows n b := by
  have hcount : ((a ++ b).length + n - 1) / n
      = (b.length + n - 1) / n + 1 := by
    rw [List.length_append, ha,
      show n + b.length + n - 1 = b.length + n - 1 + n by omega,
      Nat.add_div_right _ hn]
  rw [windows, hcount, List.range_succ_eq_map, List.map_cons, List.map_map,
    Nat.zero_mul, slice_here ha]
  congr 1
  apply List.map_congr_left
  intro i _
  have hoff : (i + 1) * n - a.length = i * n := by
    rw [ha, Nat.succ_mul, Nat.add_sub_cancel]
  change slice (a ++ b) ((i + 1) * n) n = slice b (i * n) n
  rw [slice_skip (by rw [ha, Nat.succ_mul]; omega), hoff]

/-- One short window. -/
theorem windows_short {n : Nat} {a : List UInt8} (h : a.length ≤ n)
    (ha : a ≠ []) : windows n a = [a] := by
  have hpos : 0 < a.length := List.length_pos_iff.2 ha
  have hcount : (a.length + n - 1) / n = 1 := by
    rw [show a.length + n - 1 = a.length - 1 + n by omega,
      Nat.add_div_right _ (by omega), Nat.div_eq_of_lt (by omega)]
  rw [windows, hcount, List.range_one, List.map_singleton, Nat.zero_mul,
    slice, List.drop_zero, List.take_of_length_le h]

/-- The loop behind `chunks`: `acc` is the window it fills. -/
theorem toChunks_go {n : Nat} (xs : List UInt8) (acc : Array UInt8)
    (done : Array (List UInt8)) (hpos : 0 < acc.size)
    (hle : acc.size ≤ n) :
    List.toChunks.go n xs acc done
      = done.toList ++ windows n (acc.toList ++ xs) := by
  induction xs generalizing acc done with
  | nil =>
      have hne : acc.toList ≠ [] := by
        intro hnil
        rw [← Array.length_toList, hnil] at hpos
        exact absurd hpos (by decide)
      rw [List.toChunks.go, List.append_nil,
        windows_short (by rw [Array.length_toList]; exact hle) hne]
      simp
  | cons x xs ih =>
      rw [List.toChunks.go]
      by_cases hfull : acc.size = n
      · have hwindow := windows_append (b := x :: xs) (by omega)
          (acc.length_toList.trans hfull)
        rw [if_pos (by rw [hfull]; exact beq_self_eq_true n),
          ih _ _ (by simp) (by simp; omega), hwindow]
        simp
      · rw [if_neg (by simpa using hfull),
          ih _ _ (by simp) (by simp only [Array.size_push]; omega)]
        simp

/-- What `chunks` yields. -/
theorem toChunks_eq {n : Nat} (hn : 0 < n) (l : List UInt8) :
    l.toChunks n = windows n l := by
  cases l with
  | nil => rw [List.toChunks, windows_nil hn]
  | cons x xs =>
      obtain ⟨m, rfl⟩ : ∃ m, n = m + 1 := ⟨n - 1, by omega⟩
      rw [List.toChunks, toChunks_go xs #[x] #[] (by simp) (by simp)]
      · simp
      · omega

/-- A window there is starts inside the list. -/
theorem getElem?_windows {n : Nat} (hn : 0 < n) (l : List UInt8) (i : Nat) :
    (windows n l)[i]?
      = if i * n < l.length then some (slice l (i * n) n) else none := by
  have hiff : i < (l.length + n - 1) / n ↔ i * n < l.length := by
    rw [Nat.lt_div_iff_mul_lt hn]
    omega
  rw [windows, List.getElem?_map]
  by_cases h : i * n < l.length
  · rw [List.getElem?_range (hiff.2 h), if_pos h]
    rfl
  · rw [if_neg h, List.getElem?_eq_none (by
      rw [List.length_range]
      exact Nat.not_lt.1 (mt hiff.1 h))]
    rfl

-- ========== the code

/-- `handle_verification_challenge`, up to the sending: the answer from
the chunk the holder has. -/
def handleVerificationChallenge (holder : ChunkHolder)
    (challenge : VerificationChallenge) : VerificationResponse :=
  verificationResponse challenge (holder.getChunk challenge.chunkId)

/-- `verify_segment_response`. -/
def verifySegmentResponse (P : Prims) (response : VerificationResponse)
    (expectedHash : Bytes 32) : Bool :=
  if !response.found then false
  else P.blake3 response.segmentData == expectedHash

/-- `handle_verification_response`: the challenge that waits under the
nonce is taken out, and the peer it went to gets a success or a
failure. -/
def handleVerificationResponse (P : Prims)
    (pending : FMap (Bytes 32) VerificationPending)
    (accounting : AccountingState) (response : VerificationResponse)
    (now : UInt64) :
    FMap (Bytes 32) VerificationPending × AccountingState :=
  match pending.get response.nonce with
  | none => (pending, accounting)
  | some p =>
      (pending.erase response.nonce,
        if verifySegmentResponse P response p.expectedHash then
          accounting.recordChallengeSuccess p.challengedNode now
        else accounting.recordChallengeFailure p.challengedNode now)

-- ========== segments

/-- The answer for a window of the held chunk. -/
theorem handleVerificationChallenge_segment {holder : ChunkHolder}
    {challenge : VerificationChallenge} {data segment : List UInt8}
    (hheld : holder.getChunk challenge.chunkId = some data)
    (hsegment : (data.toChunks SEGMENT_SIZE)[challenge.segmentIndex.toNat]?
      = some segment) :
    handleVerificationChallenge holder challenge
      = ⟨challenge.chunkId, challenge.segmentIndex, challenge.nonce, segment,
          true⟩ := by
  rw [toChunks_eq (by decide), getElem?_windows (by decide)] at hsegment
  by_cases hin : challenge.segmentIndex.toNat * SEGMENT_SIZE < data.length
  · rw [if_pos hin] at hsegment
    cases hsegment
    have hcut : slice data (challenge.segmentIndex.toNat * SEGMENT_SIZE)
        (min (challenge.segmentIndex.toNat * SEGMENT_SIZE + SEGMENT_SIZE)
          data.length - challenge.segmentIndex.toNat * SEGMENT_SIZE)
        = slice data (challenge.segmentIndex.toNat * SEGMENT_SIZE)
          SEGMENT_SIZE := by
      generalize challenge.segmentIndex.toNat * SEGMENT_SIZE = start
      generalize SEGMENT_SIZE = size
      simp only [slice]
      rw [List.take_eq_take_iff, List.length_drop]
      omega
    simp only [handleVerificationChallenge, verificationResponse, hheld,
      Option.bind_some, if_neg (Nat.not_le.2 hin), hcut, Option.getD_some,
      Option.isSome_some]
  · rw [if_neg hin] at hsegment
    cases hsegment

/-- No answer without the chunk, or for a segment past its end. -/
theorem handleVerificationChallenge_not_found {holder : ChunkHolder}
    {challenge : VerificationChallenge}
    (h : ∀ data, holder.getChunk challenge.chunkId = some data →
      (data.toChunks SEGMENT_SIZE)[challenge.segmentIndex.toNat]? = none) :
    (handleVerificationChallenge holder challenge).found = false := by
  cases hheld : holder.getChunk challenge.chunkId with
  | none => simp [handleVerificationChallenge, verificationResponse, hheld]
  | some data =>
      have hnone := h data hheld
      rw [toChunks_eq (by decide), getElem?_windows (by decide)] at hnone
      by_cases hin :
          challenge.segmentIndex.toNat * SEGMENT_SIZE < data.length
      · rw [if_pos hin] at hnone
        cases hnone
      · simp [handleVerificationChallenge, verificationResponse, hheld,
          Nat.not_lt.1 hin]

/-- A window fits into a response. -/
theorem length_segment_le {data segment : List UInt8} {i : Nat}
    (h : (data.toChunks SEGMENT_SIZE)[i]? = some segment) :
    segment.length ≤ MAX_SEGMENT_DATA_SIZE := by
  rw [toChunks_eq (by decide), getElem?_windows (by decide)] at h
  by_cases hin : i * SEGMENT_SIZE < data.length
  · rw [if_pos hin] at h
    cases h
    exact List.length_take_le _ _
  · rw [if_neg hin] at h
    cases h

/-- The hash of a segment, from the list of hashes and back. -/
theorem getElem?_computeSegmentHashes {P : Prims}
    {chunks : List EncryptedChunk} {pos : Nat} {chunk : EncryptedChunk}
    (h : chunks[pos]? = some chunk) :
    (computeSegmentHashes P chunks)[pos]?
      = some ((chunk.data.toChunks SEGMENT_SIZE).map P.blake3) := by
  rw [computeSegmentHashes, List.getElem?_map, h]
  rfl

-- ======= the verdict

theorem verifySegmentResponse_iff (P : Prims)
    (response : VerificationResponse) (expected : Bytes 32) :
    verifySegmentResponse P response expected = true
      ↔ response.found = true ∧ P.blake3 response.segmentData = expected := by
  cases hfound : response.found with
  | false => simp [verifySegmentResponse, hfound]
  | true => simp [verifySegmentResponse, hfound]

/-- What a response that fits is after the wire. -/
theorem run_serializeResponse {response : VerificationResponse}
    (h : response.segmentData.length ≤ MAX_SEGMENT_DATA_SIZE) :
    ∃ bytes, Verification.serializeResponse response = .ok bytes
      ∧ Verification.deserializeResponse.run bytes = .ok response := by
  have hok : ∃ bytes, Verification.serializeResponse response
      = .ok bytes := by
    rw [Verification.serializeResponse, if_neg (Nat.not_lt.2 h)]
    exact ⟨_, rfl⟩
  obtain ⟨bytes, hbytes⟩ := hok
  have hreads := reads_response hbytes []
  exact ⟨bytes, hbytes, by simpa using hreads.run⟩

/-- Any other data fails, unless it has the hash of the segment. -/
theorem verifySegmentResponse_other {P : Prims}
    {response : VerificationResponse} {segment : List UInt8}
    (hfree : Merkle.CollisionFree P.blake3 [segment, response.segmentData])
    (hother : response.segmentData ≠ segment) :
    verifySegmentResponse P response (P.blake3 segment) = false := by
  rw [Bool.eq_false_iff]
  intro h
  have hhash := ((verifySegmentResponse_iff _ _ _).1 h).2
  exact hother (hfree _ (by simp) _ (by simp) hhash)

/-- What a challenge does for the peer it went to. -/
theorem handleVerificationResponse_verdict {P : Prims}
    {pending : FMap (Bytes 32) VerificationPending}
    {response : VerificationResponse} {p : VerificationPending}
    (h : pending.get response.nonce = some p) (accounting : AccountingState)
    (now : UInt64) :
    (handleVerificationResponse P pending accounting response now).2
      = if response.found = true
          ∧ P.blake3 response.segmentData = p.expectedHash then
        accounting.recordChallengeSuccess p.challengedNode now
      else accounting.recordChallengeFailure p.challengedNode now := by
  simp only [handleVerificationResponse, h, verifySegmentResponse_iff]

-- ======== possession

/-- The holder of a published chunk passes for each of its segments and
nothing else does, and no segment is found past the end of a chunk or of
a chunk that is not held. -/
theorem storage_challenge_decides (P : Prims)
    (chunks : List EncryptedChunk) (holder : ChunkHolder)
    (challenge : VerificationChallenge) :
    (∀ (pos : Nat) (chunk : EncryptedChunk) (hashes : List (Bytes 32)),
      chunks[pos]? = some chunk →
      (computeSegmentHashes P chunks)[pos]? = some hashes →
        (∀ expected,
          hashes[challenge.segmentIndex.toNat]? = some expected →
            ∃ segment,
              (chunk.data.toChunks SEGMENT_SIZE)[
                challenge.segmentIndex.toNat]? = some segment
              ∧ (challenge.chunkId = chunk.id →
                holder.getChunk chunk.id = some chunk.data →
                ∃ bytes,
                  Verification.serializeResponse
                    (handleVerificationChallenge holder challenge)
                    = .ok bytes
                  ∧ Verification.deserializeResponse.run bytes
                    = .ok (handleVerificationChallenge holder challenge)
                  ∧ verifySegmentResponse P
                    (handleVerificationChallenge holder challenge) expected
                    = true)
              ∧ ∀ response : VerificationResponse,
                (response.found = false →
                  verifySegmentResponse P response expected = false)
                ∧ (Merkle.CollisionFree P.blake3
                    [segment, response.segmentData] →
                  response.segmentData ≠ segment →
                  verifySegmentResponse P response expected = false))
        ∧ (hashes.length ≤ challenge.segmentIndex.toNat →
          challenge.chunkId = chunk.id →
          holder.getChunk chunk.id = some chunk.data →
          (handleVerificationChallenge holder challenge).found = false))
      ∧ (holder.getChunk challenge.chunkId = none →
        (handleVerificationChallenge holder challenge).found = false) := by
  refine ⟨?_, fun hnone => handleVerificationChallenge_not_found
    fun data hdata => by rw [hnone] at hdata; cases hdata⟩
  intro pos chunk hashes hchunk hhashes
  rw [getElem?_computeSegmentHashes hchunk] at hhashes
  cases hhashes
  refine ⟨?_, ?_⟩
  · intro expected hexpected
    rw [List.getElem?_map, Option.map_eq_some_iff] at hexpected
    obtain ⟨segment, hsegment, rfl⟩ := hexpected
    refine ⟨segment, hsegment, ?_, ?_⟩
    · intro hid hheld
      rw [← hid] at hheld
      rw [handleVerificationChallenge_segment hheld hsegment]
      have hfits : (⟨challenge.chunkId, challenge.segmentIndex,
          challenge.nonce, segment, true⟩ : VerificationResponse
          ).segmentData.length ≤ MAX_SEGMENT_DATA_SIZE :=
        length_segment_le hsegment
      obtain ⟨bytes, hbytes, hrun⟩ := run_serializeResponse hfits
      refine ⟨bytes, hbytes, hrun, ?_⟩
      exact (verifySegmentResponse_iff _ _ _).2 ⟨rfl, rfl⟩
    · intro response
      refine ⟨fun hfound => ?_, verifySegmentResponse_other⟩
      rw [verifySegmentResponse, hfound]
      rfl
  · intro hlen hid hheld
    apply handleVerificationChallenge_not_found
    intro data hdata
    rw [hid, hheld] at hdata
    cases hdata
    rw [List.length_map] at hlen
    exact List.getElem?_eq_none hlen

-- ==== a short segment

/-- A chunk with a full segment and three bytes. -/
def tailData : List UInt8 := List.replicate SEGMENT_SIZE 7 ++ [1, 2, 3]

/-- It is the second of a content. -/
def tailChunks : List EncryptedChunk :=
  [⟨Bytes.fill 32 4, [9]⟩, ⟨Bytes.fill 32 5, tailData⟩]

def tailHolder : ChunkHolder :=
  ChunkHolder.new.addChunk (Bytes.fill 32 5) tailData (Bytes.zero 32)

def tailChallenge (segmentIndex : UInt32) : VerificationChallenge :=
  ⟨Bytes.fill 32 5, segmentIndex, Bytes.fill 32 6, ⟨[], Bytes.zero 16⟩⟩

theorem toChunks_tailData :
    tailData.toChunks SEGMENT_SIZE
      = [List.replicate SEGMENT_SIZE 7, [1, 2, 3]] := by
  unfold tailData
  rw [toChunks_eq (by decide), windows_append (by decide)
    List.length_replicate, windows_short (by decide) (List.cons_ne_nil _ _)]

/-- The last segment passes and other data does not, and there is no
segment behind it. -/
theorem storage_challenge_decides_tail :
    (∃ bytes,
      Verification.serializeResponse
          (handleVerificationChallenge tailHolder (tailChallenge 1))
        = .ok bytes
      ∧ Verification.deserializeResponse.run bytes
        = .ok (handleVerificationChallenge tailHolder (tailChallenge 1)))
      ∧ verifySegmentResponse Prims.plain
          (handleVerificationChallenge tailHolder (tailChallenge 1))
          (Prims.plain.blake3 [1, 2, 3]) = true
      ∧ verifySegmentResponse Prims.plain
          ⟨Bytes.fill 32 5, 1, Bytes.fill 32 6, [4], true⟩
          (Prims.plain.blake3 [1, 2, 3]) = false
      ∧ (handleVerificationChallenge tailHolder (tailChallenge 2)).found
        = false := by
  have hchunk : tailChunks[1]? = some ⟨Bytes.fill 32 5, tailData⟩ := rfl
  have hhashes := getElem?_computeSegmentHashes (P := .plain) hchunk
  have hcut := toChunks_tailData
  have hheld : tailHolder.getChunk (Bytes.fill 32 5) = some tailData :=
    FMap.get_insert_self _ _ _
  obtain ⟨hdecides, hbehind⟩ :=
    (storage_challenge_decides .plain tailChunks tailHolder
      (tailChallenge 1)).1 1 _ _ hchunk hhashes
  have hexpected : ((tailData.toChunks SEGMENT_SIZE).map
      Prims.plain.blake3)[(tailChallenge 1).segmentIndex.toNat]?
        = some (Prims.plain.blake3 [1, 2, 3]) := by
    rw [hcut]
    rfl
  obtain ⟨segment, hsegment, hpasses, hfails⟩ := hdecides _ hexpected
  obtain rfl : [1, 2, 3] = segment := by
    rw [hcut] at hsegment
    exact Option.some.inj hsegment
  obtain ⟨bytes, hbytes, hrun, hverdict⟩ := hpasses rfl hheld
  refine ⟨⟨bytes, hbytes, hrun⟩, hverdict, ?_, ?_⟩
  · exact (hfails ⟨Bytes.fill 32 5, 1, Bytes.fill 32 6, [4], true⟩).2
      (by unfold Merkle.CollisionFree; decide +kernel) (by decide)
  · refine ((storage_challenge_decides .plain tailChunks tailHolder
      (tailChallenge 2)).1 1 _ _ hchunk hhashes).2 ?_ rfl hheld
    rw [hcut]
    exact Nat.le_refl 2

end StaticNet
