/-
Files as encrypted chunks, there and back.

# Two decryptors

`decrypt_file` collects the plaintexts of all chunks and cuts what it
takes of each to what the manifest still leaves room for;
`StreamingDecryptor` hands out one plaintext after the other, under an
index of its own, and cuts nothing.

# The argument

`OpensTo` says what a list of chunks decrypts to from an index on. Both
decryptors are functions of that list of plaintexts: the stream is its
concatenation (`feedAll_opensTo`), and the file is the concatenation cut to
the size (`decryptFrom_opensTo`). What `encrypt_file` seals are consecutive
windows of the file filled up with zeros (`paddedChunk_filePiece`), so
the concatenation starts with the file.

The result never outgrows the size, which is why the length subtraction
in `decrypt_file` is exact whatever it is given (`decryptFrom_exact`).
-/
import StaticNet.Content.Basic
import Mathlib.Algebra.Order.Floor.Div

namespace StaticNet

-- ============ stream

/-- `StreamingDecryptor`: one plaintext at a time. -/
structure StreamingDecryptor where
  masterKey : SymmetricKey
  nonce : NonceBytes
  currentIndex : Nat
  currentPlaintext : Option (List UInt8)

namespace StreamingDecryptor

def new (masterKey : SymmetricKey) (nonce : NonceBytes) :
    StreamingDecryptor := ⟨masterKey, nonce, 0, none⟩

/-- `next_chunk`: the previous plaintext is gone even when the chunk
fails, and the index moves only when it does not. -/
def nextChunk (P : Prims) (d : StreamingDecryptor)
    (chunk : EncryptedChunk) :
    Except StorageError (List UInt8) × StreamingDecryptor :=
  match decryptChunk P d.masterKey d.nonce d.currentIndex chunk with
  | .error e => (.error e, { d with currentPlaintext := none })
  | .ok plaintext =>
      (.ok plaintext,
        { d with
          currentPlaintext := some plaintext
          currentIndex := d.currentIndex + 1 })

/-- Feed chunks in order and concatenate what comes out. -/
def feedAll (P : Prims) (d : StreamingDecryptor) :
    List EncryptedChunk → Except StorageError (List UInt8)
  | [] => .ok []
  | chunk :: rest =>
      match (d.nextChunk P chunk).1 with
      | .error e => .error e
      | .ok plaintext =>
          ((d.nextChunk P chunk).2.feedAll P rest).map (plaintext ++ ·)

end StreamingDecryptor

open StreamingDecryptor

-- ==== the subtraction

/-- A subtraction of unsigned machine integers; `none` when it
underflows. -/
def checkedSub (a b : Nat) : Option Nat := if b ≤ a then some (a - b) else none

/-- The loop of `decrypt_file` with its length subtraction checked:
`none` when it underflows. -/
def decryptFromChecked (P : Prims) (masterKey : SymmetricKey)
    (nonce : NonceBytes) (originalSize : Nat) :
    Nat → List EncryptedChunk → List UInt8 →
    Option (Except StorageError (List UInt8))
  | _, [], result => some (.ok result)
  | i, chunk :: rest, result =>
      match decryptChunk P masterKey nonce i chunk with
      | .error e => some (.error e)
      | .ok plaintext =>
          match checkedSub originalSize result.length with
          | none => none
          | some remaining =>
              decryptFromChecked P masterKey nonce originalSize (i + 1)
                rest
                (result ++ plaintext.take (min plaintext.length remaining))

variable {P : Prims} {masterKey : SymmetricKey} {nonce : NonceBytes}
  {chunks : List EncryptedChunk} {plaintexts : List (List UInt8)}

/-- Taking what room is left is taking the concatenation up to the
size. -/
theorem append_take_room {result plaintext : List UInt8} {size : Nat}
    (h : result.length ≤ size) :
    result ++ plaintext.take (min plaintext.length (size - result.length))
      = (result ++ plaintext).take size := by
  rw [List.take_append, List.take_of_length_le h]
  congr 1
  rw [List.take_eq_take_iff]
  omega

theorem length_take_room (result plaintext : List UInt8) (size : Nat) :
    ((result ++ plaintext).take size).length ≤ size :=
  List.length_take_le _ _

/-- What was cut off at the size is past the size anyway. -/
theorem take_append_take (a b : List UInt8) (size : Nat) :
    (a.take size ++ b).take size = (a ++ b).take size := by
  rw [List.take_append, List.take_append, List.take_take, Nat.min_self,
    List.length_take]
  congr 2
  omega

/-- The result stays within the size, so nothing underflows. -/
theorem decryptFrom_exact {size i : Nat} {result : List UInt8}
    (h : result.length ≤ size) :
    decryptFromChecked P masterKey nonce size i chunks result
      = some (decryptFrom P masterKey nonce size i chunks result) := by
  induction chunks generalizing i result with
  | nil => rfl
  | cons chunk rest ih =>
      rw [decryptFromChecked, decryptFrom]
      cases decryptChunk P masterKey nonce i chunk with
      | error e => rfl
      | ok plaintext =>
          have hsub : checkedSub size result.length
              = some (size - result.length) := if_pos h
          dsimp only
          rw [hsub]
          refine ih ?_
          rw [append_take_room h]
          exact length_take_room result plaintext size

-- ======== plaintexts

/-- What chunks decrypt to, from an index on. -/
def OpensTo (P : Prims) (masterKey : SymmetricKey) (nonce : NonceBytes) :
    Nat → List EncryptedChunk → List (List UInt8) → Prop
  | _, [], [] => True
  | i, chunk :: chunks, plaintext :: plaintexts =>
      decryptChunk P masterKey nonce i chunk = .ok plaintext
        ∧ OpensTo P masterKey nonce (i + 1) chunks plaintexts
  | _, _, _ => False

/-- The file is the concatenation, cut to the size. -/
theorem decryptFrom_opensTo {size i : Nat} {result : List UInt8}
    (hopen : OpensTo P masterKey nonce i chunks plaintexts)
    (h : result.length ≤ size) :
    decryptFrom P masterKey nonce size i chunks result
      = .ok ((result ++ plaintexts.flatten).take size) := by
  induction chunks generalizing i result plaintexts with
  | nil =>
      cases plaintexts with
      | nil =>
          rw [decryptFrom, List.flatten_nil, List.append_nil,
            List.take_of_length_le h]
      | cons p ps => cases hopen
  | cons chunk rest ih =>
      cases plaintexts with
      | nil => cases hopen
      | cons plaintext plaintexts =>
          obtain ⟨hchunk, hrest⟩ := hopen
          rw [decryptFrom, hchunk]
          dsimp only
          rw [append_take_room h,
            ih hrest (length_take_room result plaintext size),
            List.flatten_cons, ← List.append_assoc]
          congr 1
          exact take_append_take (result ++ plaintext) plaintexts.flatten size

/-- The stream is the concatenation. -/
theorem feedAll_opensTo {i : Nat} {current : Option (List UInt8)}
    (hopen : OpensTo P masterKey nonce i chunks plaintexts) :
    feedAll P ⟨masterKey, nonce, i, current⟩ chunks
      = .ok plaintexts.flatten := by
  induction chunks generalizing i current plaintexts with
  | nil =>
      cases plaintexts with
      | nil => rfl
      | cons p ps => cases hopen
  | cons chunk rest ih =>
      cases plaintexts with
      | nil => cases hopen
      | cons plaintext plaintexts =>
          obtain ⟨hchunk, hrest⟩ := hopen
          have hnext : nextChunk P ⟨masterKey, nonce, i, current⟩ chunk
              = (.ok plaintext,
                ⟨masterKey, nonce, i + 1, some plaintext⟩) := by
            unfold nextChunk
            rw [hchunk]
          rw [feedAll, hnext]
          dsimp only
          rw [ih hrest]
          rfl

-- ============ pieces

theorem numChunks_pos (fileData : List UInt8) :
    0 < numChunks fileData := by
  unfold numChunks
  omega

theorem numChunks_eq (fileData : List UInt8) :
    numChunks fileData = max 1 (fileData.length ⌈/⌉ CHUNK_SIZE) := by
  unfold numChunks
  rw [Nat.ceilDiv_eq_add_pred_div]
  unfold CHUNK_SIZE
  congr 2
  omega

/-- Every piece starts inside the file, and the pieces cover it. -/
theorem numChunks_covers (fileData : List UInt8) :
    (∀ i < numChunks fileData, i * CHUNK_SIZE ≤ fileData.length)
      ∧ fileData.length ≤ numChunks fileData * CHUNK_SIZE := by
  unfold numChunks CHUNK_SIZE
  constructor
  · intro i hi
    omega
  · omega

/-- A piece reaches to the end of its window or of the file. -/
theorem take_filePiece (fileData : List UInt8) (i : Nat) :
    (filePiece fileData i).take CHUNK_SIZE
      = (fileData.drop (i * CHUNK_SIZE)).take CHUNK_SIZE := by
  have hcut : ∀ off size : Nat,
      ((fileData.drop off).take
          (min (off + size) fileData.length - off)).take size
        = (fileData.drop off).take size := by
    intro off size
    rw [List.take_take, List.take_eq_take_iff, List.length_drop]
    omega
  exact hcut (i * CHUNK_SIZE) CHUNK_SIZE

/-- What is sealed at an index is a window of the file filled up with
zeros. -/
theorem paddedChunk_filePiece {fileData : List UInt8} {i n : Nat}
    (hstart : i * CHUNK_SIZE ≤ fileData.length)
    (hend : (i + 1) * CHUNK_SIZE ≤ n) :
    paddedChunk (filePiece fileData i)
      = ((padTo n fileData).drop (i * CHUNK_SIZE)).take CHUNK_SIZE := by
  rw [Nat.add_one_mul] at hend
  unfold paddedChunk
  rw [take_filePiece, padTo_window hstart hend]

/-- The plaintexts of a file start with the file. -/
theorem flatten_pieces (fileData : List UInt8) :
    (((List.range (numChunks fileData)).map fun i =>
        paddedChunk (filePiece fileData i)).flatten).take fileData.length
      = fileData := by
  obtain ⟨hstart, hcover⟩ := numChunks_covers fileData
  have hwindows : (List.range (numChunks fileData)).map (fun i =>
        paddedChunk (filePiece fileData i))
      = (List.range (numChunks fileData)).map fun i =>
        ((padTo (numChunks fileData * CHUNK_SIZE) fileData).drop
          (i * CHUNK_SIZE)).take CHUNK_SIZE := by
    apply List.map_congr_left
    intro i hi
    rw [List.mem_range] at hi
    exact paddedChunk_filePiece (hstart i hi)
      (Nat.mul_le_mul_right CHUNK_SIZE hi)
  rw [hwindows, flatten_windows, List.take_take, Nat.min_eq_left hcover]
  exact List.take_left

-- ======== encryption

/-- The chunk an encryption produces. -/
def sealedChunk (P : Prims) (masterKey : SymmetricKey)
    (nonce : NonceBytes) (i : Nat) (plaintext : List UInt8) :
    EncryptedChunk :=
  let ciphertext := P.encrypt (chunkKey P masterKey i)
    (chunkNonce nonce i) (paddedChunk plaintext)
  ⟨P.blake3 ciphertext, ciphertext⟩

theorem encryptChunk_ok
    (hlen : ∀ k n pt aad, (P.aeadSeal k n pt aad).length = pt.length + 16)
    (masterKey : SymmetricKey) (nonce : NonceBytes) (i : Nat)
    (plaintext : List UInt8) :
    encryptChunk P masterKey nonce i plaintext
      = .ok (sealedChunk P masterKey nonce i plaintext) := by
  have hpad : (paddedChunk plaintext).length = CHUNK_SIZE :=
    length_padTo (List.length_take_le _ _)
  have hct : (P.encrypt (chunkKey P masterKey i) (chunkNonce nonce i)
      (paddedChunk plaintext)).length = CHUNK_SIZE + 16 := by
    unfold Prims.encrypt
    rw [hlen, hpad]
  unfold encryptChunk
  dsimp only
  rw [if_neg (not_not.2 hct)]
  rfl

/-- A list of steps that succeeds succeeds in each, in order. -/
theorem forall₂_of_mapM {α β ε : Type} {f : α → Except ε β} {l : List α}
    {out : List β} (h : l.mapM f = .ok out) :
    List.Forall₂ (fun a b => f a = .ok b) l out := by
  induction l generalizing out with
  | nil =>
      rw [List.mapM_nil] at h
      cases h
      exact .nil
  | cons a l ih =>
      rw [List.mapM_cons] at h
      cases ha : f a with
      | error e =>
          rw [ha] at h
          cases h
      | ok b =>
          cases hl : l.mapM f with
          | error e =>
              rw [ha, hl] at h
              cases h
          | ok bs =>
              rw [ha, hl] at h
              cases h
              exact .cons ha (ih hl)

theorem mem_of_mapM {α β ε : Type} {f : α → Except ε β} {l : List α}
    {out : List β} (h : l.mapM f = .ok out) :
    ∀ b ∈ out, ∃ a ∈ l, f a = .ok b := by
  intro b hb
  have hall := forall₂_of_mapM h
  obtain ⟨i, hi, rfl⟩ := List.getElem_of_mem hb
  have hi' : i < l.length := hall.length_eq.symm ▸ hi
  exact ⟨l[i], List.getElem_mem hi', hall.get hi' hi⟩

/-- What `encrypt_file` returns are its pieces, sealed one by one. -/
theorem encryptFile_mapM {fileData : List UInt8}
    {manifest : ContentManifest}
    (h : encryptFile P masterKey nonce fileData = .ok (chunks, manifest)) :
    (List.range (numChunks fileData)).mapM (fun i =>
      encryptChunk P masterKey nonce i (filePiece fileData i))
        = .ok chunks := by
  unfold encryptFile at h
  cases hm : (List.range (numChunks fileData)).mapM (fun i =>
      encryptChunk P masterKey nonce i (filePiece fileData i)) with
  | error e =>
      rw [hm] at h
      cases h
  | ok cs =>
      rw [hm] at h
      cases h
      rfl

/-- Whatever `encrypt_file` returns is named by its hash and has the size
of an encrypted chunk. -/
theorem encryptFile_chunks {fileData : List UInt8}
    {manifest : ContentManifest}
    (h : encryptFile P masterKey nonce fileData = .ok (chunks, manifest)) :
    ∀ c ∈ chunks, c.id = P.blake3 c.data
      ∧ c.data.length = CHUNK_SIZE + 16 := by
  intro c hc
  obtain ⟨i, -, hi⟩ := mem_of_mapM (encryptFile_mapM h) c hc
  unfold encryptChunk at hi
  dsimp only at hi
  by_cases hlen : (P.encrypt (chunkKey P masterKey i)
      (chunkNonce nonce i) (paddedChunk (filePiece fileData i))).length
        ≠ CHUNK_SIZE + 16
  · rw [if_pos hlen] at hi
    cases hi
  · rw [if_neg hlen] at hi
    obtain rfl := Except.ok.inj hi
    exact ⟨rfl, not_not.1 hlen⟩

/-- A file has as many data chunks as pieces. -/
theorem encryptFile_length {fileData : List UInt8}
    {manifest : ContentManifest}
    (h : encryptFile P masterKey nonce fileData = .ok (chunks, manifest)) :
    chunks.length = numChunks fileData := by
  have hlen := (forall₂_of_mapM (encryptFile_mapM h)).length_eq
  rw [List.length_range] at hlen
  exact hlen.symm

/-- What was sealed opens under the same index. -/
theorem decryptChunk_sealed (haead : P.AeadCorrect) (i : Nat)
    (plaintext : List UInt8) :
    decryptChunk P masterKey nonce i
        (sealedChunk P masterKey nonce i plaintext)
      = .ok (paddedChunk plaintext) := by
  unfold decryptChunk
  have hopen : P.decrypt (chunkKey P masterKey i) (chunkNonce nonce i)
      (sealedChunk P masterKey nonce i plaintext).data
        = some (paddedChunk plaintext) :=
    haead.open_seal (chunkKey P masterKey i) (chunkNonce nonce i)
      (paddedChunk plaintext) []
  rw [hopen]

theorem opensTo_sealed (haead : P.AeadCorrect) (fileData : List UInt8)
    (i n : Nat) :
    OpensTo P masterKey nonce i
      ((List.range' i n).map fun j =>
        sealedChunk P masterKey nonce j (filePiece fileData j))
      ((List.range' i n).map fun j =>
        paddedChunk (filePiece fileData j)) := by
  induction n generalizing i with
  | zero => exact trivial
  | succ n ih =>
      rw [List.range'_succ, List.map_cons, List.map_cons]
      exact ⟨decryptChunk_sealed haead i _, ih (i + 1)⟩

/-- `encrypt_file` seals the pieces in order, and its manifest names
them and the size. -/
theorem encryptFile_ok (haead : P.AeadCorrect) (masterKey : SymmetricKey)
    (nonce : NonceBytes) (fileData : List UInt8) :
    ∃ manifest, encryptFile P masterKey nonce fileData
        = .ok ((List.range (numChunks fileData)).map fun i =>
            sealedChunk P masterKey nonce i (filePiece fileData i),
          manifest)
      ∧ manifest.originalSize = fileData.length := by
  have hlen : ∀ k n pt aad,
      (P.aeadSeal k n pt aad).length = pt.length + 16 := by
    intro k n pt aad
    rw [haead.length_seal, Nat.add_comm]
  have hall : (List.range (numChunks fileData)).mapM (fun i =>
        encryptChunk P masterKey nonce i (filePiece fileData i))
      = .ok ((List.range (numChunks fileData)).map fun i =>
          sealedChunk P masterKey nonce i (filePiece fileData i)) := by
    simp only [encryptChunk_ok hlen]
    exact List.mapM_pure
  unfold encryptFile
  rw [hall]
  exact ⟨_, rfl, rfl⟩

-- ======== round trip

/-- Encryption of a file succeeds with a chunk per piece; decryption
gives the file back, never underflowing whatever it is given; and the
stream of the chunks starts with the file. -/
theorem file_round_trip (P : Prims) (haead : P.AeadCorrect)
    (masterKey : SymmetricKey) (nonce : NonceBytes)
    (fileData : List UInt8) :
    (∃ chunks manifest,
      encryptFile P masterKey nonce fileData = .ok (chunks, manifest)
        ∧ chunks.length = max 1 (fileData.length ⌈/⌉ CHUNK_SIZE)
        ∧ decryptFile P masterKey nonce chunks manifest = .ok fileData
        ∧ (feedAll P (StreamingDecryptor.new masterKey nonce) chunks).map
            (List.take manifest.originalSize) = .ok fileData)
      ∧ ∀ (chunks : List EncryptedChunk) (manifest : ContentManifest),
        decryptFromChecked P masterKey nonce manifest.originalSize 0
            chunks []
          = some (decryptFile P masterKey nonce chunks manifest) := by
  constructor
  · obtain ⟨manifest, hfile, hsize⟩ :=
      encryptFile_ok haead masterKey nonce fileData
    have hopen : OpensTo P masterKey nonce 0 _ _ :=
      opensTo_sealed haead fileData 0 (numChunks fileData)
    rw [← List.range_eq_range'] at hopen
    refine ⟨_, manifest, hfile, ?_, ?_, ?_⟩
    · rw [List.length_map, List.length_range, numChunks_eq]
    · unfold decryptFile
      rw [decryptFrom_opensTo hopen (Nat.zero_le _), hsize]
      exact congrArg Except.ok (flatten_pieces fileData)
    · unfold StreamingDecryptor.new
      rw [feedAll_opensTo hopen, hsize]
      exact congrArg Except.ok (flatten_pieces fileData)
  · intro chunks manifest
    exact decryptFrom_exact (Nat.zero_le _)

/-- A file of two pieces and three bytes, sealed, and opened as a whole and
as a stream. -/
theorem file_round_trip_three :
    ∃ chunks manifest,
      encryptFile Prims.plain (Bytes.fill 32 2) (Bytes.fill 12 3)
          (List.replicate (2 * CHUNK_SIZE + 3) 7) = .ok (chunks, manifest)
        ∧ chunks.length = 3
        ∧ decryptFile Prims.plain (Bytes.fill 32 2) (Bytes.fill 12 3)
            chunks manifest = .ok (List.replicate (2 * CHUNK_SIZE + 3) 7)
        ∧ (feedAll Prims.plain (StreamingDecryptor.new (Bytes.fill 32 2)
            (Bytes.fill 12 3)) chunks).map (List.take manifest.originalSize)
          = .ok (List.replicate (2 * CHUNK_SIZE + 3) 7) := by
  have hsize : (List.replicate (2 * CHUNK_SIZE + 3) (7 : UInt8)).length
      = 2 * CHUNK_SIZE + 3 := List.length_replicate
  generalize List.replicate (2 * CHUNK_SIZE + 3) (7 : UInt8) = fileData
    at hsize ⊢
  obtain ⟨⟨chunks, manifest, hfile, hlen, hback, hstream⟩, -⟩ :=
    file_round_trip Prims.plain Prims.plain_aeadCorrect (Bytes.fill 32 2)
      (Bytes.fill 12 3) fileData
  rw [hsize] at hlen
  exact ⟨chunks, manifest, hfile, hlen, hback, hstream⟩

end StaticNet
