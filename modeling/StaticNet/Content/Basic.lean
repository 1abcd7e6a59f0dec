/-
Content: chunk encryption, file splitting, erasure coding, the manifest
and its encryption, and the retriever that collects chunks and decrypts
them (`static-storage/src/lib.rs`, `hidden_service.rs`, `integrity.rs`,
`verification.rs`, `retrieval.rs`).

Reed-Solomon and `serde_json` are third-party: they are parameters
(`ErasureCode`, `ErasureRepair`, `Json`), each a function of the type the
source calls it at.
-/
import StaticNet.Storage.Heartbeat
import Mathlib.Data.List.Basic

namespace StaticNet

-- ========= constants

/-- Size of a challengeable segment of a chunk: 4 KiB. -/
def SEGMENT_SIZE : Nat := 4096

def DEFAULT_DATA_SHARDS : Nat := 10

def DEFAULT_PARITY_SHARDS : Nat := 5

/-- The `StorageError` values of this part. -/
inductive StorageError
  | encryptionFailed
  | decryptionFailed
  | erasureError (reason : String)
  | contentNotFound
  | manifestSerializationFailed
  | manifestDecryptionFailed
  | manifestDeserializationFailed
  | invalidChunkSize (expected actual : Nat)
deriving DecidableEq

-- ========== manifest

structure ContentManifest where
  contentId : ContentId
  encryptedMasterKey : List UInt8
  chunkIds : List ChunkId
  originalSize : Nat
  dataShards : Nat
  parityShards : Nat
  nonce : NonceBytes
  segmentHashes : List (List (Bytes 32))
deriving DecidableEq

structure EncryptedManifest where
  ciphertext : List UInt8
  nonce : NonceBytes
deriving DecidableEq

structure ChunkResponse where
  chunkId : ChunkId
  chunkData : List UInt8
  found : Bool
deriving DecidableEq

/-- The `serde_json` conversions retrieval and publishing call. -/
structure Json where
  ofManifest : ContentManifest → List UInt8
  toManifest : List UInt8 → Option ContentManifest
  ofEncrypted : EncryptedManifest → List UInt8
  toEncrypted : List UInt8 → Option EncryptedManifest
  toResponse : List UInt8 → Option ChunkResponse

/-- `ReedSolomon::new` followed by `encode`: data and parity shard
counts and the shards with room for parity, to all shards, or the text
of the error when either call fails. -/
structure ErasureCode where
  encode : Nat → Nat → List (List UInt8) →
    Except String (List (List UInt8))

-- ==== chunk encryption

/-- The key of a chunk, by its index. -/
def chunkKey (P : Prims) (masterKey : SymmetricKey) (i : Nat) :
    SymmetricKey := P.derive masterKey ("chunk:" ++ toString i)

/-- The nonce of a chunk: the index overwrites the last eight bytes. -/
def chunkNonce (nonce : NonceBytes) (i : Nat) : NonceBytes :=
  Bytes.ofList 12 (nonce.toList.take 4 ++ leBytes 8 i)

/-- What is encrypted: the plaintext cut or zero-filled to a chunk. -/
def paddedChunk (plaintext : List UInt8) : List UInt8 :=
  padTo CHUNK_SIZE (plaintext.take CHUNK_SIZE)

def encryptChunk (P : Prims) (masterKey : SymmetricKey)
    (nonce : NonceBytes) (i : Nat) (plaintext : List UInt8) :
    Except StorageError EncryptedChunk :=
  let ciphertext := P.encrypt (chunkKey P masterKey i)
    (chunkNonce nonce i) (paddedChunk plaintext)
  if ciphertext.length ≠ CHUNK_SIZE + 16 then .error .encryptionFailed
  else .ok ⟨P.blake3 ciphertext, ciphertext⟩

def decryptChunk (P : Prims) (masterKey : SymmetricKey)
    (nonce : NonceBytes) (i : Nat) (chunk : EncryptedChunk) :
    Except StorageError (List UInt8) :=
  match P.decrypt (chunkKey P masterKey i) (chunkNonce nonce i)
      chunk.data with
  | some plaintext => .ok plaintext
  | none => .error .decryptionFailed

-- ============= files

/-- The number of chunks of a file: its length over the chunk size,
rounded up, and one even for an empty file. -/
def numChunks (fileData : List UInt8) : Nat :=
  max 1 ((CHUNK_SIZE - 1 + fileData.length) / CHUNK_SIZE)

/-- The `i`-th piece of a file. -/
def filePiece (fileData : List UInt8) (i : Nat) : List UInt8 :=
  slice fileData (i * CHUNK_SIZE)
    (min (i * CHUNK_SIZE + CHUNK_SIZE) fileData.length - i * CHUNK_SIZE)

def encryptFile (P : Prims) (masterKey : SymmetricKey)
    (nonce : NonceBytes) (fileData : List UInt8) :
    Except StorageError (List EncryptedChunk × ContentManifest) := do
  let chunks ← (List.range (numChunks fileData)).mapM fun i =>
    encryptChunk P masterKey nonce i (filePiece fileData i)
  let chunkIds := chunks.map EncryptedChunk.id
  pure (chunks,
    { contentId := P.blake3 (chunkIds.flatMap Bytes.toList)
      encryptedMasterKey := []
      chunkIds := chunkIds
      originalSize := fileData.length
      dataShards := DEFAULT_DATA_SHARDS
      parityShards := DEFAULT_PARITY_SHARDS
      nonce := nonce
      segmentHashes := [] })

/-- The loop of `decrypt_file` from chunk index `i` on. -/
def decryptFrom (P : Prims) (masterKey : SymmetricKey)
    (nonce : NonceBytes) (originalSize : Nat) :
    Nat → List EncryptedChunk → List UInt8 →
    Except StorageError (List UInt8)
  | _, [], result => .ok result
  | i, chunk :: rest, result =>
      match decryptChunk P masterKey nonce i chunk with
      | .error e => .error e
      | .ok plaintext =>
          let remaining := originalSize - result.length
          decryptFrom P masterKey nonce originalSize (i + 1) rest
            (result ++ plaintext.take (min plaintext.length remaining))

def decryptFile (P : Prims) (masterKey : SymmetricKey)
    (nonce : NonceBytes) (chunks : List EncryptedChunk)
    (manifest : ContentManifest) : Except StorageError (List UInt8) :=
  decryptFrom P masterKey nonce manifest.originalSize 0 chunks []

-- ==== erasure coding

/-- `erasure_encode`: data chunks keep their ids, parity chunks are
named by their hash. -/
def erasureEncode (P : Prims) (rs : ErasureCode)
    (chunks : List EncryptedChunk) (dataShards parityShards : Nat) :
    Except StorageError (List EncryptedChunk) :=
  if chunks.length ≠ dataShards then
    .error (.erasureError ("expected " ++ toString dataShards
      ++ " data shards, got " ++ toString chunks.length))
  else
    let shardSize := (chunks.head?.map fun c => c.data.length).getD 0
    let shards := chunks.map EncryptedChunk.data
      ++ List.replicate parityShards (List.replicate shardSize 0)
    match rs.encode dataShards parityShards shards with
    | .error reason => .error (.erasureError reason)
    | .ok shards =>
        .ok (chunks.zipIdx.map (fun c => ⟨c.1.id, shards.getD c.2 []⟩)
          ++ (List.range parityShards).map fun i =>
            let shard := shards.getD (dataShards + i) []
            ⟨P.blake3 shard, shard⟩)

/-- `ReedSolomon::new` followed by `reconstruct`: all shards, the missing
ones filled in, or the text of the error. -/
structure ErasureRepair where
  reconstruct : Nat → Nat → List (Option (List UInt8)) →
    Except String (List (List UInt8))

inductive RepairError
  /-- "insufficient shards for reconstruction (have, need)" -/
  | insufficientShards (have' need : Nat)
  | erasureError (reason : String)
deriving DecidableEq

/-- `erasure_decode`: the data shards, each named by its hash. -/
def erasureDecode (P : Prims) (rs : ErasureRepair)
    (shards : List (Option EncryptedChunk)) (dataShards parityShards : Nat) :
    Except RepairError (List EncryptedChunk) :=
  let total := dataShards + parityShards
  let present := shards.countP Option.isSome
  if shards.length ≠ total then
    .error (.erasureError ("expected " ++ toString total
      ++ " shards, got " ++ toString shards.length))
  else if present < dataShards then
    .error (.insufficientShards present dataShards)
  else
    match rs.reconstruct dataShards parityShards
        (shards.map fun s => s.map EncryptedChunk.data) with
    | .error reason => .error (.erasureError reason)
    | .ok filled =>
        .ok ((filled.take dataShards).map fun d => ⟨P.blake3 d, d⟩)

-- ========= integrity

/-- `compute_segment_hashes`: per chunk, per segment. -/
def computeSegmentHashes (P : Prims) (chunks : List EncryptedChunk) :
    List (List (Bytes 32)) :=
  chunks.map fun chunk =>
    (chunk.data.toChunks SEGMENT_SIZE).map P.blake3

/-- A level of the Merkle tree with its last node doubled when odd. -/
def evenLevel (level : List (Bytes 32)) : List (Bytes 32) :=
  if level.length % 2 = 1 then level ++ level.getLast?.toList else level

/-- The parents of a level of even length. -/
def parents (P : Prims) : List (Bytes 32) → List (Bytes 32)
  | a :: b :: rest => nodeHash P a b :: parents P rest
  | _ => []

/-- The levels below the root, leaves first, and the root. Every level
is shorter than the one below, so its length bounds the loop. -/
def merkleLevels (P : Prims) : Nat → List (Bytes 32) →
    List (List (Bytes 32)) × Bytes 32
  | 0, level => ([], level.headD (Bytes.zero 32))
  | fuel + 1, level =>
      if 1 < level.length then
        let r := merkleLevels P fuel (parents P (evenLevel level))
        (evenLevel level :: r.1, r.2)
      else ([], level.headD (Bytes.zero 32))

/-- The siblings of a leaf, one per level. -/
def siblingPath : List (List (Bytes 32)) → Nat → List (Bytes 32)
  | [], _ => []
  | level :: rest, idx =>
      level.getD (idx ^^^ 1) (Bytes.zero 32) :: siblingPath rest (idx / 2)

/-- `generate_proofs`: the root and one proof per chunk. -/
def generateProofs (P : Prims) (chunks : List EncryptedChunk) :
    MerkleRoot × List MerkleProof :=
  if chunks.isEmpty then (Bytes.zero 32, [])
  else
    let leaves := chunks.map fun c => leafHash P c.data
    let levels := merkleLevels P leaves.length leaves
    (levels.2, (List.range chunks.length).map fun i =>
      ⟨i, siblingPath levels.1 i⟩)

-- ==== hidden service

/-- `content_id_from_public`. -/
def contentIdFromPublic (P : Prims) (publicKey : Bytes 32) : ContentId :=
  P.blake3 publicKey.toList

/-- `derive_symmetric_key`: the key a manifest is encrypted under. -/
def manifestKey (P : Prims) (publicKey : Bytes 32) : SymmetricKey :=
  P.derive publicKey "static-hidden-service-manifest"

def encryptManifest (P : Prims) (json : Json) (manifest : ContentManifest)
    (publicKey : Bytes 32) (nonce : NonceBytes) :
    EncryptedManifest × ChunkId :=
  let ciphertext := P.encrypt (manifestKey P publicKey) nonce
    (json.ofManifest manifest)
  (⟨ciphertext, nonce⟩, P.blake3 ciphertext)

def decryptManifest (P : Prims) (json : Json) (em : EncryptedManifest)
    (publicKey : Bytes 32) : Except StorageError ContentManifest :=
  match P.decrypt (manifestKey P publicKey) em.nonce em.ciphertext with
  | none => .error .manifestDecryptionFailed
  | some plaintext =>
      match json.toManifest plaintext with
      | none => .error .manifestDeserializationFailed
      | some manifest => .ok manifest

-- ========= retriever

/-- `ContentRetriever`: the chunks of one content being collected. -/
structure ContentRetriever where
  pending : FMap ChunkId Bool
  received : FMap ChunkId EncryptedChunk
  manifest : Option ContentManifest
  masterKey : Option SymmetricKey
  nonce : Option NonceBytes

namespace ContentRetriever

def new : ContentRetriever := ⟨∅, ∅, none, none, none⟩

/-- `start_retrieval`: earlier entries are not cleared. -/
def startRetrieval (r : ContentRetriever) (manifest : ContentManifest)
    (masterKey : SymmetricKey) : ContentRetriever :=
  { r with
    manifest := some manifest
    masterKey := some masterKey
    nonce := some manifest.nonce
    pending := manifest.chunkIds.foldl (fun m id => m.insert id true)
      r.pending }

/-- `record_chunk`; whether the chunk was expected. -/
def recordChunk (r : ContentRetriever) (chunk : EncryptedChunk) :
    Bool × ContentRetriever :=
  if r.pending.contains chunk.id then
    (true,
      { r with
        pending := r.pending.erase chunk.id
        received := r.received.insert chunk.id chunk })
  else (false, r)

def isComplete (r : ContentRetriever) : Bool :=
  match r.manifest with
  | some manifest =>
      r.pending.len == 0 && r.received.len == manifest.chunkIds.length
  | none => false

/-- `assemble`: every chunk the manifest lists, in order, decrypted. -/
def assemble (P : Prims) (r : ContentRetriever) :
    Except StorageError (List UInt8) :=
  match r.manifest, r.masterKey, r.nonce with
  | some manifest, some masterKey, some nonce =>
      match manifest.chunkIds.mapM r.received.get with
      | none => .error .contentNotFound
      | some chunks => decryptFile P masterKey nonce chunks manifest
  | _, _, _ => .error .contentNotFound

end ContentRetriever

end StaticNet
