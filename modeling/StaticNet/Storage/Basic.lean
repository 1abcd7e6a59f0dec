/-
The storage data model: encrypted chunks, leases, the chunk holder, and
the Merkle proofs a swap attaches to the chunk it offers
(`static-storage/src/lib.rs`, `retrieval.rs`, `integrity.rs`).
-/
import StaticNet.Lib.FMap
import StaticNet.Crypto

namespace StaticNet

-- ========= constants

/-- Default chunk size: 1 MiB. -/
def CHUNK_SIZE : Nat := 1024 * 1024

/-- An encrypted chunk carries a 16-byte AEAD tag. -/
def ENCRYPTED_CHUNK_SIZE : Nat := CHUNK_SIZE + 16

/-- Default lease duration: 24 hours. -/
def DEFAULT_LEASE_DURATION_SECS : Nat := 86400

/-- The largest `u64`. -/
def U64_MAX : Nat := 2 ^ 64 - 1

/-- `u64::saturating_add`. -/
def satAdd (a b : Nat) : Nat := min (a + b) U64_MAX

-- ============ chunks

/-- An encrypted chunk with its id. -/
structure EncryptedChunk where
  id : ChunkId
  data : List UInt8
deriving DecidableEq

/-- A lease on a chunk held by a storage node. -/
structure ChunkLease where
  chunkId : ChunkId
  expiresAt : Nat
  renewalToken : Bytes 32
  contentPubKey : Bytes 32
deriving DecidableEq

/-- `is_lease_valid`. -/
def isLeaseValid (lease : ChunkLease) (currentTime : Nat) : Bool :=
  currentTime < lease.expiresAt

/-- `create_lease`: the token is derived from the master key only. -/
def createLease (P : Prims) (chunkId : ChunkId) (masterKey : SymmetricKey)
    (durationSecs currentTime : Nat) : ChunkLease where
  chunkId := chunkId
  expiresAt := currentTime + durationSecs
  renewalToken := P.blake3 (P.derive masterKey "lease_token").toList
  contentPubKey := Bytes.zero 32

-- ============ holder

/-- `ChunkHolder`: the chunks a node stores, each with its content. -/
structure ChunkHolder where
  chunks : FMap ChunkId (List UInt8)
  chunkToContent : FMap ChunkId ContentId

namespace ChunkHolder

/-- `ChunkHolder::new`. -/
def new : ChunkHolder := ⟨∅, ∅⟩

/-- `add_chunk`. -/
def addChunk (h : ChunkHolder) (chunkId : ChunkId) (data : List UInt8)
    (contentId : ContentId) : ChunkHolder where
  chunks := h.chunks.insert chunkId data
  chunkToContent := h.chunkToContent.insert chunkId contentId

/-- `remove_chunk`. -/
def removeChunk (h : ChunkHolder) (chunkId : ChunkId) : ChunkHolder where
  chunks := h.chunks.erase chunkId
  chunkToContent := h.chunkToContent.erase chunkId

/-- `has_chunk`. -/
def hasChunk (h : ChunkHolder) (chunkId : ChunkId) : Bool :=
  h.chunks.contains chunkId

/-- `get_chunk`. -/
def getChunk (h : ChunkHolder) (chunkId : ChunkId) :
    Option (List UInt8) := h.chunks.get chunkId

/-- `total_bytes`. -/
def totalBytes (h : ChunkHolder) : Nat := h.chunks.sumBy List.length

end ChunkHolder

-- ========= integrity

/-- `MerkleRoot`. -/
abbrev MerkleRoot := Bytes 32

/-- A Merkle proof for a single chunk. -/
structure MerkleProof where
  leafIndex : Nat
  siblings : List (Bytes 32)
deriving DecidableEq

/-- `leaf_hash`: the hash of the chunk data. -/
def leafHash (P : Prims) (data : List UInt8) : Bytes 32 := P.blake3 data

/-- `node_hash`: the hash of the two children. -/
def nodeHash (P : Prims) (left right : Bytes 32) : Bytes 32 :=
  P.blake3 (left.toList ++ right.toList)

/-- The walk of `verify_chunk` from a leaf hash along the siblings. -/
def merkleWalk (P : Prims) : Bytes 32 → Nat → List (Bytes 32) → Bytes 32
  | current, _, [] => current
  | current, idx, sibling :: rest =>
      let parent :=
        if idx % 2 = 0 then nodeHash P current sibling
        else nodeHash P sibling current
      merkleWalk P parent (idx / 2) rest

/-- `verify_chunk`: re-hash the data and walk the proof to the root. -/
def verifyChunk (P : Prims) (data : List UInt8) (proof : MerkleProof)
    (root : MerkleRoot) : Bool :=
  merkleWalk P (leafHash P data) proof.leafIndex proof.siblings = root

end StaticNet
