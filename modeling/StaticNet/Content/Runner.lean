/-
Publishing and retrieving on one node (`static-node/src/runner.rs`):
`publish_content` on a full node, and `retrieve_content` with the local
path, the manifest request, and the shard fetch.

# What the network does

Retrieval waits twice: for the manifest and for the shards. What other
tasks do to the node's state during a wait (inbound responses recorded,
chunks stashed or cached, anything else) is a function from state to
state in `RetrieveEnv`; which peers are known and whether a reply
session can be opened are fields too. Nothing else of the network is
visible to the code.

# Where it waits for ever

`retrieve_content` looks its manifest up and keeps the chunk holder locked
for as long as it works on what it found. The local attempt locks it again
for each chunk, so with a chunk to look up it waits for itself. A
retrieval has no result then (`none`), and the state beside it is the one
it waits in.
-/
import StaticNet.Content.Basic
import StaticNet.Swap.Handlers

namespace StaticNet

/-- Life-cycle metadata of a held chunk. -/
structure ChunkMetadata where
  createdAt : Nat
  lastBartered : Nat
  isFresh : Bool
deriving DecidableEq

def ChunkMetadata.fresh (now : Nat) : ChunkMetadata := ⟨now, 0, true⟩

/-- The runner's state, as far as publishing and retrieving use it. -/
structure RunnerState where
  transport : TransportState
  contentKeypairs : FMap ContentId SigningKey
  manifests : FMap ContentId ContentManifest
  merkleProofs : FMap ChunkId (MerkleRoot × MerkleProof)
  storageKeys : FMap ContentId SymmetricKey
  chunkMetadata : FMap ChunkId ChunkMetadata
  contentRetriever : ContentRetriever
  singleChunks : FMap ChunkId (List UInt8)

/-- A runner that has just started. -/
def RunnerState.new (transport : TransportState) : RunnerState where
  transport := transport
  contentKeypairs := ∅
  manifests := ∅
  merkleProofs := ∅
  storageKeys := ∅
  chunkMetadata := ∅
  contentRetriever := ContentRetriever.new
  singleChunks := ∅

/-- Evict whatever the table yields first until it fits the cap. Every
turn removes an entry, so the table's size bounds the loop. -/
def evictTo {V : Type} (order : IterOrder (Bytes 32)) (cap : Nat) :
    Nat → FMap (Bytes 32) V → FMap (Bytes 32) V
  | 0, m => m
  | fuel + 1, m =>
      if cap < m.len then
        match (order.iter m.keys).head? with
        | some k => evictTo order cap fuel (m.erase k)
        | none => m
      else m

section Evict

variable {V : Type} {order : IterOrder (Bytes 32)} {cap fuel : Nat}
  {m : FMap (Bytes 32) V} {k : Bytes 32} {v : V}

/-- Nothing is evicted from a table within its bound. -/
theorem evictTo_within (h : m.len ≤ cap) : evictTo order cap fuel m = m := by
  cases fuel with
  | zero => rfl
  | succ fuel =>
      rw [evictTo]
      exact if_neg (Nat.not_lt.2 h)

/-- A table that is too large has an entry to evict. -/
theorem exists_head_of_lt (order : IterOrder (Bytes 32))
    (h : cap < m.len) :
    ∃ k, (order.iter m.keys).head? = some k ∧ m.contains k = true := by
  cases hiter : order.iter m.keys with
  | nil =>
      have hkeys : m.keys = ∅ := by
        refine Finset.eq_empty_of_forall_notMem fun k hk => ?_
        rw [← order.mem_iter, hiter] at hk
        cases hk
      rw [FMap.len, hkeys] at h
      exact absurd h (Nat.not_lt_zero _)
  | cons k rest =>
      refine ⟨k, rfl, ?_⟩
      have hk : k ∈ order.iter m.keys := by
        rw [hiter]
        exact List.mem_cons_self
      rw [FMap.contains_eq_true, ← FMap.mem_keys_iff]
      exact (order.mem_iter _ _).1 hk

theorem evictTo_step (h : cap < m.len)
    (hk : (order.iter m.keys).head? = some k) :
    evictTo order cap (fuel + 1) m = evictTo order cap fuel (m.erase k) := by
  rw [evictTo, if_pos h, hk]

/-- What is left was there. -/
theorem get_of_evictTo (h : (evictTo order cap fuel m).get k = some v) :
    m.get k = some v := by
  induction fuel generalizing m with
  | zero => exact h
  | succ fuel ih =>
      by_cases hlarge : cap < m.len
      · obtain ⟨first, hfirst, -⟩ := exists_head_of_lt order hlarge
        rw [evictTo_step hlarge hfirst] at h
        have hget := ih h
        rw [FMap.get_erase] at hget
        split at hget
        · cases hget
        · exact hget
      · rw [evictTo_within (Nat.le_of_not_lt hlarge)] at h
        exact h

/-- And it is within the bound. -/
theorem len_evictTo (order : IterOrder (Bytes 32)) (cap : Nat)
    (h : m.len ≤ fuel) :
    (evictTo order cap fuel m).len ≤ cap := by
  induction fuel generalizing m with
  | zero => exact (show m.len ≤ cap from h.trans (Nat.zero_le _))
  | succ fuel ih =>
      by_cases hlarge : cap < m.len
      · obtain ⟨k, hk, hin⟩ := exists_head_of_lt order hlarge
        rw [evictTo_step hlarge hk]
        refine ih ?_
        have hone := FMap.len_erase_of_contains hin
        omega
      · rw [evictTo_within (Nat.le_of_not_lt hlarge)]
        exact Nat.le_of_not_lt hlarge

/-- An entry put into a table leaves it as it was exactly when it was there
already and nothing goes, or when the table was full without it and the
entry is the one that goes. -/
theorem evictTo_insert_iff :
    evictTo order cap (m.len + 1) (m.insert k v) = m
      ↔ (m.get k = some v ∧ m.len ≤ cap)
        ∨ (m.get k = none ∧ m.len = cap
          ∧ (order.iter (m.insert k v).keys).head? = some k) := by
  constructor
  · intro h
    have hle : (m.insert k v).len ≤ m.len + 1 :=
      Finset.card_insert_le k m.keys
    have hcap : m.len ≤ cap := by
      have hlen := len_evictTo order cap hle
      rwa [h] at hlen
    cases hget : m.get k with
    | some w =>
        rw [← h] at hget
        have hsame := get_of_evictTo hget
        rw [FMap.get_insert_self] at hsame
        exact Or.inl ⟨hsame.symm, hcap⟩
    | none =>
        refine Or.inr ⟨rfl, ?_⟩
        have hone : (m.insert k v).len = m.len + 1 := by
          refine FMap.len_insert_of_absent v ?_
          rw [FMap.contains, hget]
          rfl
        by_cases hroom : m.len + 1 ≤ cap
        · rw [evictTo_within (hone.trans_le hroom)] at h
          rw [← h, FMap.get_insert_self] at hget
          cases hget
        · have hlarge : cap < (m.insert k v).len := by omega
          obtain ⟨first, hfirst, hin⟩ :=
            exists_head_of_lt order hlarge
          have hless := FMap.len_erase_of_contains hin
          rw [evictTo_step hlarge hfirst, evictTo_within (by omega)] at h
          refine ⟨by omega, hfirst.trans (congrArg some ?_)⟩
          by_contra hne
          rw [← h, FMap.get_erase_ne _ (Ne.symm hne),
            FMap.get_insert_self] at hget
          cases hget
  · rintro (⟨hget, hcap⟩ | ⟨hget, hcap, hfirst⟩)
    · rw [FMap.insert_get hget]
      exact evictTo_within hcap
    · have hone : (m.insert k v).len = m.len + 1 := by
        refine FMap.len_insert_of_absent v ?_
        rw [FMap.contains, hget]
        rfl
      have herase : (m.insert k v).erase k = m := by
        refine FMap.ext_get fun other => ?_
        by_cases hother : other = k
        · rw [hother, FMap.get_erase_self, hget]
        · rw [FMap.get_erase_ne _ hother, FMap.get_insert_ne _ _ hother]
      rw [evictTo_step (by omega) hfirst, herase]
      exact evictTo_within hcap.le

end Evict

/-- What one publication draws and reads: the content key, the master
key, the two nonces, the clock and the eviction orders. -/
structure PublishDraws where
  contentSk : SigningKey
  masterKey : SymmetricKey
  nonce : NonceBytes
  manifestNonce : NonceBytes
  now : Nat
  order : IterOrder (Bytes 32)

/-- The parity count of a publication: small files get as many parity
as data shards, capped at five. -/
def parityCount (num : Nat) : Nat := if num = 1 then 1 else min num 5

/-- The chunks and the manifest of a publication: steps 1 to 2b. -/
def prepareContent (P : Prims) (rs : ErasureCode) (d : PublishDraws)
    (fileData : List UInt8) :
    Except StorageError (List EncryptedChunk × ContentManifest) := do
  let r ← encryptFile P d.masterKey d.nonce fileData
  let dataShards := r.1.length
  let parityShards := parityCount dataShards
  let chunks ← erasureEncode P rs r.1 dataShards parityShards
  pure (chunks,
    { r.2 with
      chunkIds := chunks.map EncryptedChunk.id
      dataShards := dataShards
      parityShards := parityShards
      encryptedMasterKey := d.masterKey.toList
      nonce := d.nonce
      contentId := contentIdFromPublic P (P.edPublic d.contentSk)
      segmentHashes := computeSegmentHashes P chunks })

/-- What publishing stores once the manifest is encrypted: proofs,
chunks, keys, the manifest under both its ids, capacity, the owned
content, metadata. -/
def storeContent (P : Prims) (json : Json) (d : PublishDraws)
    (chunks : List EncryptedChunk) (manifest : ContentManifest)
    (s : RunnerState) : RunnerState :=
  let publicKey := P.edPublic d.contentSk
  let contentId := contentIdFromPublic P publicKey
  let em := encryptManifest P json manifest publicKey d.manifestNonce
  let proofs := generateProofs P chunks
  let merkleProofs := (chunks.zip proofs.2).foldl
    (fun m cp => m.insert cp.1.id (proofs.1, cp.2)) s.merkleProofs
  let holder := chunks.foldl
    (fun h c => h.addChunk c.id c.data contentId) s.transport.chunkHolder
  let manifestBytes := json.ofEncrypted em.1
  let holder := holder.addChunk em.2 manifestBytes contentId
  let holder :=
    if em.2 ≠ contentId then holder.addChunk contentId manifestBytes contentId
    else holder
  { s with
    manifests := evictTo d.order 2048 (s.manifests.len + 1)
      (s.manifests.insert contentId manifest)
    merkleProofs := evictTo d.order 8192
      (s.merkleProofs.len + chunks.length) merkleProofs
    storageKeys := s.storageKeys.insert contentId d.masterKey
    chunkMetadata := chunks.foldl
      (fun m c => m.insert c.id (ChunkMetadata.fresh d.now))
      s.chunkMetadata
    transport := { s.transport with
      chunkHolder := holder
      storageCapacity := s.transport.storageCapacity.reconcile
        holder.totalBytes
      leaseManager := s.transport.leaseManager.registerOwnedContent
        contentId d.masterKey (chunks.map EncryptedChunk.id ++ [em.2]) } }

/-- The owner's key is kept to sign heartbeats with. -/
def keepKeypair (P : Prims) (d : PublishDraws) (s : RunnerState) :
    RunnerState :=
  { s with
    contentKeypairs := s.contentKeypairs.insert
      (contentIdFromPublic P (P.edPublic d.contentSk)) d.contentSk }

/-- `publish_content` on a full node. The content key is kept even when
a later step fails. -/
def publishContent (P : Prims) (rs : ErasureCode) (json : Json)
    (d : PublishDraws) (fileData : List UInt8) (s : RunnerState) :
    Except StorageError (ContentId × ContentManifest × Bytes 32)
      × RunnerState :=
  match prepareContent P rs d fileData with
  | .error e => (.error e, keepKeypair P d s)
  | .ok r =>
      (.ok (contentIdFromPublic P (P.edPublic d.contentSk), r.2,
          P.edPublic d.contentSk),
        storeContent P json d r.1 r.2 (keepKeypair P d s))

-- ========= retrieval

/-- The errors `retrieve_content` returns, by their texts. -/
inductive RetrieveError
  /-- "No known peers to request manifest from" -/
  | noKnownPeers
  /-- the reply session could not be opened -/
  | noReplySession
  /-- "No hybrid-capable peers for retrieval" -/
  | noHybridPeers
  /-- "Timeout waiting for manifest" -/
  | manifestTimeout
  /-- "Manifest not found on peer" -/
  | manifestNotFound
  /-- "Manifest missing master key" -/
  | missingMasterKey
  /-- "Local shards incomplete" -/
  | localIncomplete
  /-- "Failed to decrypt manifest" -/
  | manifestFailed (e : StorageError)
  /-- "Assemble failed" -/
  | assembleFailed (e : StorageError)
deriving DecidableEq

/-- What a retrieval meets outside the node. -/
structure RetrieveEnv where
  peersKnown : Bool
  replySession : Bool
  hybridPeers : Bool
  /-- what other tasks do while the manifest is awaited -/
  awaitManifest : RunnerState → RunnerState
  /-- what other tasks do while shards are awaited -/
  awaitShards : RunnerState → RunnerState
  order : IterOrder ChunkId

/-- `decrypt_manifest_bytes`: the JSON form, else a raw ciphertext under
the zero nonce. -/
def decryptManifestBytes (P : Prims) (json : Json) (raw : List UInt8)
    (publicKey : Bytes 32) : Except RetrieveError ContentManifest :=
  let em := (json.toEncrypted raw).getD ⟨raw, Bytes.zero 12⟩
  match decryptManifest P json em publicKey with
  | .ok manifest => .ok manifest
  | .error e => .error (.manifestFailed e)

/-- `decrypt_manifest_response`: a chunk response, else the bytes. -/
def decryptManifestResponse (P : Prims) (json : Json) (raw : List UInt8)
    (publicKey : Bytes 32) : Except RetrieveError ContentManifest :=
  match json.toResponse raw with
  | some response =>
      if !response.found then .error .manifestNotFound
      else decryptManifestBytes P json response.chunkData publicKey
  | none => decryptManifestBytes P json raw publicKey

/-- The master key a manifest carries, if it has 32 bytes. -/
def manifestMaster (manifest : ContentManifest) :
    Except RetrieveError SymmetricKey :=
  if manifest.encryptedMasterKey.length ≠ 32 then .error .missingMasterKey
  else .ok (Bytes.ofList 32 manifest.encryptedMasterKey)

/-- Record every pending chunk that the holder has. -/
def recordHeld (holder : ChunkHolder) (ids : List ChunkId)
    (r : ContentRetriever) : ContentRetriever :=
  ids.foldl (fun r id =>
    match holder.getChunk id with
    | some data => (r.recordChunk ⟨id, data⟩).2
    | none => r) r

/-- Start the shared retriever on a manifest and feed it from the
holder. -/
def collectLocal (env : RetrieveEnv) (manifest : ContentManifest)
    (masterKey : SymmetricKey) (s : RunnerState) : RunnerState :=
  let r := s.contentRetriever.startRetrieval manifest masterKey
  { s with
    contentRetriever := recordHeld s.transport.chunkHolder
      (env.order.iter r.pending.keys) r }

/-- `assemble_from_manifest`. Each chunk that is pending is looked up under
the lock of the chunk holder: for a caller that has it locked there is no
result. -/
def assembleFromManifest (P : Prims) (env : RetrieveEnv)
    (holderLocked : Bool) (manifest : ContentManifest) (s : RunnerState) :
    Option (Except RetrieveError (List UInt8)) × RunnerState :=
  match manifestMaster manifest with
  | .error e => (some (.error e), s)
  | .ok masterKey =>
      let r := s.contentRetriever.startRetrieval manifest masterKey
      if holderLocked && r.pending.len != 0 then
        (none, { s with contentRetriever := r })
      else
        let s := collectLocal env manifest masterKey s
        if s.contentRetriever.isComplete then
          match s.contentRetriever.assemble P with
          | .error e => (some (.error (.assembleFailed e)), s)
          | .ok out =>
              (some (.ok out),
                { s with contentRetriever := ContentRetriever.new })
        else (some (.error .localIncomplete), s)

/-- The shards by manifest position, as far as they were received. -/
def snapshot (manifest : ContentManifest) (r : ContentRetriever) :
    List (Option EncryptedChunk) :=
  manifest.chunkIds.map r.received.get

def fetchShards (env : RetrieveEnv) (manifest : ContentManifest)
    (s : RunnerState) :
    Except RetrieveError (List (Option EncryptedChunk)) × RunnerState :=
  match manifestMaster manifest with
  | .error e => (.error e, s)
  | .ok masterKey =>
      let s := collectLocal env manifest masterKey s
      let s :=
        if s.contentRetriever.isComplete then s else env.awaitShards s
      (.ok (snapshot manifest s.contentRetriever),
        { s with contentRetriever := ContentRetriever.new })

/-- `fetch_and_assemble`: a retriever of its own, fed with the shards. -/
def fetchAndAssemble (P : Prims) (env : RetrieveEnv)
    (manifest : ContentManifest) (s : RunnerState) :
    Except RetrieveError (List UInt8) × RunnerState :=
  match fetchShards env manifest s with
  | (.error e, s) => (.error e, s)
  | (.ok shards, s) =>
      match manifestMaster manifest with
      | .error e => (.error e, s)
      | .ok masterKey =>
          let retriever :=
            (shards.filterMap id).foldl (fun r c => (r.recordChunk c).2)
              (ContentRetriever.new.startRetrieval manifest masterKey)
          match retriever.assemble P with
          | .ok out => (.ok out, s)
          | .error e => (.error (.assembleFailed e), s)

/-- The network path of `retrieve_content`. -/
def retrieveFromPeers (P : Prims) (json : Json) (env : RetrieveEnv)
    (publicKey : Bytes 32) (s : RunnerState) :
    Except RetrieveError (List UInt8) × RunnerState :=
  if !env.peersKnown then (.error .noKnownPeers, s)
  else if !env.replySession then (.error .noReplySession, s)
  else if !env.hybridPeers then (.error .noHybridPeers, s)
  else
    let contentId := contentIdFromPublic P publicKey
    let s := env.awaitManifest s
    match s.singleChunks.get contentId with
    | none => (.error .manifestTimeout, s)
    | some raw =>
        let s := { s with singleChunks := s.singleChunks.erase contentId }
        match decryptManifestResponse P json raw publicKey with
        | .error e => (.error e, s)
        | .ok manifest => fetchAndAssemble P env manifest s

/-- `retrieve_content`: the local copy if it assembles, else the peers.
The chunk holder stays locked during the local attempt. -/
def retrieveContent (P : Prims) (json : Json) (env : RetrieveEnv)
    (publicKey : Bytes 32) (s : RunnerState) :
    Option (Except RetrieveError (List UInt8)) × RunnerState :=
  let fromPeers := fun s =>
    let out := retrieveFromPeers P json env publicKey s
    (some out.1, out.2)
  match s.transport.chunkHolder.getChunk
      (contentIdFromPublic P publicKey) with
  | none => fromPeers s
  | some raw =>
      match decryptManifestBytes P json raw publicKey with
      | .error _ => fromPeers s
      | .ok manifest =>
          match assembleFromManifest P env true manifest s with
          | (none, s) => (none, s)
          | (some (.ok data), s) => (some (.ok data), s)
          | (some (.error _), s) => fromPeers s

end StaticNet
