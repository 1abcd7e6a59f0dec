/-
When a retrieval returns and leaves the shared retriever empty
(`retrieve_content` in `static-node/src/runner.rs`).

Asking the peers leaves nothing pending: `fetch_shards` puts a new
retriever in place on every path past its first check. The local attempt
before it starts the retriever on the manifest of the holder and then
waits for the holder's lock, which the retrieval has: it returns when the
manifest lists no chunk and in no other case, and the ids it has put into
the retriever stay pending. What matters of the retriever is the set of
ids that are pending: starting adds the manifest's, recording takes away
the chunk's.
-/
import StaticNet.Content.RoundTrip

namespace StaticNet

-- ==== a finished retrieval

/-- The manifest that the local attempt starts on. -/
def localManifest (P : Prims) (json : Json) (publicKey : Bytes 32)
    (holder : ChunkHolder) : Option ContentManifest :=
  match holder.getChunk (contentIdFromPublic P publicKey) with
  | none => none
  | some raw =>
      match decryptManifestBytes P json raw publicKey with
      | .error _ => none
      | .ok manifest =>
          if manifest.encryptedMasterKey.length = 32 then some manifest
          else none

/-- The chunks that it looks up. -/
def locallyListed (P : Prims) (json : Json) (publicKey : Bytes 32)
    (holder : ChunkHolder) : List ChunkId :=
  match localManifest P json publicKey holder with
  | none => []
  | some manifest => manifest.chunkIds

/-- What other tasks do to the retriever while the manifest is awaited:
they record responses. -/
def RetrieveEnv.Records (env : RetrieveEnv) : Prop :=
  ∀ s, ∃ chunks : List EncryptedChunk,
    (env.awaitManifest s).contentRetriever
      = chunks.foldl (fun r c => (r.recordChunk c).2) s.contentRetriever

/-- A retrieval returns, and nothing is pending. -/
def Released (P : Prims) (json : Json) (env : RetrieveEnv)
    (publicKey : Bytes 32) (s : RunnerState) : Prop :=
  (∃ result, (retrieveContent P json env publicKey s).1 = some result)
    ∧ (retrieveContent P json env publicKey s).2.contentRetriever.pending.len
      = 0

-- ======= pending ids

namespace ContentRetriever

variable {r : ContentRetriever}

/-- A recorded chunk is no longer pending. -/
theorem keys_recordChunk (c : EncryptedChunk) :
    (r.recordChunk c).2.pending.keys = r.pending.keys.erase c.id := by
  rw [recordChunk]
  cases hc : r.pending.contains c.id with
  | true =>
      rw [if_pos rfl]
      rfl
  | false =>
      have hnot : c.id ∉ r.pending.keys := by
        intro hmem
        rw [FMap.mem_keys_iff, ← FMap.contains_eq_true, hc] at hmem
        cases hmem
      rw [if_neg (by decide), Finset.erase_eq_of_notMem hnot]

/-- Recording makes nothing pending. -/
theorem keys_recordAll_subset (chunks : List EncryptedChunk) :
    (chunks.foldl (fun r c => (r.recordChunk c).2) r).pending.keys
      ⊆ r.pending.keys := by
  induction chunks generalizing r with
  | nil => exact Finset.Subset.refl _
  | cons c chunks ih =>
      rw [List.foldl_cons]
      refine ih.trans ?_
      rw [keys_recordChunk]
      exact Finset.erase_subset _ _

end ContentRetriever

theorem RetrieveEnv.Records.empty {env : RetrieveEnv} (h : env.Records)
    {s : RunnerState} (hidle : s.contentRetriever.pending.keys = ∅) :
    (env.awaitManifest s).contentRetriever.pending.keys = ∅ := by
  obtain ⟨chunks, hchunks⟩ := h s
  rw [hchunks, ← Finset.subset_empty, ← hidle]
  exact ContentRetriever.keys_recordAll_subset chunks

-- ======== the phases

section Phases

variable {P : Prims} {json : Json} {env : RetrieveEnv}
  {publicKey : Bytes 32} {s : RunnerState}

/-- Fetching shards empties the retriever, unless the manifest carries
no key. -/
theorem keys_fetchAndAssemble (manifest : ContentManifest) :
    (fetchAndAssemble P env manifest s).2.contentRetriever.pending.keys
      = if manifest.encryptedMasterKey.length = 32 then ∅
        else s.contentRetriever.pending.keys := by
  rw [fetchAndAssemble, fetchShards]
  by_cases hlen : manifest.encryptedMasterKey.length = 32
  · have hmaster : manifestMaster manifest
        = .ok (Bytes.ofList 32 manifest.encryptedMasterKey) := by
      rw [manifestMaster, if_neg (not_not.2 hlen)]
    rw [hmaster, if_pos hlen]
    dsimp only
    cases ContentRetriever.assemble P _ with
    | ok out => rfl
    | error e => rfl
  · have hmaster : manifestMaster manifest = .error .missingMasterKey := by
      rw [manifestMaster, if_pos hlen]
    rw [hmaster, if_neg hlen]

/-- Asking the peers with nothing pending leaves nothing pending. -/
theorem keys_retrieveFromPeers (hrecords : env.Records)
    (hidle : s.contentRetriever.pending.keys = ∅) :
    (retrieveFromPeers P json env publicKey s).2.contentRetriever.pending.keys
      = ∅ := by
  have hwait := hrecords.empty hidle
  unfold retrieveFromPeers
  split
  · exact hidle
  split
  · exact hidle
  split
  · exact hidle
  dsimp only
  split
  next => exact hwait
  next raw _ =>
    cases decryptManifestResponse P json raw publicKey with
    | error e => exact hwait
    | ok manifest =>
        dsimp only
        rw [keys_fetchAndAssemble]
        split
        · rfl
        · exact hwait

/-- The local attempt on a manifest that lists no chunk returns, with
nothing pending. -/
theorem assembleFromManifest_unlisted (P : Prims) (env : RetrieveEnv)
    {manifest : ContentManifest}
    (hidle : s.contentRetriever.pending.keys = ∅)
    (hids : manifest.chunkIds = []) (holderLocked : Bool) :
    ∃ result s', assembleFromManifest P env holderLocked manifest s
        = (some result, s')
      ∧ s'.contentRetriever.pending.keys = ∅ := by
  unfold assembleFromManifest
  cases manifestMaster manifest with
  | error e => exact ⟨_, _, rfl, hidle⟩
  | ok masterKey =>
      have hkeys : (s.contentRetriever.startRetrieval manifest
          masterKey).pending.keys = ∅ := by
        rw [ContentRetriever.keys_startRetrieval, hidle, hids]
        rfl
      have hiter : env.order.iter (s.contentRetriever.startRetrieval
          manifest masterKey).pending.keys = [] := by
        refine List.eq_nil_iff_forall_not_mem.2 fun id hid => ?_
        rw [env.order.mem_iter, hkeys] at hid
        cases hid
      have hfree : ¬ (holderLocked && (s.contentRetriever.startRetrieval
          manifest masterKey).pending.len != 0) = true := by
        unfold FMap.len
        rw [hkeys, Bool.and_eq_true]
        exact fun h => Bool.false_ne_true h.2
      have hlocal : (collectLocal env manifest masterKey
          s).contentRetriever.pending.keys = ∅ := by
        unfold collectLocal
        dsimp only
        rw [hiter]
        exact hkeys
      dsimp only
      rw [if_neg hfree]
      split
      · split
        · exact ⟨_, _, rfl, hlocal⟩
        · exact ⟨_, _, rfl, rfl⟩
      · exact ⟨_, _, rfl, hlocal⟩

end Phases

-- ===== the retrieval

section Released

variable {P : Prims} {json : Json} {env : RetrieveEnv}
  {publicKey : Bytes 32} {s : RunnerState}

/-- A retrieval that goes on to the peers. -/
theorem released_of_peers (hrecords : env.Records) {s' : RunnerState}
    (hidle : s'.contentRetriever.pending.keys = ∅)
    (h : retrieveContent P json env publicKey s
      = (some (retrieveFromPeers P json env publicKey s').1,
        (retrieveFromPeers P json env publicKey s').2)) :
    Released P json env publicKey s := by
  refine ⟨⟨_, congrArg Prod.fst h⟩, ?_⟩
  rw [h]
  exact Finset.card_eq_zero.2 (keys_retrieveFromPeers hrecords hidle)

/-- Whoever starts on a manifest of the holder. -/
theorem localManifest_eq_some {manifest : ContentManifest}
    (h : localManifest P json publicKey s.transport.chunkHolder
      = some manifest) :
    ∃ raw, s.transport.chunkHolder.getChunk
        (contentIdFromPublic P publicKey) = some raw
      ∧ decryptManifestBytes P json raw publicKey = .ok manifest
      ∧ manifestMaster manifest
        = .ok (Bytes.ofList 32 manifest.encryptedMasterKey) := by
  unfold localManifest at h
  cases hget : s.transport.chunkHolder.getChunk
      (contentIdFromPublic P publicKey) with
  | none =>
      rw [hget] at h
      cases h
  | some raw =>
      rw [hget] at h
      dsimp only at h
      cases hdec : decryptManifestBytes P json raw publicKey with
      | error e =>
          rw [hdec] at h
          cases h
      | ok m =>
          rw [hdec] at h
          dsimp only at h
          split at h
          next hlen =>
            cases h
            refine ⟨raw, rfl, hdec, ?_⟩
            rw [manifestMaster, if_neg (not_not.2 hlen)]
          next => cases h

/-- Without such a manifest the peers are asked. -/
theorem released_of_no_manifest (hrecords : env.Records)
    (hidle : s.contentRetriever.pending.keys = ∅)
    (h : localManifest P json publicKey s.transport.chunkHolder = none) :
    Released P json env publicKey s := by
  refine released_of_peers hrecords hidle ?_
  unfold localManifest at h
  unfold retrieveContent
  cases hget : s.transport.chunkHolder.getChunk
      (contentIdFromPublic P publicKey) with
  | none => rfl
  | some raw =>
      rw [hget] at h
      dsimp only at h ⊢
      cases hdec : decryptManifestBytes P json raw publicKey with
      | error e => rfl
      | ok m =>
          rw [hdec] at h
          dsimp only at h ⊢
          split at h
          next => cases h
          next hlen =>
            have hmaster : manifestMaster m = .error .missingMasterKey := by
              rw [manifestMaster, if_pos hlen]
            rw [assembleFromManifest, hmaster]

/-- On a manifest without chunks the local attempt returns. -/
theorem released_of_unlisted (hrecords : env.Records)
    (hidle : s.contentRetriever.pending.keys = ∅)
    {manifest : ContentManifest}
    (h : localManifest P json publicKey s.transport.chunkHolder
      = some manifest) (hids : manifest.chunkIds = []) :
    Released P json env publicKey s := by
  obtain ⟨raw, hget, hdec, -⟩ := localManifest_eq_some h
  obtain ⟨result, s', hlocal, hidle'⟩ :=
    assembleFromManifest_unlisted P env hidle hids true
  cases result with
  | error e =>
      refine released_of_peers hrecords hidle' ?_
      unfold retrieveContent
      rw [hget]
      dsimp only
      rw [hdec]
      dsimp only
      rw [hlocal]
  | ok data =>
      have hout : retrieveContent P json env publicKey s
          = (some (.ok data), s') := by
        unfold retrieveContent
        rw [hget]
        dsimp only
        rw [hdec]
        dsimp only
        rw [hlocal]
      refine ⟨⟨_, congrArg Prod.fst hout⟩, ?_⟩
      rw [hout]
      exact Finset.card_eq_zero.2 hidle'

/-- On any other it waits for ever, with the chunks pending. -/
theorem retrieveContent_listed (env : RetrieveEnv)
    {manifest : ContentManifest}
    (h : localManifest P json publicKey s.transport.chunkHolder
      = some manifest) (hids : manifest.chunkIds ≠ []) :
    ∃ masterKey, retrieveContent P json env publicKey s
      = (none, { s with contentRetriever :=
          s.contentRetriever.startRetrieval manifest masterKey }) := by
  obtain ⟨raw, hget, hdec, hmaster⟩ := localManifest_eq_some h
  refine ⟨Bytes.ofList 32 manifest.encryptedMasterKey, ?_⟩
  unfold retrieveContent
  rw [hget]
  dsimp only
  rw [hdec]
  dsimp only
  rw [assembleFromManifest_locked hmaster hids]

end Released

/-- A retrieval that starts with nothing pending returns with nothing
pending exactly when the holder has no manifest that the local attempt
starts on, or that manifest lists no chunk. -/
theorem retrieval_releases_iff (P : Prims) (json : Json)
    (env : RetrieveEnv) (publicKey : Bytes 32) (s : RunnerState)
    (hidle : s.contentRetriever.pending.len = 0)
    (hrecords : env.Records) :
    Released P json env publicKey s
      ↔ locallyListed P json publicKey s.transport.chunkHolder = [] := by
  have hkeys := Finset.card_eq_zero.1 hidle
  unfold locallyListed
  cases hlocal : localManifest P json publicKey
      s.transport.chunkHolder with
  | none =>
      exact iff_of_true (released_of_no_manifest hrecords hkeys hlocal) rfl
  | some manifest =>
      constructor
      · rintro ⟨⟨result, hreturns⟩, -⟩
        by_contra hids
        obtain ⟨masterKey, hwaits⟩ :=
          retrieveContent_listed env hlocal hids
        rw [hwaits] at hreturns
        cases hreturns
      · exact released_of_unlisted hrecords hkeys hlocal

-- ==== a chunk evicted

section Stored

variable (manifest : ContentManifest) (publicKey : Bytes 32)
  (nonce : NonceBytes)

/-- The bytes under which a manifest is stored. -/
def storedManifest : List UInt8 :=
  unaryJson.ofEncrypted
    (encryptManifest .plain unaryJson manifest publicKey nonce).1

/-- A stored manifest opens. -/
theorem decryptManifestBytes_stored :
    decryptManifestBytes .plain unaryJson
        (storedManifest manifest publicKey nonce) publicKey
      = .ok manifest :=
  decryptManifestBytes_published
    (plain_publicationLaws smallDraws smallFile_numChunks) publicKey nonce
    manifest

/-- A holder of nothing but that. -/
def manifestHolder : ChunkHolder :=
  ChunkHolder.new.addChunk (contentIdFromPublic .plain publicKey)
    (storedManifest manifest publicKey nonce)
    (contentIdFromPublic .plain publicKey)

/-- The local attempt starts on it. -/
theorem localManifest_manifestHolder
    (hlen : manifest.encryptedMasterKey.length = 32) :
    localManifest .plain unaryJson publicKey
        (manifestHolder manifest publicKey nonce) = some manifest := by
  have hget : (manifestHolder manifest publicKey nonce).getChunk
      (contentIdFromPublic .plain publicKey)
      = some (storedManifest manifest publicKey nonce) :=
    FMap.get_insert_self _ _ _
  rw [localManifest, hget]
  simp only [decryptManifestBytes_stored, if_pos hlen]

end Stored

/-- A manifest of one chunk. -/
def evictedManifest : ContentManifest where
  contentId := contentIdFromPublic .plain (Bytes.fill 32 1)
  encryptedMasterKey := List.replicate 32 2
  chunkIds := [Bytes.fill 32 9]
  originalSize := 3
  dataShards := 1
  parityShards := 1
  nonce := Bytes.fill 12 3
  segmentHashes := []

/-- A node that still has the manifest of its content, and no longer the
chunk. -/
def evictedRunner : RunnerState :=
  { blankRunner with
    transport :=
      { blankRunner.transport with
        chunkHolder := manifestHolder evictedManifest (Bytes.fill 32 1)
          (Bytes.fill 12 4) } }

/-- A manifest arrives and one chunk of another content is recorded. -/
def answeringEnv : RetrieveEnv :=
  { silentEnv true with
    awaitManifest := fun s =>
      { s with
        contentRetriever :=
          (s.contentRetriever.recordChunk ⟨Bytes.fill 32 8, []⟩).2
        singleChunks := s.singleChunks.insert
          (contentIdFromPublic .plain (Bytes.fill 32 1))
          (storedManifest evictedManifest (Bytes.fill 32 1)
            (Bytes.fill 12 4)) } }

theorem answeringEnv_records : answeringEnv.Records :=
  fun _ => ⟨[⟨Bytes.fill 32 8, []⟩], rfl⟩

/-- Content that the node does not hold: its manifest comes from the
peers, its chunk does not, and the retriever is released. -/
theorem retrieval_releases_unknown :
    Released .plain unaryJson answeringEnv (Bytes.fill 32 1) blankRunner :=
  (retrieval_releases_iff .plain unaryJson answeringEnv (Bytes.fill 32 1)
    blankRunner rfl answeringEnv_records).2 rfl

/-- A node that holds the manifest, and not its chunk: the retrieval waits
for ever, with the chunk pending. -/
theorem evicted_waits (env : RetrieveEnv) :
    (retrieveContent .plain unaryJson env (Bytes.fill 32 1)
        evictedRunner).1 = none
      ∧ (retrieveContent .plain unaryJson env (Bytes.fill 32 1)
        evictedRunner).2.contentRetriever.pending.len ≠ 0 := by
  have hlocal : localManifest .plain unaryJson (Bytes.fill 32 1)
      evictedRunner.transport.chunkHolder = some evictedManifest :=
    localManifest_manifestHolder evictedManifest _ _ List.length_replicate
  obtain ⟨masterKey, hwaits⟩ := retrieveContent_listed env hlocal
    (List.cons_ne_nil _ _)
  rw [hwaits]
  refine ⟨rfl, fun hnone => ?_⟩
  have hkeys := Finset.card_eq_zero.1 hnone
  dsimp only at hkeys
  rw [ContentRetriever.keys_startRetrieval] at hkeys
  have hid : Bytes.fill 32 9 ∈ evictedRunner.contentRetriever.pending.keys
      ∪ evictedManifest.chunkIds.toFinset :=
    Finset.mem_union_right _ (List.mem_toFinset.2 List.mem_cons_self)
  rw [hkeys] at hid
  cases hid

/-- Not every retrieval that starts with nothing pending ends so. -/
theorem evicted_stays_pending :
    ¬ ∀ (publicKey : Bytes 32) (env : RetrieveEnv) (s : RunnerState),
      env.Records → s.contentRetriever.pending.len = 0 →
      Released .plain unaryJson env publicKey s := by
  intro h
  have hreleased := h (Bytes.fill 32 1) answeringEnv evictedRunner
    answeringEnv_records rfl
  exact (evicted_waits answeringEnv).2 hreleased.2

end StaticNet
