/-
Publishing and then retrieving.

# Where it breaks

`retrieve_content` finds the manifest of the publication in the chunk
holder and keeps the holder locked while it assembles the content. The
assembly locks it again for the first chunk of the manifest, and there is
always one: the retrieval waits for itself (`retrieveContent_waits`).

The manifest lists data and parity shards alike, and `assemble` hands all
of them to `decrypt_file`, which decrypts each under the key and nonce of
its position. A parity shard was never encrypted: at position K, under key
and nonce number K, nothing was. So an AEAD that opens only what was sealed
refuses there, and no set of obtained shards assembles. There is always at
least one parity shard, so this is every file, a single chunk included.

# The argument

`PublicationLaws` says of the AEAD what it does to the shards of the one
publication: at each position only the chunk that was sealed there opens.
`decryptFrom_past_data` is the loop of `decrypt_file` reaching position K;
`assemble_fails` is the retriever.
-/
import StaticNet.Content.Erasure
import StaticNet.Content.Files
import StaticNet.Content.Runner
import StaticNet.Swap.Run
import Mathlib.Logic.Equiv.List

namespace StaticNet

-- ======= assumptions

/-- The shards of a publication; none when it fails. -/
def publishedShards (P : Prims) (rs : ErasureCode) (d : PublishDraws)
    (fileData : List UInt8) : List EncryptedChunk :=
  match prepareContent P rs d fileData with
  | .error _ => []
  | .ok r => r.1

/-- The third-party behaviour the results rest on: decryption inverts
encryption, and of the shards of the publication only the chunk that was
sealed under the key and nonce of a position opens there; JSON
round-trips. -/
structure PublicationLaws (P : Prims) (rs : ErasureCode) (json : Json)
    (d : PublishDraws) (fileData : List UInt8) : Prop where
  aead : P.AeadCorrect
  sealed : ∀ i < (publishedShards P rs d fileData).length,
    ∀ c ∈ publishedShards P rs d fileData, ∀ plaintext,
      P.decrypt (chunkKey P d.masterKey i) (chunkNonce d.nonce i) c.data
        = some plaintext →
      i < numChunks fileData
        ∧ c.data = P.encrypt (chunkKey P d.masterKey i)
          (chunkNonce d.nonce i) (paddedChunk (filePiece fileData i))
  manifest_inv : ∀ m, json.toManifest (json.ofManifest m) = some m
  encrypted_inv : ∀ em, json.toEncrypted (json.ofEncrypted em) = some em

variable {P : Prims} {rs : ErasureCode} {json : Json} {d : PublishDraws}
  {fileData : List UInt8} {manifest : ContentManifest}
  {shards : List EncryptedChunk}

-- ====== the manifest

/-- What the manifest of a publication says about its shards. -/
structure Describes (d : PublishDraws) (fileData : List UInt8)
    (shards : List EncryptedChunk) (manifest : ContentManifest) :
    Prop where
  master : manifest.encryptedMasterKey = d.masterKey.toList
  nonce : manifest.nonce = d.nonce
  ids : manifest.chunkIds = shards.map EncryptedChunk.id
  past : numChunks fileData < shards.length

theorem parityCount_pos {n : Nat} (hn : 0 < n) : 0 < parityCount n := by
  unfold parityCount
  split <;> omega

/-- Erasure coding adds the parity shards. -/
theorem erasureEncode_total {chunks out : List EncryptedChunk} {k n : Nat}
    (h : erasureEncode P rs chunks k n = .ok out) :
    out.length = k + n := by
  unfold erasureEncode at h
  split at h
  next => cases h
  next hk =>
    rw [not_not] at hk
    dsimp only at h
    split at h
    next => cases h
    next shards henc =>
      cases h
      simp [hk]

/-- It stays within the bound of the field. -/
theorem erasureEncode_length {chunks out : List EncryptedChunk}
    {k n : Nat}
    (hle : ∀ k n shards out, rs.encode k n shards = .ok out → k + n ≤ 256)
    (h : erasureEncode P rs chunks k n = .ok out) :
    chunks.length = k ∧ out.length = k + n ∧ k + n ≤ 256 := by
  have htotal := erasureEncode_total h
  unfold erasureEncode at h
  split at h
  next => cases h
  next hk =>
    rw [not_not] at hk
    dsimp only at h
    split at h
    next => cases h
    next shards henc => exact ⟨hk, htotal, hle k n _ _ henc⟩

theorem prepareContent_describes
    (h : prepareContent P rs d fileData = .ok (shards, manifest)) :
    Describes d fileData shards manifest := by
  unfold prepareContent at h
  cases henc : encryptFile P d.masterKey d.nonce fileData with
  | error e =>
      rw [henc] at h
      cases h
  | ok r =>
      obtain ⟨raw, m⟩ := r
      have hraw := encryptFile_length henc
      rw [henc] at h
      change (do
        let cs ← erasureEncode P rs raw raw.length (parityCount raw.length)
        pure (cs, _)) = _ at h
      cases hcode : erasureEncode P rs raw raw.length
          (parityCount raw.length) with
      | error e =>
          rw [hcode] at h
          cases h
      | ok cs =>
          rw [hcode] at h
          cases h
          have hlen := erasureEncode_total hcode
          have hpos := parityCount_pos (numChunks_pos fileData)
          rw [hraw] at hlen
          exact ⟨rfl, rfl, rfl, by omega⟩

-- ====== the assembly

/-- Nothing was sealed at the first parity position. -/
theorem decryptChunk_parity (laws : PublicationLaws P rs json d fileData)
    (hpast : numChunks fileData < (publishedShards P rs d fileData).length)
    {chunk : EncryptedChunk}
    (hchunk : chunk ∈ publishedShards P rs d fileData) :
    decryptChunk P d.masterKey d.nonce (numChunks fileData) chunk
      = .error .decryptionFailed := by
  unfold decryptChunk
  cases hopen : P.decrypt (chunkKey P d.masterKey (numChunks fileData))
      (chunkNonce d.nonce (numChunks fileData)) chunk.data with
  | none => rfl
  | some plaintext =>
      have hdata := (laws.sealed _ hpast chunk hchunk plaintext hopen).1
      exact absurd hdata (Nat.lt_irrefl _)

/-- The loop never gets past the data positions. -/
theorem decryptFrom_past_data (laws : PublicationLaws P rs json d fileData)
    (hpast : numChunks fileData < (publishedShards P rs d fileData).length)
    (size i : Nat) (chunks : List EncryptedChunk) (result : List UInt8)
    (hchunks : ∀ c ∈ chunks, c ∈ publishedShards P rs d fileData)
    (hi : i ≤ numChunks fileData)
    (hlen : numChunks fileData < i + chunks.length) :
    ∃ e, decryptFrom P d.masterKey d.nonce size i chunks result
      = .error e := by
  induction chunks generalizing i result with
  | nil => simp at hlen; omega
  | cons chunk rest ih =>
      rw [List.length_cons] at hlen
      rw [decryptFrom]
      by_cases heq : i = numChunks fileData
      · rw [heq, decryptChunk_parity laws hpast
          (hchunks chunk List.mem_cons_self)]
        exact ⟨_, rfl⟩
      · cases decryptChunk P d.masterKey d.nonce i chunk with
        | error e => exact ⟨e, rfl⟩
        | ok plaintext =>
            exact ih (i + 1) _
              (fun c hc => hchunks c (List.mem_cons_of_mem _ hc))
              (by omega) (by omega)

/-- The retriever is working on this publication, and has received
nothing but shards of it. -/
structure RetrieverFor (d : PublishDraws) (manifest : ContentManifest)
    (shards : List EncryptedChunk) (r : ContentRetriever) : Prop where
  manifest_eq : r.manifest = some manifest
  master_eq : r.masterKey = some d.masterKey
  nonce_eq : r.nonce = some d.nonce
  received : ∀ id c, r.received.get id = some c → c ∈ shards

/-- What a traversal of a list gives: one result each. -/
theorem option_mapM_some {α β : Type} {f : α → Option β} {l : List α}
    {out : List β} (h : l.mapM f = some out) :
    out.length = l.length ∧ ∀ b ∈ out, ∃ a, f a = some b := by
  induction l generalizing out with
  | nil =>
      rw [List.mapM_nil] at h
      cases h
      exact ⟨rfl, fun b hb => by cases hb⟩
  | cons a l ih =>
      rw [List.mapM_cons] at h
      cases ha : f a with
      | none =>
          rw [ha] at h
          cases h
      | some b =>
          cases hl : l.mapM f with
          | none =>
              rw [ha, hl] at h
              cases h
          | some bs =>
              rw [ha, hl] at h
              cases h
              obtain ⟨hlen, hall⟩ := ih hl
              refine ⟨by rw [List.length_cons, List.length_cons, hlen], ?_⟩
              intro x hx
              rcases List.mem_cons.1 hx with rfl | hx
              · exact ⟨a, ha⟩
              · exact hall x hx

/-- Whichever shards it has received, assembling fails. -/
theorem assemble_fails (laws : PublicationLaws P rs json d fileData)
    (hd : Describes d fileData (publishedShards P rs d fileData) manifest)
    {r : ContentRetriever}
    (hr : RetrieverFor d manifest (publishedShards P rs d fileData) r) :
    ∃ e, r.assemble P = .error e := by
  unfold ContentRetriever.assemble
  rw [hr.manifest_eq, hr.master_eq, hr.nonce_eq]
  dsimp only
  cases hall : manifest.chunkIds.mapM r.received.get with
  | none => exact ⟨_, rfl⟩
  | some chunks =>
      obtain ⟨hlen, hget⟩ := option_mapM_some hall
      rw [hd.ids, List.length_map] at hlen
      have hpast := hd.past
      refine decryptFrom_past_data laws hpast manifest.originalSize 0 chunks
        [] (fun c hc => ?_) (Nat.zero_le _) (by omega)
      obtain ⟨id, hid⟩ := hget c hc
      exact hr.received id c hid

-- ======== the runner

theorem RetrieverFor.recordChunk {r : ContentRetriever}
    (h : RetrieverFor d manifest shards r) {chunk : EncryptedChunk}
    (hchunk : chunk ∈ shards) :
    RetrieverFor d manifest shards (r.recordChunk chunk).2 := by
  unfold ContentRetriever.recordChunk
  split
  · refine ⟨h.manifest_eq, h.master_eq, h.nonce_eq, fun id c hget => ?_⟩
    rw [FMap.get_insert] at hget
    split at hget
    · rw [← Option.some.inj hget]
      exact hchunk
    · exact h.received id c hget
  · exact h

theorem RetrieverFor.recordAll {r : ContentRetriever}
    (h : RetrieverFor d manifest shards r) (chunks : List EncryptedChunk)
    (hchunks : ∀ c ∈ chunks, c ∈ shards) :
    RetrieverFor d manifest shards
      (chunks.foldl (fun r c => (r.recordChunk c).2) r) := by
  induction chunks generalizing r with
  | nil => exact h
  | cons chunk rest ih =>
      exact ih (h.recordChunk (hchunks chunk List.mem_cons_self))
        fun c hc => hchunks c (List.mem_cons_of_mem _ hc)

/-- A fresh retriever, started on the manifest. -/
theorem retrieverFor_start (hd : Describes d fileData shards manifest) :
    RetrieverFor d manifest shards
      (ContentRetriever.new.startRetrieval manifest d.masterKey) :=
  ⟨rfl, rfl, congrArg some hd.nonce, fun _ _ hget => by cases hget⟩

theorem manifestMaster_published
    (hd : Describes d fileData shards manifest) :
    manifestMaster manifest = .ok d.masterKey := by
  unfold manifestMaster
  rw [hd.master, Bytes.length_toList, Bytes.ofList_toList]
  rfl

/-- Starting on a manifest adds its chunks to what is pending. -/
theorem ContentRetriever.keys_startRetrieval {r : ContentRetriever}
    (manifest : ContentManifest) (masterKey : SymmetricKey) :
    (r.startRetrieval manifest masterKey).pending.keys
      = r.pending.keys ∪ manifest.chunkIds.toFinset := by
  have hfold : ∀ (ids : List ChunkId) (m : FMap ChunkId Bool),
      (ids.foldl (fun m id => m.insert id true) m).keys
        = m.keys ∪ ids.toFinset := by
    intro ids
    induction ids with
    | nil =>
        intro m
        rw [List.toFinset_nil, Finset.union_empty]
        rfl
    | cons id ids ih =>
        intro m
        rw [List.foldl_cons, ih, List.toFinset_cons, Finset.union_insert,
          ← Finset.insert_union]
        rfl
  exact hfold manifest.chunkIds r.pending

/-- A recorded chunk stays what the holder has. -/
theorem received_recordHeld {holder : ChunkHolder} {id : ChunkId}
    {data : List UInt8} (hheld : holder.getChunk id = some data)
    (ids : List ChunkId) {r : ContentRetriever}
    (h : r.received.get id = some ⟨id, data⟩
      ∨ (id ∈ ids ∧ r.pending.contains id = true)) :
    (recordHeld holder ids r).received.get id = some ⟨id, data⟩ := by
  induction ids generalizing r with
  | nil => exact h.resolve_right fun hin => by cases hin.1
  | cons other ids ih =>
      unfold recordHeld at ih ⊢
      rw [List.foldl_cons]
      by_cases hother : other = id
      · rw [hother, hheld]
        dsimp only
        refine ih (Or.inl ?_)
        unfold ContentRetriever.recordChunk
        split
        · exact FMap.get_insert_self _ _ _
        next hnot =>
          exact h.resolve_right fun hin => hnot hin.2
      · refine ih ?_
        have hin : id ∈ other :: ids → id ∈ ids := fun hmem =>
          (List.mem_cons.1 hmem).resolve_left (Ne.symm hother)
        cases holder.getChunk other with
        | none => exact h.imp_right fun hmem => ⟨hin hmem.1, hmem.2⟩
        | some bytes =>
            dsimp only
            unfold ContentRetriever.recordChunk
            split
            · refine h.imp (fun hget => ?_) fun hmem => ⟨hin hmem.1, ?_⟩
              · rw [← hget]
                exact FMap.get_insert_ne _ _ (Ne.symm hother)
              · rw [FMap.contains_eq_true] at hmem ⊢
                exact hmem.2.imp fun v hv =>
                  (FMap.get_erase_ne _ (Ne.symm hother)).trans hv
            · exact h.imp_right fun hmem => ⟨hin hmem.1, hmem.2⟩

/-- What the holder has is obtained where nothing else happens. -/
theorem fetchShards_held {env : RetrieveEnv} {s : RunnerState}
    (masterKey : SymmetricKey)
    (hmaster : manifestMaster manifest = .ok masterKey)
    (hidle : ∀ s, env.awaitShards s = s)
    (hheld : ∀ id ∈ manifest.chunkIds,
      (s.transport.chunkHolder.getChunk id).isSome = true) :
    (fetchShards env manifest s).1
      = .ok (manifest.chunkIds.map fun id =>
          (s.transport.chunkHolder.getChunk id).map fun data =>
            ⟨id, data⟩) := by
  unfold fetchShards
  rw [hmaster]
  simp only [hidle, ite_self]
  refine congrArg Except.ok (List.map_congr_left fun id hid => ?_)
  obtain ⟨data, hdata⟩ := Option.isSome_iff_exists.1 (hheld id hid)
  rw [hdata, Option.map_some]
  have hkeys : id ∈ (s.contentRetriever.startRetrieval manifest
      masterKey).pending.keys := by
    rw [ContentRetriever.keys_startRetrieval]
    exact Finset.mem_union_right _ (List.mem_toFinset.2 hid)
  refine received_recordHeld hdata _ (Or.inr ⟨?_, ?_⟩)
  · exact (env.order.mem_iter _ _).2 hkeys
  · exact (FMap.contains_eq_true _ _).2 ((FMap.mem_keys_iff _ _).1 hkeys)

/-- The shards obtained are shards of the publication, each at its
position. -/
def GenuineShards (shards : List EncryptedChunk)
    (obtained : List (Option EncryptedChunk)) : Prop :=
  ∀ (i : Nat) (c : EncryptedChunk), obtained[i]? = some (some c) →
    shards[i]? = some c

theorem fetchAndAssemble_fails
    (laws : PublicationLaws P rs json d fileData)
    (hd : Describes d fileData (publishedShards P rs d fileData) manifest)
    (env : RetrieveEnv) (s : RunnerState)
    {obtained : List (Option EncryptedChunk)}
    (hobtained : (fetchShards env manifest s).1 = .ok obtained)
    (hgenuine : GenuineShards (publishedShards P rs d fileData) obtained) :
    ∃ e, (fetchAndAssemble P env manifest s).1 = .error e := by
  unfold fetchAndAssemble
  cases hfetch : fetchShards env manifest s with
  | mk result s' =>
      rw [hfetch] at hobtained
      dsimp only at hobtained
      rw [hobtained, manifestMaster_published hd]
      dsimp only
      obtain ⟨e, he⟩ := assemble_fails laws hd
        ((retrieverFor_start hd).recordAll (obtained.filterMap id)
          fun c hc => by
            obtain ⟨x, hx, rfl⟩ := List.mem_filterMap.1 hc
            obtain ⟨i, hget⟩ := List.mem_iff_getElem?.1 hx
            exact List.mem_of_getElem? (hgenuine i c hget))
      rw [he]
      exact ⟨_, rfl⟩

/-- With a chunk to look up, the local attempt waits for the lock that its
caller holds. -/
theorem assembleFromManifest_locked {masterKey : SymmetricKey}
    (hmaster : manifestMaster manifest = .ok masterKey)
    (hids : manifest.chunkIds ≠ []) (env : RetrieveEnv)
    (s : RunnerState) :
    assembleFromManifest P env true manifest s
      = (none, { s with contentRetriever :=
          s.contentRetriever.startRetrieval manifest masterKey }) := by
  obtain ⟨id, hid⟩ := List.exists_mem_of_ne_nil _ hids
  have hpending : id ∈ (s.contentRetriever.startRetrieval manifest
      masterKey).pending.keys := by
    rw [ContentRetriever.keys_startRetrieval]
    exact Finset.mem_union_right _ (List.mem_toFinset.2 hid)
  have hlen := Finset.card_ne_zero_of_mem hpending
  unfold assembleFromManifest
  rw [hmaster]
  exact if_pos (by rw [Bool.true_and, bne_iff_ne]; exact hlen)

/-- The manifest of a publication opens with the content's key. -/
theorem decryptManifestBytes_published
    (laws : PublicationLaws P rs json d fileData) (publicKey : Bytes 32)
    (nonce : NonceBytes) (manifest : ContentManifest) :
    decryptManifestBytes P json
        (json.ofEncrypted (encryptManifest P json manifest publicKey nonce).1)
        publicKey
      = .ok manifest := by
  have hopen : decryptManifest P json
      (encryptManifest P json manifest publicKey nonce).1 publicKey
      = .ok manifest := by
    unfold decryptManifest encryptManifest Prims.decrypt Prims.encrypt
    rw [laws.aead.open_seal]
    dsimp only
    rw [laws.manifest_inv]
  unfold decryptManifestBytes
  rw [laws.encrypted_inv, Option.getD_some]
  dsimp only
  rw [hopen]

/-- A publication that succeeds: its shards, described by its manifest,
which is held under the content id. -/
theorem publishContent_published {s s' : RunnerState} {id : ContentId}
    {publicKey : Bytes 32}
    (h : publishContent P rs json d fileData s
      = (.ok (id, manifest, publicKey), s')) :
    id = contentIdFromPublic P publicKey
      ∧ Describes d fileData (publishedShards P rs d fileData) manifest
      ∧ s'.transport.chunkHolder.getChunk id = some (json.ofEncrypted
        (encryptManifest P json manifest publicKey d.manifestNonce).1) := by
  unfold publishContent at h
  cases hprep : prepareContent P rs d fileData with
  | error e =>
      rw [hprep] at h
      cases (Prod.mk.inj h).1
  | ok r =>
      rw [hprep] at h
      obtain ⟨hres, rfl⟩ := Prod.mk.inj h
      obtain ⟨rfl, hrest⟩ := Prod.mk.inj (Except.ok.inj hres)
      obtain ⟨rfl, rfl⟩ := Prod.mk.inj hrest
      refine ⟨rfl, ?_, ?_⟩
      · unfold publishedShards
        rw [hprep]
        exact prepareContent_describes hprep
      · -- the last chunk that is added has the content id
        unfold storeContent
        dsimp only
        split
        · exact FMap.get_insert_self _ _ _
        · rename_i heq
          rw [not_not] at heq
          rw [← heq]
          exact FMap.get_insert_self _ _ _

/-- As long as the node holds the manifest that its publication put
there, retrieving it waits for itself. -/
theorem retrieveContent_waits (laws : PublicationLaws P rs json d fileData)
    {publicKey : Bytes 32}
    (hd : Describes d fileData (publishedShards P rs d fileData) manifest)
    (env : RetrieveEnv) {s : RunnerState}
    (hheld : s.transport.chunkHolder.getChunk
      (contentIdFromPublic P publicKey) = some (json.ofEncrypted
        (encryptManifest P json manifest publicKey d.manifestNonce).1)) :
    (retrieveContent P json env publicKey s).1 = none := by
  have hids : manifest.chunkIds ≠ [] := by
    rw [hd.ids, Ne, List.map_eq_nil_iff]
    intro hnil
    have hpast := hd.past
    rw [hnil] at hpast
    exact Nat.not_lt_zero _ hpast
  unfold retrieveContent
  rw [hheld]
  dsimp only
  rw [decryptManifestBytes_published laws]
  dsimp only
  rw [assembleFromManifest_locked (manifestMaster_published hd) hids]

/-- No published file comes back. A retrieval by the content's key on the
node that published it never returns, as long as the node holds the
manifest, whatever else it holds and whatever the network does; and no set
of obtained shards of the publication assembles to the file. -/
theorem published_never_retrieved (P : Prims) (rs : ErasureCode)
    (json : Json) (d : PublishDraws) (fileData : List UInt8)
    (s s' : RunnerState) (id : ContentId) (manifest : ContentManifest)
    (publicKey : Bytes 32)
    (hpub : publishContent P rs json d fileData s
      = (.ok (id, manifest, publicKey), s'))
    (laws : PublicationLaws P rs json d fileData) :
    (∀ env later, later.transport.chunkHolder.getChunk id
          = s'.transport.chunkHolder.getChunk id →
        (retrieveContent P json env publicKey later).1 = none)
      ∧ ∀ env later obtained,
        (fetchShards env manifest later).1 = .ok obtained →
        GenuineShards (publishedShards P rs d fileData) obtained →
        (fetchAndAssemble P env manifest later).1 ≠ .ok fileData := by
  obtain ⟨rfl, hd, hheld⟩ := publishContent_published hpub
  constructor
  · intro env later hlater
    rw [hheld] at hlater
    exact retrieveContent_waits laws hd env hlater
  · intro env later obtained hobtained hgenuine hok
    obtain ⟨e, he⟩ :=
      fetchAndAssemble_fails laws hd env later hobtained hgenuine
    rw [he] at hok
    cases hok

-- ==== one chunk, concretely

/-- Chunk nonces of one base are told apart by their index. -/
theorem chunkNonce_inj {nonce : NonceBytes} {i j : Nat} (hi : i ≤ 256)
    (hj : j ≤ 256) (h : chunkNonce nonce i = chunkNonce nonce j) :
    i = j := by
  have hlen : ∀ i, (nonce.toList.take 4 ++ leBytes 8 i).length = 12 := by
    intro i
    simp
  have hlist := congrArg Bytes.toList h
  unfold chunkNonce at hlist
  rw [Bytes.toList_ofList (hlen i), Bytes.toList_ofList (hlen j)] at hlist
  exact leBytes_inj (by omega) (by omega) (List.append_cancel_left hlist)

/-- The transparent AEAD opens under no other nonce. -/
theorem Prims.plain_opens {k k' : SymmetricKey} {n n' : NonceBytes}
    {pt out : List UInt8}
    (h : Prims.plain.decrypt k n (Prims.plain.encrypt k' n' pt)
      = some out) : n = n' := by
  have htag : (plainTag k' n').length = 16 := by
    simp [plainTag]
  have hcut : (pt ++ plainTag k' n').length - 16 = pt.length := by
    rw [List.length_append, htag, Nat.add_sub_cancel]
  have htags : plainTag k' n' = plainTag k n := by
    by_contra hne
    simp only [Prims.decrypt, Prims.encrypt, Prims.plain, hcut,
      List.drop_left, if_neg hne] at h
    cases h
  have hlists := (List.append_inj htags (by
    rw [Bytes.length_toList, Bytes.length_toList])).1
  exact (Bytes.ext hlists).symm

/-- The only chunk of a short file. -/
def onlyChunk (P : Prims) (d : PublishDraws) (fileData : List UInt8) :
    EncryptedChunk :=
  let ciphertext := P.encrypt (chunkKey P d.masterKey 0)
    (chunkNonce d.nonce 0) (paddedChunk (filePiece fileData 0))
  ⟨P.blake3 ciphertext, ciphertext⟩

/-- The manifest of a short file: one chunk, listed twice. -/
def onlyManifest (P : Prims) (d : PublishDraws)
    (fileData : List UInt8) : ContentManifest where
  contentId := contentIdFromPublic P (P.edPublic d.contentSk)
  encryptedMasterKey := d.masterKey.toList
  chunkIds := [(onlyChunk P d fileData).id, (onlyChunk P d fileData).id]
  originalSize := fileData.length
  dataShards := 1
  parityShards := 1
  nonce := d.nonce
  segmentHashes := computeSegmentHashes P
    [onlyChunk P d fileData, onlyChunk P d fileData]

theorem prepareContent_single {P : Prims}
    (hlen : ∀ k n pt aad, (P.aeadSeal k n pt aad).length = pt.length + 16)
    (d : PublishDraws) {fileData : List UInt8}
    (hone : numChunks fileData = 1) :
    prepareContent P mirrorCode d fileData
      = .ok ([onlyChunk P d fileData, onlyChunk P d fileData],
          onlyManifest P d fileData) := by
  have hfile : (List.range (numChunks fileData)).mapM (fun i =>
      encryptChunk P d.masterKey d.nonce i (filePiece fileData i))
      = .ok [onlyChunk P d fileData] := by
    rw [hone, List.range_one, List.mapM_cons, List.mapM_nil,
      encryptChunk_ok hlen]
    rfl
  unfold prepareContent encryptFile
  rw [hfile]
  rfl

instance encodableUInt8 : Encodable UInt8 :=
  Encodable.ofLeftInverse UInt8.toNat UInt8.ofNat
    fun _ => UInt8.ofNat_toNat

instance (n : Nat) : Encodable (Bytes n) :=
  Encodable.ofLeftInverse Bytes.toList (Bytes.ofList n)
    Bytes.ofList_toList

instance : Encodable ContentManifest :=
  Encodable.ofLeftInverse
    (fun m => (m.contentId, m.encryptedMasterKey, m.chunkIds,
      m.originalSize, m.dataShards, m.parityShards, m.nonce,
      m.segmentHashes))
    (fun t => ⟨t.1, t.2.1, t.2.2.1, t.2.2.2.1, t.2.2.2.2.1,
      t.2.2.2.2.2.1, t.2.2.2.2.2.2.1, t.2.2.2.2.2.2.2⟩)
    fun _ => rfl

instance : Encodable EncryptedManifest :=
  Encodable.ofLeftInverse (fun m => (m.ciphertext, m.nonce))
    (fun t => ⟨t.1, t.2⟩) fun _ => rfl

/-- A textual form of manifests that reads back: a number in unary. -/
def unaryJson : Json where
  ofManifest m := List.replicate (Encodable.encode m) 0
  toManifest l := Encodable.decode l.length
  ofEncrypted m := List.replicate (Encodable.encode m) 0
  toEncrypted l := Encodable.decode l.length
  toResponse _ := none

theorem unaryJson_inv (m : ContentManifest) :
    unaryJson.toManifest (unaryJson.ofManifest m) = some m := by
  unfold unaryJson
  dsimp only
  rw [List.length_replicate, Encodable.encodek]

theorem unaryJson_encrypted (em : EncryptedManifest) :
    unaryJson.toEncrypted (unaryJson.ofEncrypted em) = some em := by
  unfold unaryJson
  dsimp only
  rw [List.length_replicate, Encodable.encodek]

theorem Prims.plain_seal (k : SymmetricKey) (n : NonceBytes)
    (pt aad : List UInt8) :
    (Prims.plain.aeadSeal k n pt aad).length = pt.length + 16 := by
  rw [Prims.plain_aeadCorrect.length_seal, Nat.add_comm]

/-- The two shards of a short file are the same. -/
theorem publishedShards_single (d : PublishDraws) {fileData : List UInt8}
    (hone : numChunks fileData = 1) :
    publishedShards .plain mirrorCode d fileData
      = [onlyChunk .plain d fileData, onlyChunk .plain d fileData] := by
  unfold publishedShards
  rw [prepareContent_single Prims.plain_seal d hone]

/-- The one chunk opens at its own position only. -/
theorem plain_publicationLaws (d : PublishDraws) {fileData : List UInt8}
    (hone : numChunks fileData = 1) :
    PublicationLaws .plain mirrorCode unaryJson d fileData where
  aead := Prims.plain_aeadCorrect
  sealed := by
    rw [publishedShards_single d hone, hone]
    intro i hi c hc plaintext hopen
    have hchunk : c = onlyChunk .plain d fileData := by
      rcases List.mem_pair.1 hc with rfl | rfl <;> rfl
    have hi' : i < 2 := hi
    have hnonce : chunkNonce d.nonce i = chunkNonce d.nonce 0 := by
      rw [hchunk] at hopen
      exact Prims.plain_opens hopen
    have hzero : i = 0 := chunkNonce_inj (by omega) (Nat.zero_le _) hnonce
    rw [hzero, hchunk]
    exact ⟨Nat.one_pos, rfl⟩
  manifest_inv := unaryJson_inv
  encrypted_inv := unaryJson_encrypted

/-- A file of one chunk is published. -/
theorem publish_single (d : PublishDraws) {fileData : List UInt8}
    (hone : numChunks fileData = 1) (s : RunnerState) :
    ∃ s', publishContent .plain mirrorCode unaryJson d fileData s
      = (.ok (contentIdFromPublic .plain (Prims.plain.edPublic d.contentSk),
          onlyManifest .plain d fileData,
          Prims.plain.edPublic d.contentSk), s') := by
  unfold publishContent
  rw [prepareContent_single Prims.plain_seal d hone]
  exact ⟨_, rfl⟩

/-- The draws of the concrete publication. -/
def smallDraws : PublishDraws where
  contentSk := Bytes.fill 32 1
  masterKey := Bytes.fill 32 2
  nonce := Bytes.fill 12 3
  manifestNonce := Bytes.fill 12 4
  now := 100
  order := IterOrder.bytewise

def smallFile : List UInt8 := [1, 2, 3]

theorem smallFile_numChunks : numChunks smallFile = 1 := by decide

/-- A node that has not published anything. -/
def blankRunner : RunnerState :=
  .new (freshNode (Bytes.fill 16 1) (Bytes.fill 32 1) ChunkHolder.new
    (8 * ENCRYPTED_CHUNK_SIZE))

/-- Nothing answers and nothing else happens. -/
def silentEnv (peersKnown : Bool) : RetrieveEnv where
  peersKnown := peersKnown
  replySession := true
  hybridPeers := true
  awaitManifest := id
  awaitShards := id
  order := IterOrder.bytewise

/-- A node that has the chunk of the small file. -/
def smallHolder : RunnerState :=
  let chunk := onlyChunk .plain smallDraws smallFile
  { blankRunner with
    transport := { blankRunner.transport with
      chunkHolder :=
        ChunkHolder.new.addChunk chunk.id chunk.data (Bytes.zero 32) } }

theorem smallHolder_obtained :
    (fetchShards (silentEnv false) (onlyManifest .plain smallDraws smallFile)
        smallHolder).1
      = .ok [some (onlyChunk .plain smallDraws smallFile),
          some (onlyChunk .plain smallDraws smallFile)] := by
  have hheld : smallHolder.transport.chunkHolder.getChunk
      (onlyChunk .plain smallDraws smallFile).id
      = some (onlyChunk .plain smallDraws smallFile).data :=
    FMap.get_insert_self _ _ _
  have hids : (onlyManifest .plain smallDraws smallFile).chunkIds
      = [(onlyChunk .plain smallDraws smallFile).id,
        (onlyChunk .plain smallDraws smallFile).id] := rfl
  rw [fetchShards_held smallDraws.masterKey ?_
    (fun _ => rfl) ?_, hids, List.map_cons, List.map_singleton, hheld]
  · rfl
  · unfold manifestMaster onlyManifest
    rw [Bytes.length_toList, Bytes.ofList_toList]
    rfl
  · intro id hid
    rw [hids] at hid
    rcases List.mem_pair.1 hid with rfl | rfl <;> rw [hheld] <;> rfl

theorem smallShards_genuine :
    GenuineShards (publishedShards .plain mirrorCode smallDraws smallFile)
      [some (onlyChunk .plain smallDraws smallFile),
        some (onlyChunk .plain smallDraws smallFile)] := by
  rw [publishedShards_single smallDraws smallFile_numChunks]
  intro i c hget
  match i with
  | 0 => exact Option.some.inj hget
  | 1 => exact Option.some.inj hget
  | n + 2 => cases hget

/-- The small file is published. Right after that the node waits for ever
when it retrieves it, and both shards do not assemble. -/
theorem published_never_retrieved_small :
    ∃ id m pk s', publishContent .plain mirrorCode unaryJson smallDraws
        smallFile blankRunner = (.ok (id, m, pk), s')
      ∧ (∀ env, (retrieveContent .plain unaryJson env pk s').1 = none)
      ∧ (fetchAndAssemble .plain (silentEnv false) m smallHolder).1
        ≠ .ok smallFile := by
  obtain ⟨s', hpub⟩ :=
    publish_single smallDraws smallFile_numChunks blankRunner
  have hlost := published_never_retrieved .plain mirrorCode unaryJson
    smallDraws smallFile blankRunner s' _ _ _ hpub
    (plain_publicationLaws smallDraws smallFile_numChunks)
  exact ⟨_, _, _, s', hpub, fun env => hlost.1 env s' rfl,
    hlost.2 _ _ _ smallHolder_obtained smallShards_genuine⟩

/-- Not every published file comes back, neither from the node that has
published it nor from its shards. -/
theorem smallFile_lost :
    (¬ ∀ (d : PublishDraws) (fileData : List UInt8) (s s' : RunnerState)
        (id : ContentId) (manifest : ContentManifest)
        (publicKey : Bytes 32) (env : RetrieveEnv),
      publishContent .plain mirrorCode unaryJson d fileData s
        = (.ok (id, manifest, publicKey), s') →
      (retrieveContent .plain unaryJson env publicKey s').1
        = some (.ok fileData))
      ∧ ¬ ∀ (d : PublishDraws) (fileData : List UInt8)
          (s s' later : RunnerState) (id : ContentId)
          (manifest : ContentManifest) (publicKey : Bytes 32)
          (env : RetrieveEnv) (obtained : List (Option EncryptedChunk)),
        publishContent .plain mirrorCode unaryJson d fileData s
          = (.ok (id, manifest, publicKey), s') →
        (fetchShards env manifest later).1 = .ok obtained →
        GenuineShards (publishedShards .plain mirrorCode d fileData) obtained →
        manifest.dataShards ≤ obtained.countP Option.isSome →
        (fetchAndAssemble .plain env manifest later).1 = .ok fileData := by
  have laws := plain_publicationLaws smallDraws smallFile_numChunks
  obtain ⟨s', hpub⟩ :=
    publish_single smallDraws smallFile_numChunks blankRunner
  obtain ⟨-, hd, hheld⟩ := publishContent_published hpub
  constructor
  · intro h
    have hback := h _ _ _ _ _ _ _ (silentEnv false) hpub
    rw [retrieveContent_waits laws hd _ hheld] at hback
    cases hback
  · intro h
    have hback := h _ _ _ _ smallHolder _ _ _ (silentEnv false) _ hpub
      smallHolder_obtained smallShards_genuine (by decide)
    obtain ⟨e, he⟩ := fetchAndAssemble_fails laws hd (silentEnv false)
      smallHolder smallHolder_obtained smallShards_genuine
    rw [he] at hback
    cases hback

end StaticNet
