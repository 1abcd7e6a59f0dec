/-
Publishing in every mode (`publish_content` and `publish_via_sponsor` in
`static-node/src/runner.rs`), and what a publication that fails leaves
behind.

Full and backup nodes store what they publish; a seed-only node prepays
one sponsor and keeps the key and the owned content. In every mode the
content key is kept before anything that can fail, and a seed-only node
has kept its manifest too when it finds out that it has no sponsor:
nothing is taken back (`failed_publish_traceless_iff`).

The JSON forms do not fail here: `serde_json` writes every value of
these types.
-/
import StaticNet.Accounting.Sponsor
import StaticNet.Content.RoundTrip

namespace StaticNet

-- ============= model

/-- The runner's state with the accounting that a prepayment is recorded
in. -/
structure PublisherState where
  runner : RunnerState
  accounting : AccountingState

/-- What publishing reads besides: the mode, the configured sponsor, the
order of the routing table, and the open connections in the order of
their table. -/
structure PublishEnv where
  mode : NodeMode
  sponsor : Option String
  nodeOrder : IterOrder NodeId
  connections : List NodeId

inductive PublishError
  | storage (e : StorageError)
  /-- "Seed-only node has no sponsor connection; configure --sponsor and
  connect first" -/
  | noSponsor
deriving DecidableEq

/-- The sponsor: the peer with the configured address, else the first
known peer, else the first connection. -/
def findSponsor (env : PublishEnv) (s : RunnerState) : Option NodeId :=
  let nodes := (env.nodeOrder.iter s.transport.routingTable.keys).filterMap
    s.transport.routingTable.get
  let wanted := env.sponsor.bind fun want =>
    nodes.find? fun node => node.address = want
  match wanted with
  | some node => some node.nodeId
  | none =>
      match nodes.head? with
      | some node => some node.nodeId
      | none => env.connections.head?

/-- The stake: the bytes of the chunks and of the manifest. -/
def totalBytes (chunks : List EncryptedChunk) (em : EncryptedManifest) :
    UInt64 :=
  chunks.foldl (fun n c => n + UInt64.ofNat c.data.length) 0
    + UInt64.ofNat em.ciphertext.length

/-- The manifest is kept before the mode split. -/
def keepManifest (P : Prims) (d : PublishDraws)
    (manifest : ContentManifest) (s : RunnerState) : RunnerState :=
  { s with
    manifests := evictTo d.order 2048 (s.manifests.len + 1)
      (s.manifests.insert (contentIdFromPublic P (P.edPublic d.contentSk))
        manifest) }

/-- The proofs of a full node's publication are kept before its chunks. -/
def keepProofs (P : Prims) (d : PublishDraws)
    (chunks : List EncryptedChunk) (s : RunnerState) : RunnerState :=
  let proofs := generateProofs P chunks
  { s with
    merkleProofs := evictTo d.order 8192
      (s.merkleProofs.len + chunks.length)
      ((chunks.zip proofs.2).foldl
        (fun m cp => m.insert cp.1.id (proofs.1, cp.2)) s.merkleProofs) }

/-- What a publication hands back. -/
abbrev PublishResult := ContentId × ContentManifest × Bytes 32

/-- `publish_via_sponsor`; the prepayment that is sent comes last. -/
def publishViaSponsor (P : Prims) (json : Json) (env : PublishEnv)
    (d : PublishDraws) (chunks : List EncryptedChunk)
    (manifest : ContentManifest) (s : PublisherState) :
    Except PublishError PublishResult × PublisherState
      × Option (NodeId × Prepayment) :=
  let publicKey := P.edPublic d.contentSk
  let contentId := contentIdFromPublic P publicKey
  let em := encryptManifest P json manifest publicKey d.manifestNonce
  match findSponsor env s.runner with
  | none => (.error .noSponsor, s, none)
  | some sponsor =>
      let bytes := totalBytes chunks em.1
      let prepayment := Prepayment.sign P s.runner.transport.nodeId bytes
        contentId s.runner.transport.identityKey
      (.ok (contentId, manifest, publicKey),
        { runner :=
            { s.runner with
              storageKeys := s.runner.storageKeys.insert contentId
                d.masterKey
              transport := { s.runner.transport with
                leaseManager :=
                  s.runner.transport.leaseManager.registerOwnedContent
                    contentId d.masterKey
                    (chunks.map EncryptedChunk.id ++ [em.2]) } }
          accounting := s.accounting.recordPrepayment sponsor bytes },
        some (sponsor, prepayment))

/-- `publish_content`, in every mode. -/
def publishContentIn (P : Prims) (rs : ErasureCode) (json : Json)
    (env : PublishEnv) (d : PublishDraws) (fileData : List UInt8)
    (s : PublisherState) :
    Except PublishError PublishResult × PublisherState
      × Option (NodeId × Prepayment) :=
  if env.mode = .seedOnly then
    let kept := keepKeypair P d s.runner
    match prepareContent P rs d fileData with
    | .error e => (.error (.storage e), { s with runner := kept }, none)
    | .ok r =>
        publishViaSponsor P json env d r.1 r.2
          { s with runner := keepManifest P d r.2 kept }
  else
    let out := publishContent P rs json d fileData s.runner
    (match out.1 with
      | .error e => .error (.storage e)
      | .ok published => .ok published,
      { s with runner := out.2 }, none)

-- ========== no trace

/-- What publishing writes is the same in both states. -/
structure NoTrace (s s' : RunnerState) : Prop where
  contentKeypairs : s'.contentKeypairs = s.contentKeypairs
  manifests : s'.manifests = s.manifests
  merkleProofs : s'.merkleProofs = s.merkleProofs
  chunkHolder : s'.transport.chunkHolder = s.transport.chunkHolder
  storageCapacity :
    s'.transport.storageCapacity = s.transport.storageCapacity
  storageKeys : s'.storageKeys = s.storageKeys
  leaseManager : s'.transport.leaseManager = s.transport.leaseManager

/-- A publication that fails leaves no trace. -/
def FailsTraceless (P : Prims) (rs : ErasureCode) (json : Json)
    (env : PublishEnv) (d : PublishDraws) (fileData : List UInt8)
    (s : PublisherState) : Prop :=
  (publishContentIn P rs json env d fileData s).1.isOk = false →
    NoTrace s.runner (publishContentIn P rs json env d fileData s).2.1.runner

/-- Nothing fails: the file is encrypted and coded, and a seed-only node
has a sponsor. -/
def Publishes (P : Prims) (rs : ErasureCode) (env : PublishEnv)
    (d : PublishDraws) (fileData : List UInt8) (s : RunnerState) : Prop :=
  ∃ r, prepareContent P rs d fileData = .ok r
    ∧ (env.mode = .seedOnly → findSponsor env s ≠ none)

/-- Keeping the manifest changes nothing: it is in the table, or the table
is full and it is the one that the eviction takes. -/
def ManifestKept (P : Prims) (d : PublishDraws)
    (manifest : ContentManifest) (s : RunnerState) : Prop :=
  let id := contentIdFromPublic P (P.edPublic d.contentSk)
  (s.manifests.get id = some manifest ∧ s.manifests.len ≤ 2048)
    ∨ (s.manifests.get id = none ∧ s.manifests.len = 2048
      ∧ (d.order.iter (s.manifests.insert id manifest).keys).head?
        = some id)

/-- What is kept before the failure was there already: the key, and the
manifest if it came to that. -/
def KeptBefore (P : Prims) (rs : ErasureCode) (d : PublishDraws)
    (fileData : List UInt8) (s : RunnerState) : Prop :=
  s.contentKeypairs.get (contentIdFromPublic P (P.edPublic d.contentSk))
      = some d.contentSk
    ∧ ∀ r, prepareContent P rs d fileData = .ok r → ManifestKept P d r.2 s

-- ============= proof

section Traces

variable {P : Prims} {rs : ErasureCode} {json : Json} {env : PublishEnv}
  {d : PublishDraws} {fileData : List UInt8} {s : PublisherState}

/-- Keeping a key changes nothing exactly when it is kept already. -/
theorem keepKeypair_keypairs_iff (s : RunnerState) :
    (keepKeypair P d s).contentKeypairs = s.contentKeypairs
      ↔ s.contentKeypairs.get
          (contentIdFromPublic P (P.edPublic d.contentSk))
        = some d.contentSk := by
  constructor
  · intro h
    rw [← h]
    exact FMap.get_insert_self _ _ _
  · exact fun h => FMap.insert_get h

theorem keepManifest_manifests_iff (manifest : ContentManifest)
    (s : RunnerState) :
    (keepManifest P d manifest s).manifests = s.manifests
      ↔ ManifestKept P d manifest s := evictTo_insert_iff

/-- Who the sponsor is does not depend on what is kept. -/
theorem findSponsor_kept (manifest : ContentManifest) (s : RunnerState) :
    findSponsor env (keepManifest P d manifest (keepKeypair P d s))
      = findSponsor env s := rfl

/-- Where encryption or coding fails, the key has been kept. -/
theorem failed_prepare (json : Json) (env : PublishEnv)
    (s : PublisherState) {e : StorageError}
    (h : prepareContent P rs d fileData = .error e) :
    (publishContentIn P rs json env d fileData s).1.isOk = false
      ∧ (publishContentIn P rs json env d fileData s).2.1.runner
        = keepKeypair P d s.runner := by
  rw [publishContentIn]
  by_cases hmode : env.mode = .seedOnly
  · rw [if_pos hmode, h]
    exact ⟨rfl, rfl⟩
  · rw [if_neg hmode, publishContent, h]
    exact ⟨rfl, rfl⟩

/-- Without a sponsor, the key and the manifest have been kept. -/
theorem failed_sponsor (json : Json) {r : List EncryptedChunk × ContentManifest}
    (hmode : env.mode = .seedOnly)
    (h : prepareContent P rs d fileData = .ok r)
    (hnone : findSponsor env s.runner = none) :
    (publishContentIn P rs json env d fileData s).1 = .error .noSponsor
      ∧ (publishContentIn P rs json env d fileData s).2.1.runner
        = keepManifest P d r.2 (keepKeypair P d s.runner) := by
  rw [publishContentIn, if_pos hmode, h]
  simp only [publishViaSponsor, findSponsor_kept, hnone]
  exact ⟨trivial, trivial⟩

/-- Who knows nobody has no sponsor. -/
theorem findSponsor_alone {s : RunnerState}
    (hnodes : s.transport.routingTable = ∅)
    (hconnections : env.connections = []) : findSponsor env s = none := by
  have hempty : (env.nodeOrder.iter
      s.transport.routingTable.keys).filterMap
      s.transport.routingTable.get = [] := by
    rw [List.filterMap_eq_nil_iff, hnodes]
    intro id _
    rfl
  rw [findSponsor]
  simp only [hempty, hconnections]
  cases env.sponsor with
  | none => rfl
  | some want => rfl

theorem publishes_isOk (h : Publishes P rs env d fileData s.runner) :
    (publishContentIn P rs json env d fileData s).1.isOk = true := by
  obtain ⟨r, hprepare, hsponsor⟩ := h
  rw [publishContentIn]
  by_cases hmode : env.mode = .seedOnly
  · rw [if_pos hmode, hprepare]
    cases hfind : findSponsor env s.runner with
    | none => exact absurd hfind (hsponsor hmode)
    | some sponsor =>
        simp only [publishViaSponsor, findSponsor_kept, hfind]
        rfl
  · rw [if_neg hmode, publishContent, hprepare]
    rfl

end Traces

/-- A publication that fails leaves no trace if and only if it does not
fail, or what it keeps before the failure was there already. -/
theorem failed_publish_traceless_iff (P : Prims) (rs : ErasureCode)
    (json : Json) (env : PublishEnv) (d : PublishDraws)
    (fileData : List UInt8) (s : PublisherState) :
    FailsTraceless P rs json env d fileData s
      ↔ Publishes P rs env d fileData s.runner
        ∨ KeptBefore P rs d fileData s.runner := by
  by_cases hpub : Publishes P rs env d fileData s.runner
  · refine iff_of_true (fun hfail => ?_) (Or.inl hpub)
    rw [publishes_isOk hpub] at hfail
    cases hfail
  cases hprepare : prepareContent P rs d fileData with
  | error e =>
      obtain ⟨hfail, hstate⟩ := failed_prepare json env s hprepare
      rw [FailsTraceless, hstate]
      constructor
      · intro h
        refine Or.inr ⟨?_, fun r hr => ?_⟩
        · exact (keepKeypair_keypairs_iff s.runner).1
            (h hfail).contentKeypairs
        · rw [hprepare] at hr
          cases hr
      · intro h
        have hkey := (keepKeypair_keypairs_iff s.runner).2
          (h.resolve_left hpub).1
        exact fun _ => ⟨hkey, rfl, rfl, rfl, rfl, rfl, rfl⟩
  | ok r =>
      -- what is left is a seed-only node without a sponsor
      have hmode : env.mode = .seedOnly := by
        by_contra hmode
        exact hpub ⟨r, hprepare, fun h => absurd h hmode⟩
      have hnone : findSponsor env s.runner = none := by
        by_contra hsome
        exact hpub ⟨r, hprepare, fun _ => hsome⟩
      obtain ⟨herror, hstate⟩ := failed_sponsor json hmode hprepare hnone
      have hfail : (publishContentIn P rs json env d fileData s).1.isOk
          = false := by
        rw [herror]
        rfl
      rw [FailsTraceless, hstate]
      constructor
      · intro h
        have htrace := h hfail
        refine Or.inr ⟨?_, fun r' hr => ?_⟩
        · exact (keepKeypair_keypairs_iff s.runner).1
            htrace.contentKeypairs
        · rw [hprepare] at hr
          cases hr
          exact (keepManifest_manifests_iff r.2 s.runner).1 htrace.manifests
      · intro h
        obtain ⟨hkey, hmanifest⟩ := h.resolve_left hpub
        have hkept := (keepKeypair_keypairs_iff s.runner).2 hkey
        have hsame := (keepManifest_manifests_iff r.2 s.runner).2
          (hmanifest r hprepare)
        exact fun _ => ⟨hkept, hsame, rfl, rfl, rfl, rfl, rfl⟩

-- ======== no sponsor

/-- A seed-only node that knows and is connected to nobody. -/
def aloneEnv : PublishEnv where
  mode := .seedOnly
  sponsor := none
  nodeOrder := IterOrder.bytewise
  connections := []

/-- Its state before it has published anything. -/
def alonePublisher : PublisherState :=
  ⟨blankRunner, AccountingState.new⟩

/-- Its publication fails, with the key and the manifest kept. -/
theorem seed_publish_leaves_trace :
    (publishContentIn .plain mirrorCode unaryJson aloneEnv smallDraws
        smallFile alonePublisher).1 = .error .noSponsor
      ∧ ¬ FailsTraceless .plain mirrorCode unaryJson aloneEnv smallDraws
        smallFile alonePublisher := by
  have hprepare := prepareContent_single Prims.plain_seal smallDraws
    smallFile_numChunks
  have hnone : findSponsor aloneEnv alonePublisher.runner = none :=
    findSponsor_alone rfl rfl
  obtain ⟨herror, hstate⟩ := failed_sponsor unaryJson rfl hprepare hnone
  refine ⟨herror, fun h => ?_⟩
  have hkeys := (h (by rw [herror]; rfl)).contentKeypairs
  rw [hstate] at hkeys
  have hkept := (keepKeypair_keypairs_iff alonePublisher.runner).1 hkeys
  cases hkept

end StaticNet
