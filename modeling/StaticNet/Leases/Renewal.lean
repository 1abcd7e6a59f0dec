/-
Renewal by the owner: the leases a rotation leaves at a peer, and the
heartbeats the owner sends to renew them.

# Two secrets, two keys

`rotation_loop` mints the lease of its proposal with the node's own
storage key and signs the proposal with a content key drawn for it
alone. `propagate_heartbeats_once` derives the token from the content's
master key and signs with the content's key. The holder compares token
with token and key with key, so a heartbeat renews a rotated chunk
exactly when the two secrets give one token and the two keys are one.
It also stops at the first held chunk that does not match, so the other
chunks of the content count too.
-/
import StaticNet.Leases.Kept
import StaticNet.Node.Rotation
import StaticNet.Node.Senders
import StaticNet.Swap.Proofs.Paths

namespace StaticNet

open Proc

-- ========= the owner

/-- The renewal token of a master key. -/
def leaseToken (P : Prims) (masterKey : SymmetricKey) : Bytes 32 :=
  P.blake3 (P.derive masterKey "lease_token").toList

/-- The heartbeat `propagate_heartbeats_once` builds for one content: it
needs the content's key and its master key. -/
def heartbeatFor (P : Prims) (nonce : Bytes 32) (now : Nat)
    (owner : RunnerState) (contentId : ContentId) : Option Heartbeat :=
  match owner.contentKeypairs.get contentId with
  | none => none
  | some signingKey =>
      (owner.transport.leaseManager.createHeartbeat P contentId
        DEFAULT_LEASE_DURATION_SECS signingKey now nonce).toOption

/-- Signatures made with a key verify under its public key. -/
def Prims.SignsVerify (P : Prims) : Prop :=
  ∀ key msg, P.edCheck (P.edPublic key) msg (P.edSign key msg).toList
    = true

variable {P : Prims} {nonce : Bytes 32} {now : Nat} {owner : RunnerState}
  {contentId : ContentId} {masterKey : SymmetricKey}
  {signingKey : SigningKey} {hb : Heartbeat}

/-- The token and the key of an owner's heartbeat. -/
theorem heartbeatFor_some
    (howned : owner.transport.leaseManager.ownedContent.get contentId
      = some masterKey)
    (hkey : owner.contentKeypairs.get contentId = some signingKey)
    (h : heartbeatFor P nonce now owner contentId = some hb) :
    hb.renewalToken = leaseToken P masterKey
      ∧ hb.contentPubKey = P.edPublic signingKey
      ∧ hb.signature = (P.edSign signingKey hb.signingBytes).toList
      ∧ hb.nonce = nonce := by
  unfold heartbeatFor LeaseManager.createHeartbeat at h
  rw [hkey, howned] at h
  dsimp only at h
  split at h
  next => cases h
  next =>
    obtain rfl := Option.some.inj h
    exact ⟨rfl, rfl, rfl, rfl⟩

/-- In the owner's round, that heartbeat goes to the holders of the
content. -/
theorem HeartbeatRound.ofContent_eq (r : HeartbeatRound)
    (hkeys : r.contentKeypairs = owner.contentKeypairs)
    (hleases : r.leases = owner.transport.leaseManager) :
    r.ofContent P contentId
      = (heartbeatFor P (r.nonce contentId) r.now owner contentId).elim []
          fun hb => (r.order.iter (r.peersToNotify
            ((r.leases.contentChunks.get contentId).getD []))).filterMap
              (r.toHolder P contentId hb) := by
  unfold ofContent heartbeatFor
  rw [hkeys, ← hleases]
  cases owner.contentKeypairs.get contentId with
  | none => rfl
  | some signingKey =>
      dsimp only
      cases r.leases.createHeartbeat P contentId DEFAULT_LEASE_DURATION_SECS
          signingKey r.now (r.nonce contentId) <;> rfl

-- ======== the holder

namespace LeaseManager

variable {mgr : LeaseManager} {held : ChunkId → Bool} {expiresAt : Nat}

/-- A verified heartbeat with a new nonce succeeds, and renews a held
chunk it names, exactly when every held chunk it names is accepted. -/
theorem processHeartbeatUpsert_renews_iff {c : ChunkId}
    (hsig : hb.verifySignature P = true)
    (hnonce : mgr.seenNonces.get hb.nonce = none)
    (hmem : c ∈ hb.chunkIds) (hheld : held c = true) :
    ((mgr.processHeartbeatUpsert P hb now held).1.isOk = true
        ∧ ∃ lease, (mgr.processHeartbeatUpsert P hb now
            held).2.leases.get c = some lease
          ∧ lease.expiresAt = cappedExpiry hb now)
      ↔ ∀ d ∈ hb.chunkIds, held d = true → mgr.accepts hb d = true := by
  unfold processHeartbeatUpsert
  simp only [hsig, Bool.not_true, Bool.false_eq_true, if_false, hnonce]
  rw [upsertLoop_isOk, upsertLoop_get, refuses_eq_false]
  constructor
  · rintro ⟨h, -⟩
    exact h
  · intro hall
    have hreached := reached_of_not_refuses (refuses_eq_false.2 hall)
    refine ⟨hall, _, if_pos ⟨hheld, ?_⟩, rfl⟩
    exact (congrArg (fun l => c ∈ l) hreached).mpr hmem

end LeaseManager

-- ======== both sides

/-- The lease a finalized swap leaves for its chunk. -/
theorem lease_finalized {s : TransportState} {pid : ProposalId}
    {swap : PendingSwap}
    (hget : s.swapState.pendingSwaps.get pid = some swap)
    (hready : swap.ready = true)
    (hnew : s.chunkHolder.hasChunk swap.theirChunkId = false) :
    ((finalizeSwapIfReady pid).post s).leaseManager.leases.get
      swap.theirChunkId = some (swapLease swap) := by
  rw [(run_finalize_ready hget hready hnew).1]
  exact FMap.get_insert_self _ _ _

/-- A chunk of a published content, stored by a peer because a rotation
proposal was finalized there, is renewed by the owner's heartbeat exactly
when the storage key and the content's master key give one token, the
key drawn for the proposal is the content's (or all zero), and the peer's
leases on the other chunks the heartbeat names accept it as well. -/
theorem owner_renewal_iff (P : Prims) (hsigns : P.SignsVerify)
    (owner : RunnerState) (contentId : ContentId)
    (masterKey : SymmetricKey) (signingKey : SigningKey)
    (howned : owner.transport.leaseManager.ownedContent.get contentId
      = some masterKey)
    (hkey : owner.contentKeypairs.get contentId = some signingKey)
    (nonce : Bytes 32) (sentAt : Nat) (hb : Heartbeat)
    (hbuilt : heartbeatFor P nonce sentAt owner contentId = some hb)
    (c : ChunkId) (hmem : c ∈ hb.chunkIds)
    (renv : RotateEnv) (i : Nat) (binding : MerkleRoot × MerkleProof)
    (p : SwapProposal)
    (hp : p = rotationProposal P renv owner.transport.nodeId
      owner.transport.storageKey i c binding)
    (s : TransportState) (pid : ProposalId) (swap : PendingSwap)
    (hget : s.swapState.pendingSwaps.get pid = some swap)
    (hready : swap.ready = true)
    (hnew : s.chunkHolder.hasChunk swap.theirChunkId = false)
    (hterms : swap.theirChunkId = p.chunkId
      ∧ swap.renewalToken = p.lease.renewalToken
      ∧ swap.contentPubKey = p.contentPublicKey)
    (t : TransportState)
    (hkept : t.leaseManager.leases.get c
      = ((finalizeSwapIfReady pid).post s).leaseManager.leases.get c)
    (hheld : t.chunkHolder.hasChunk c = true)
    (hnonce : t.leaseManager.seenNonces.get hb.nonce = none)
    (now : Nat) :
    ((t.leaseManager.processHeartbeatUpsert P hb now
          (heldAmong hb t)).1.isOk = true
        ∧ ∃ lease, (t.leaseManager.processHeartbeatUpsert P hb now
            (heldAmong hb t)).2.leases.get c = some lease
          ∧ lease.expiresAt = LeaseManager.cappedExpiry hb now)
      ↔ leaseToken P owner.transport.storageKey = leaseToken P masterKey
        ∧ (P.edPublic (renv.contentSk i) = Bytes.zero 32
          ∨ P.edPublic (renv.contentSk i) = P.edPublic signingKey)
        ∧ ∀ d ∈ hb.chunkIds, heldAmong hb t d = true → d ≠ c →
            t.leaseManager.accepts hb d = true := by
  obtain ⟨hchunk, htoken, hpub⟩ := hterms
  subst hp
  obtain ⟨hbtoken, hbkey, hbsig, -⟩ := heartbeatFor_some howned hkey hbuilt
  have hsig : hb.verifySignature P = true := by
    unfold Heartbeat.verifySignature
    rw [hbkey, hbsig]
    exact hsigns signingKey hb.signingBytes
  have hc : heldAmong hb t c = true := by
    unfold heldAmong
    rw [hheld, Bool.and_true, List.contains_iff_mem]
    exact hmem
  have hlease : t.leaseManager.leases.get c = some (swapLease swap) := by
    have hfinal := lease_finalized hget hready hnew
    rw [hchunk] at hfinal
    exact hkept.trans hfinal
  -- what the peer compares for the chunk itself
  have hown : t.leaseManager.accepts hb c = true
      ↔ leaseToken P owner.transport.storageKey = leaseToken P masterKey
        ∧ (P.edPublic (renv.contentSk i) = Bytes.zero 32
          ∨ P.edPublic (renv.contentSk i) = P.edPublic signingKey) := by
    rw [LeaseManager.accepts_of_get hlease, hbtoken, hbkey]
    show swap.renewalToken = _ ∧ (swap.contentPubKey = _
      ∨ swap.contentPubKey = _) ↔ _
    rw [htoken, hpub]
    rfl
  rw [LeaseManager.processHeartbeatUpsert_renews_iff hsig hnonce hmem hc,
    ← and_assoc, ← hown]
  constructor
  · intro hall
    exact ⟨hall c hmem hc, fun d hd hheld _ => hall d hd hheld⟩
  · rintro ⟨hacc, hothers⟩ d hd hheld
    by_cases heq : d = c
    · rw [heq]
      exact hacc
    · exact hothers d hd hheld heq

-- ==== a rotation, concretely

theorem Prims.plain_signsVerify : Prims.plain.SignsVerify := by
  intro key msg
  unfold edCheck
  have hlen : (plain.edSign key msg).toList.length = 64 :=
    Bytes.length_toList _
  rw [hlen, Bytes.ofList_toList]
  simp [plain]

/-- A publisher of one content with one chunk, its master key and its
storage key given. -/
def publisher (masterKey storageKey : SymmetricKey) : RunnerState where
  transport := { freshNode (Bytes.fill 16 2) (Bytes.fill 32 2)
      ChunkHolder.new 0 with
    storageKey := storageKey
    leaseManager := LeaseManager.new.registerOwnedContent
      (Bytes.fill 32 3) masterKey [Bytes.fill 32 9] }
  contentKeypairs :=
    (∅ : FMap ContentId SigningKey).insert (Bytes.fill 32 3)
      (Bytes.fill 32 4)
  manifests := ∅
  merkleProofs := ∅
  storageKeys := ∅
  chunkMetadata := ∅
  contentRetriever := ContentRetriever.new
  singleChunks := ∅

/-- Its rotation proposal for the chunk, under a drawn content key. -/
def publisherOffer (storageKey : SymmetricKey) (sk : SigningKey) :
    SwapProposal :=
  rotationProposal Prims.plain (quietRotation sk 6 100) (Bytes.fill 16 2)
    storageKey 0 (Bytes.fill 32 9) (Bytes.fill 32 3, emptyProof)

/-- The entry at the peer, all three flags set. -/
def rotatedEntry (p : SwapProposal) (data : List UInt8) : PendingSwap :=
  { accepterEntry Prims.plain p (Bytes.fill 32 8) ENCRYPTED_CHUNK_SIZE
      110 with
    theirChunkData := data
    receivedTheirChunk := true
    sentCommit := true
    receivedCommit := true }

/-- The peer before it finalizes. -/
def rotatedPeer (p : SwapProposal) (data : List UInt8) : TransportState :=
  (freshNode (Bytes.fill 16 1) (Bytes.fill 32 1) ChunkHolder.new
      (4 * ENCRYPTED_CHUNK_SIZE)).updSwaps fun st =>
    st.startPendingSwap (rotatedEntry p data)

/-- The owner's next heartbeat. -/
def publisherBeat (masterKey : SymmetricKey) : Heartbeat :=
  (Heartbeat.new masterKey [Bytes.fill 32 9]
    DEFAULT_LEASE_DURATION_SECS 2000 (Bytes.fill 32 7)).sign Prims.plain
      (Bytes.fill 32 4)

theorem rotatedPeer_get (p : SwapProposal) (data : List UInt8) :
    (rotatedPeer p data).swapState.pendingSwaps.get
      (proposalId Prims.plain p) = some (rotatedEntry p data) :=
  FMap.get_insert_self _ _ _

/-- The peer after it finalized the proposal. -/
def rotatedHolder (p : SwapProposal) (data : List UInt8) :
    TransportState :=
  (finalizeSwapIfReady (proposalId Prims.plain p)).post
    (rotatedPeer p data)

/-- Were storage key and master key one, and the drawn key the
content's, the heartbeat would renew. -/
theorem owner_renewal_iff_one_key :
    ((rotatedHolder (publisherOffer (Bytes.fill 32 5) (Bytes.fill 32 4))
        []).leaseManager.processHeartbeatUpsert Prims.plain
          (publisherBeat (Bytes.fill 32 5)) 2000
          (heldAmong (publisherBeat (Bytes.fill 32 5))
            (rotatedHolder (publisherOffer (Bytes.fill 32 5)
              (Bytes.fill 32 4)) []))).1.isOk = true := by
  refine ((owner_renewal_iff Prims.plain Prims.plain_signsVerify
    (publisher (Bytes.fill 32 5) (Bytes.fill 32 5)) (Bytes.fill 32 3)
    (Bytes.fill 32 5) (Bytes.fill 32 4) rfl rfl (Bytes.fill 32 7) 2000
    (publisherBeat (Bytes.fill 32 5)) rfl (Bytes.fill 32 9)
    List.mem_cons_self (quietRotation (Bytes.fill 32 4) 6 100) 0
    (Bytes.fill 32 3, emptyProof)
    (publisherOffer (Bytes.fill 32 5) (Bytes.fill 32 4)) rfl
    (rotatedPeer (publisherOffer (Bytes.fill 32 5) (Bytes.fill 32 4)) [])
    _ _ (rotatedPeer_get _ []) rfl rfl ⟨rfl, rfl, rfl⟩
    (rotatedHolder (publisherOffer (Bytes.fill 32 5) (Bytes.fill 32 4))
      []) rfl rfl rfl 2000).2 ⟨rfl, .inr rfl, ?_⟩).1
  intro d hd _ hne
  exact absurd (List.mem_singleton.1 hd) hne

/-- With keys of its own for each purpose, the publisher's heartbeat
reaches the peer that stored the chunk and is refused for its token. -/
theorem owner_renewal_refused :
    heartbeatFor Prims.plain (Bytes.fill 32 7) 2000
        (publisher (Bytes.fill 32 5) (Bytes.fill 32 6)) (Bytes.fill 32 3)
      = some (publisherBeat (Bytes.fill 32 5))
    ∧ (rotatedHolder (publisherOffer (Bytes.fill 32 6) (Bytes.fill 32 12))
        (List.replicate ENCRYPTED_CHUNK_SIZE 0)).chunkHolder.hasChunk
          (Bytes.fill 32 9) = true
    ∧ ((rotatedHolder (publisherOffer (Bytes.fill 32 6)
          (Bytes.fill 32 12)) (List.replicate ENCRYPTED_CHUNK_SIZE
            0)).leaseManager.processHeartbeatUpsert Prims.plain
        (publisherBeat (Bytes.fill 32 5)) 2000 fun c =>
          c = Bytes.fill 32 9).1 = .error .invalidToken := by
  generalize List.replicate ENCRYPTED_CHUNK_SIZE (0 : UInt8) = data
  exact ⟨rfl, rfl, rfl⟩

end StaticNet
