/-
What the signatures of the swap messages leave open.

# Where it breaks

A commit and an abort are covered whole. The signature of an accept leaves
out the lease and the proof of the return chunk, and that of a proposal
leaves out the lease and the Merkle proof, and all of these are read: they
are written into the pending swap, the lease is the one the stored chunk
will have, and the id of a proposal is hashed from its expiry. Whoever
relays a signed message can change them (`edited_accept`).

# The argument

The signed bytes are a concatenation of fields of fixed sizes, so equal
bytes are equal fields (`SameSigned`). When the fields left out agree too,
as far as they are read, the handlers end in the same state
(`accept_same`, `proposal_same`), and so does everything after them. When
they do not, there is a state in which the difference is seen: one that
listens for the accept (`accept_differs`), or one that has room and a chunk
to give for the proposal (`proposal_differs`).
-/
import StaticNet.Swap.Proofs.Paths

namespace StaticNet

open Proc TransportState

-- ========== messages

/-- The signed swap messages. -/
inductive SignedMessage
  | proposal (p : SwapProposal)
  | accept (a : SwapAccept)
  | commit (c : SwapCommit)
  | abort (a : SwapAbort)

namespace SignedMessage

def signingBytes : SignedMessage → List UInt8
  | .proposal p => p.signingBytes
  | .accept a => a.signingBytes
  | .commit c => c.signingBytes
  | .abort a => a.signingBytes

def publicKey : SignedMessage → Bytes 32
  | .proposal p => p.contentPublicKey
  | .accept a => a.identityPublicKey
  | .commit c => c.identityPublicKey
  | .abort a => a.identityPublicKey

def signature : SignedMessage → List UInt8
  | .proposal p => p.contentSignature
  | .accept a => a.signature
  | .commit c => c.signature
  | .abort a => a.signature

/-- The `handle_maintenance_*` function of a message. -/
def handle (P : Prims) (env : Env) : SignedMessage → Handler Unit
  | .proposal p => handleMaintenanceProposal P env p
  | .accept a => handleMaintenanceAccept P env a
  | .commit c => handleMaintenanceCommit P env c
  | .abort a => handleMaintenanceAbort P env a

/-- The kind of a message. -/
def kind : SignedMessage → Nat
  | .proposal _ => 0
  | .accept _ => 1
  | .commit _ => 2
  | .abort _ => 3

end SignedMessage

open SignedMessage

/-- Two messages of one kind under one signature. -/
structure SameSigned (m m' : SignedMessage) : Prop where
  kind_eq : m.kind = m'.kind
  bytes_eq : m.signingBytes = m'.signingBytes
  key_eq : m.publicKey = m'.publicKey
  signature_eq : m.signature = m'.signature

/-- Two handlers lead to the same swaps, capacity and chunks, and after
the same further steps to the same leases. -/
structure SameOutcome (p q : Handler Unit) (s : TransportState) : Prop where
  swaps : (p.post s).swapState = (q.post s).swapState
  capacity : (p.post s).storageCapacity = (q.post s).storageCapacity
  holder : (p.post s).chunkHolder = (q.post s).chunkHolder
  lease : ∀ later : Handler Unit, (later.post (p.post s)).leaseManager
    = (later.post (q.post s)).leaseManager

/-- Verified accepts agree on the terms of the lease, and on the proof
when there is a root. -/
def AcceptTerms (P : Prims) (a b : SwapAccept) : Prop :=
  a.verifySignature P = true →
    a.lease.renewalToken = b.lease.renewalToken
      ∧ a.lease.expiresAt = b.lease.expiresAt
      ∧ (a.returnContentRoot = zeroRoot
        ∨ a.returnMerkleProof = b.returnMerkleProof)

/-- Verified proposals agree on the expiry, and on the token and the proof
unless the lease is never valid; other proposals agree on the id. -/
def ProposalTerms (P : Prims) (p q : SwapProposal) : Prop :=
  if p.verifyContentSignature P = true then
    p.lease.expiresAt = q.lease.expiresAt
      ∧ (p.lease.expiresAt = 0
        ∨ (p.lease.renewalToken = q.lease.renewalToken
          ∧ p.merkleProof = q.merkleProof))
  else proposalId P p = proposalId P q

/-- What of two messages of a kind has to agree besides the signed
bytes. -/
def SameTerms (P : Prims) : SignedMessage → SignedMessage → Prop
  | .accept a, .accept b => AcceptTerms P a b
  | .proposal p, .proposal q => ProposalTerms P p q
  | _, _ => True

variable {P : Prims} {env : Env} {s : TransportState}
  {p q : SwapProposal} {a b : SwapAccept} {h h' : Handler Unit}

/-- The same state has the same future. -/
theorem SameOutcome.of_post (heq : h.post s = h'.post s) :
    SameOutcome h h' s where
  swaps := by rw [heq]
  capacity := by rw [heq]
  holder := by rw [heq]
  lease := by
    intro later
    rw [heq]

theorem SameOutcome.symm (h₁ : SameOutcome h h' s) : SameOutcome h' h s where
  swaps := h₁.swaps.symm
  capacity := h₁.capacity.symm
  holder := h₁.holder.symm
  lease := fun later => (h₁.lease later).symm

-- ===== signed fields

theorem bytes_append_inj {n : Nat} {x y : Bytes n} {l l' : List UInt8}
    (h : x.toList ++ l = y.toList ++ l') : x = y ∧ l = l' := by
  have hlen : x.toList.length = y.toList.length := by
    rw [x.length_toList, y.length_toList]
  obtain ⟨hx, hl⟩ := List.append_inj h hlen
  exact ⟨Bytes.ext hx, hl⟩

theorem append_bytes_inj {n : Nat} {x y : Bytes n} {l l' : List UInt8}
    (h : l ++ x.toList = l' ++ y.toList) : l = l' ∧ x = y := by
  have hlen : x.toList.length = y.toList.length := by
    rw [x.length_toList, y.length_toList]
  obtain ⟨hl, hx⟩ := List.append_inj' h hlen
  exact ⟨hl, Bytes.ext hx⟩

/-- The fields an accept's signature covers. -/
structure AcceptCovered (a b : SwapAccept) : Prop where
  proposalId : a.proposalId = b.proposalId
  fromNode : a.fromNode = b.fromNode
  chunkId : a.chunkId = b.chunkId
  root : a.returnContentRoot = b.returnContentRoot
  nonce : a.nonce = b.nonce
  key : a.identityPublicKey = b.identityPublicKey
  signature : a.signature = b.signature

theorem acceptCovered (h : SameSigned (.accept a) (.accept b)) :
    AcceptCovered a b := by
  have hbytes : a.signingBytes = b.signingBytes := h.bytes_eq
  unfold SwapAccept.signingBytes at hbytes
  obtain ⟨hbytes, hnonce⟩ := append_bytes_inj hbytes
  obtain ⟨hbytes, hroot⟩ := append_bytes_inj hbytes
  obtain ⟨hbytes, hchunk⟩ := append_bytes_inj hbytes
  obtain ⟨hpid, hfrom⟩ := append_bytes_inj hbytes
  exact ⟨Bytes.ext hpid, hfrom, hchunk, hroot, hnonce, h.key_eq,
    h.signature_eq⟩

/-- The fields a proposal's signature covers. -/
structure ProposalCovered (p q : SwapProposal) : Prop where
  root : p.contentRoot = q.contentRoot
  chunkId : p.chunkId = q.chunkId
  fromNode : p.fromNode = q.fromNode
  nonce : p.proposalNonce = q.proposalNonce
  key : p.contentPublicKey = q.contentPublicKey
  signature : p.contentSignature = q.contentSignature

theorem proposalCovered (h : SameSigned (.proposal p) (.proposal q)) :
    ProposalCovered p q := by
  have hbytes : p.signingBytes = q.signingBytes := h.bytes_eq
  unfold SwapProposal.signingBytes at hbytes
  obtain ⟨hbytes, hnonce⟩ := append_bytes_inj hbytes
  obtain ⟨hbytes, hfrom⟩ := append_bytes_inj hbytes
  obtain ⟨hroot, hchunk⟩ := append_bytes_inj hbytes
  exact ⟨Bytes.ext hroot, hchunk, hfrom, hnonce, h.key_eq, h.signature_eq⟩

/-- A commit is covered whole. -/
theorem commit_eq {c d : SwapCommit}
    (h : SameSigned (.commit c) (.commit d)) : c = d := by
  have hbytes : c.signingBytes = d.signingBytes := h.bytes_eq
  unfold SwapCommit.signingBytes at hbytes
  obtain ⟨hbytes, hnonce⟩ := append_bytes_inj hbytes
  obtain ⟨hpid, hfrom⟩ := append_bytes_inj hbytes
  have hpid' := Bytes.ext hpid
  have hkey : c.identityPublicKey = d.identityPublicKey := h.key_eq
  have hsig : c.signature = d.signature := h.signature_eq
  cases c
  cases d
  simp_all

/-- Of an abort everything that is read besides the signature check is
covered. -/
theorem abortCovered {c d : SwapAbort}
    (h : SameSigned (.abort c) (.abort d)) :
    c.proposalId = d.proposalId ∧ c.fromNode = d.fromNode
      ∧ c.nonce = d.nonce := by
  have hbytes : c.signingBytes = d.signingBytes := h.bytes_eq
  unfold SwapAbort.signingBytes at hbytes
  obtain ⟨hbytes, hnonce⟩ := append_bytes_inj hbytes
  rw [List.append_assoc, List.append_assoc] at hbytes
  obtain ⟨hpid, hbytes⟩ := bytes_append_inj hbytes
  exact ⟨hpid, (bytes_append_inj hbytes).1, hnonce⟩

-- =========== accepts

theorem AcceptCovered.verify (h : AcceptCovered a b) :
    a.verifySignature P = b.verifySignature P := by
  unfold SwapAccept.verifySignature SwapAccept.signingBytes
  rw [h.proposalId, h.fromNode, h.chunkId, h.root, h.nonce, h.key,
    h.signature]

/-- What an adopted accept does, in its cases. -/
theorem post_adoptAccept (a : SwapAccept) (size : Nat) :
    (adoptAccept P env a size).post s
      = if pendingWith a.proposalId a.fromNode s = true then
          if s.storageCapacity.canAccept size 0 = true then adopted a size s
          else (abortAndRelease a.proposalId).post s
        else s := by
  by_cases hpeer : pendingWith a.proposalId a.fromNode s = true
  · rw [if_pos hpeer]
    by_cases hroom : s.storageCapacity.canAccept size 0 = true
    · rw [if_pos hroom, (run_adoptAccept P env hpeer hroom).1]
    · rw [if_neg hroom, post_adoptAccept_full P env hpeer
        (Bool.eq_false_iff.2 hroom)]
  · rw [if_neg hpeer, post_adoptAccept_foreign P env
      (Bool.eq_false_iff.2 hpeer)]

/-- The terms two accepts write agree. -/
theorem adoptTerms_same (h : AcceptCovered a b) (size : Nat)
    (htoken : a.lease.renewalToken = b.lease.renewalToken)
    (hexpiry : a.lease.expiresAt = b.lease.expiresAt)
    (hproof : a.returnContentRoot = zeroRoot
      ∨ a.returnMerkleProof = b.returnMerkleProof) :
    adoptTerms a size = adoptTerms b size := by
  funext swap
  unfold adoptTerms
  rw [← h.root, ← h.chunkId, ← htoken, ← hexpiry]
  by_cases hroot : a.returnContentRoot = zeroRoot
  · rw [if_neg (not_not.2 hroot), if_neg (not_not.2 hroot)]
  · rw [if_pos hroot, if_pos hroot, hproof.resolve_left hroot]

/-- What is done with a message depends on what its body does. -/
theorem post_signedMessage_congr {sender : NodeId} {verified : Bool}
    {identity nonce : Bytes 32} {body body' : Handler Unit}
    (hbody : verified = true → ∀ s, body.post s = body'.post s) :
    (signedMessage env sender verified identity nonce body).post s
      = (signedMessage env sender verified identity nonce body').post s := by
  unfold signedMessage
  simp only [post_bind]
  cases verified with
  | false => simp only [Bool.not_false, if_true]
  | true =>
      simp only [Bool.not_true, Bool.false_eq_true, if_false, post_bind]
      generalize (checkMaintenanceSender sender identity).out _ = pinned
      cases pinned with
      | false => simp only [Bool.not_false, if_true]
      | true =>
          simp only [Bool.not_true, Bool.false_eq_true, if_false, post_bind]
          generalize (checkMaintenanceNonce env nonce).out _ = fresh
          cases fresh with
          | false => simp only [Bool.not_false, if_true]
          | true =>
              simp only [Bool.not_true, Bool.false_eq_true, if_false,
                hbody rfl]

/-- Verified or not, accepts of the same terms do the same. -/
theorem accept_same (h : AcceptCovered a b)
    (hterms : AcceptTerms P a b) :
    (handleMaintenanceAccept P env a).post s
      = (handleMaintenanceAccept P env b).post s := by
  unfold handleMaintenanceAccept
  generalize ENCRYPTED_CHUNK_SIZE = size
  rw [← h.verify, ← h.fromNode, ← h.key, ← h.nonce]
  apply post_signedMessage_congr
  intro hv s
  obtain ⟨htoken, hexpiry, hproof⟩ := hterms hv
  rw [post_adoptAccept, post_adoptAccept]
  unfold adopted
  rw [← h.proposalId, ← h.fromNode,
    adoptTerms_same h size htoken hexpiry hproof]

/-- A pending swap whose terms are not known yet. -/
def openEntry (pid : ProposalId) (peer : NodeId) : PendingSwap where
  proposalId := pid
  peer := peer
  ourChunkId := Bytes.zero 32
  theirChunkId := Bytes.zero 32
  theirChunkData := []
  reservedBytes := 0
  receivedTheirChunk := false
  retrievalRequested := false
  contentRoot := zeroRoot
  merkleProof := emptyProof
  sentCommit := false
  receivedCommit := false
  renewalToken := Bytes.zero 32
  leaseExpiresAt := 0
  contentPubKey := Bytes.zero 32
  startedAt := 0

/-- A node that waits for the answer to its proposal, with room for one
chunk. -/
def listening (size : Nat) (pid : ProposalId) (peer : NodeId) :
    TransportState :=
  { freshNode (Bytes.zero 16) (Bytes.zero 32) ChunkHolder.new size with
    swapState := SwapState.new.startPendingSwap (openEntry pid peer) }

theorem listening_authentic (size : Nat) (pid : ProposalId)
    (peer : NodeId) (identity nonce : Bytes 32) :
    authentic (quietEnv 0 0) peer identity nonce (listening size pid peer)
      = true := rfl

/-- There the terms of an accept are written down. -/
theorem listening_adopts (size : Nat) (hv : a.verifySignature P = true) :
    ((signedMessage (quietEnv 0 0) a.fromNode (a.verifySignature P)
        a.identityPublicKey a.nonce
        (adoptAccept P (quietEnv 0 0) a size)).post
          (listening size a.proposalId a.fromNode)).swapState.getPendingSwap
            a.proposalId
      = some (adoptTerms a size (openEntry a.proposalId a.fromNode)) := by
  have hauth : (a.verifySignature P && authentic (quietEnv 0 0) a.fromNode
      a.identityPublicKey a.nonce (listening size a.proposalId a.fromNode))
        = true := by
    rw [hv, listening_authentic]
    rfl
  have hget : (listening size a.proposalId
      a.fromNode).swapState.pendingSwaps.get a.proposalId
        = some (openEntry a.proposalId a.fromNode) :=
    FMap.get_insert_self _ _ _
  have hpeer : pendingWith a.proposalId a.fromNode
      (heard (quietEnv 0 0) a.fromNode a.nonce
        (listening size a.proposalId a.fromNode)) = true :=
    pendingWith_of_get hget rfl
  have hroom : (heard (quietEnv 0 0) a.fromNode a.nonce
      (listening size a.proposalId a.fromNode)).storageCapacity.canAccept
        size 0 = true := by
    show (StorageCapacity.new size).canAccept size 0 = true
    simp [StorageCapacity.canAccept, StorageCapacity.new]
  rw [post_signedMessage hauth, (run_adoptAccept P _ hpeer hroom).1]
  show ((FMap.modify _ a.proposalId (adoptTerms a size)).get
    a.proposalId) = _
  rw [FMap.get_modify_self]
  show Option.map _ ((listening size a.proposalId
    a.fromNode).swapState.pendingSwaps.get a.proposalId) = _
  rw [hget]
  rfl

/-- Accepts that do the same there have the same terms. -/
theorem accept_terms (h : AcceptCovered a b)
    (hsame : SameOutcome (handleMaintenanceAccept P (quietEnv 0 0) a)
      (handleMaintenanceAccept P (quietEnv 0 0) b)
      (listening ENCRYPTED_CHUNK_SIZE a.proposalId a.fromNode)) :
    AcceptTerms P a b := by
  intro hv
  have houtcome := hsame.swaps
  unfold handleMaintenanceAccept at houtcome
  generalize ENCRYPTED_CHUNK_SIZE = size at houtcome
  have ha := listening_adopts size hv
  have hb := listening_adopts size (h.verify.symm.trans hv)
  rw [houtcome, h.proposalId, h.fromNode, hb] at ha
  have hterms := Option.some.inj ha
  have htoken := congrArg PendingSwap.renewalToken hterms
  have hexpiry := congrArg PendingSwap.leaseExpiresAt hterms
  have hproof := congrArg PendingSwap.merkleProof hterms
  unfold adoptTerms at htoken hexpiry hproof
  rw [← h.root] at htoken hexpiry hproof
  by_cases hroot : a.returnContentRoot = zeroRoot
  · rw [if_neg (not_not.2 hroot), if_neg (not_not.2 hroot)]
      at htoken hexpiry
    exact ⟨htoken.symm, hexpiry.symm, .inl hroot⟩
  · rw [if_pos hroot, if_pos hroot] at htoken hexpiry hproof
    exact ⟨htoken.symm, hexpiry.symm, .inr hproof.symm⟩

-- ============ aborts

/-- Of an abort only covered fields are read; its reason is not. -/
theorem abort_same {c d : SwapAbort}
    (h : SameSigned (.abort c) (.abort d)) :
    (handleMaintenanceAbort P env c).post s
      = (handleMaintenanceAbort P env d).post s := by
  obtain ⟨hpid, hfrom, hnonce⟩ := abortCovered h
  have hbytes : c.signingBytes = d.signingBytes := h.bytes_eq
  have hkey : c.identityPublicKey = d.identityPublicKey := h.key_eq
  have hsig : c.signature = d.signature := h.signature_eq
  unfold handleMaintenanceAbort SwapAbort.verifySignature abortPending
  rw [hpid, hfrom, hnonce, hbytes, hkey, hsig]

-- ========= proposals

variable {cap : StorageCapacity} {n size now : Nat}

theorem ProposalCovered.verify (h : ProposalCovered p q) :
    p.verifyContentSignature P = q.verifyContentSignature P := by
  unfold SwapProposal.verifyContentSignature SwapProposal.signingBytes
  rw [h.root, h.chunkId, h.fromNode, h.nonce, h.key, h.signature]

theorem ProposalCovered.symm (h : ProposalCovered p q) :
    ProposalCovered q p where
  root := h.root.symm
  chunkId := h.chunkId.symm
  fromNode := h.fromNode.symm
  nonce := h.nonce.symm
  key := h.key.symm
  signature := h.signature.symm

/-- The id is hashed from covered fields and the expiry. -/
theorem ProposalCovered.id_eq (h : ProposalCovered p q)
    (hexpiry : p.lease.expiresAt = q.lease.expiresAt) :
    proposalId P p = proposalId P q := by
  unfold proposalId
  rw [h.chunkId, h.fromNode, h.root, hexpiry, h.nonce]

/-- The decision reads covered fields and the expiry. -/
theorem ProposalCovered.decide_eq (h : ProposalCovered p q)
    (hexpiry : p.lease.expiresAt = q.lease.expiresAt) :
    decideOnSwap P p cap n size now = decideOnSwap P q cap n size now := by
  unfold decideOnSwap validateSwapProposal isLeaseValid
  rw [h.verify, hexpiry]

theorem ProposalCovered.reconciled_eq (h : ProposalCovered p q) :
    reconciled env p s = reconciled env q s := by
  unfold reconciled
  rw [h.fromNode]

/-- An unverified proposal, or one whose lease is over, is refused. -/
theorem decide_refused
    (h : p.verifyContentSignature P = false ∨ p.lease.expiresAt ≤ now) :
    ∃ e, decideOnSwap P p cap n size now = .error e := by
  unfold decideOnSwap validateSwapProposal isLeaseValid
  by_cases hlease : p.lease.expiresAt ≤ now
  · rw [decide_eq_false (Nat.not_lt.2 hlease)]
    exact ⟨_, rfl⟩
  · rw [decide_eq_true (Nat.not_le.1 hlease), h.resolve_right hlease]
    exact ⟨_, rfl⟩

theorem decide_accepted (hv : p.verifyContentSignature P = true)
    (hlease : now < p.lease.expiresAt)
    (hroom : cap.canAccept size n = true) :
    decideOnSwap P p cap n size now = .ok () := by
  unfold decideOnSwap validateSwapProposal isLeaseValid
  rw [decide_eq_true hlease, hv, hroom]
  rfl

/-- A refused proposal is dropped and counted. -/
theorem post_refused
    (h : p.verifyContentSignature P = false
      ∨ p.lease.expiresAt ≤ env.now) :
    (handleMaintenanceProposal P env p).post s
      = (reconciled env p s).updSwaps fun st =>
          { st.removeProposal (proposalId P p) with
            rejectedSwaps := st.rejectedSwaps + 1 } := by
  obtain ⟨e, he⟩ := decide_refused (P := P) h
  rw [post_proposal, he]

/-- What the prepare phase does depends on what it writes down. -/
theorem post_prepareSwap_congr (h : ProposalCovered p q)
    (hpid : proposalId P p = proposalId P q)
    (hentry : ∀ retId len at', accepterEntry P p retId len at'
      = accepterEntry P q retId len at') :
    (prepareSwap P env p size n).post s
      = (prepareSwap P env q size n).post s := by
  have hpick : pickReturn env p = pickReturn env q := by
    unfold pickReturn
    rw [h.chunkId]
  unfold prepareSwap
  rw [hpick, hpid, h.fromNode]
  simp only [hentry]

/-- Proposals of the same terms do the same. -/
theorem proposal_same (h : ProposalCovered p q)
    (hterms : ProposalTerms P p q) :
    (handleMaintenanceProposal P env p).post s
      = (handleMaintenanceProposal P env q).post s := by
  unfold ProposalTerms at hterms
  by_cases hv : p.verifyContentSignature P = true
  · rw [if_pos hv] at hterms
    obtain ⟨hexpiry, hrest⟩ := hterms
    have hpid : proposalId P p = proposalId P q := h.id_eq hexpiry
    rcases hrest with hzero | ⟨htoken, hproof⟩
    · -- the lease is never valid
      rw [post_refused (.inr (by omega)), post_refused (.inr (by omega)),
        h.reconciled_eq, hpid]
    · have hentry : ∀ retId len at', accepterEntry P p retId len at'
          = accepterEntry P q retId len at' := by
        intro retId len at'
        unfold accepterEntry
        rw [hpid, h.fromNode, h.chunkId, h.root, hproof, htoken, hexpiry,
          h.key]
      rw [post_proposal, post_proposal, h.decide_eq hexpiry,
        h.reconciled_eq, hpid, h.fromNode]
      simp only [post_prepareSwap_congr h hpid hentry]
  · rw [if_neg hv] at hterms
    rw [Bool.not_eq_true] at hv
    rw [post_refused (.inl hv), post_refused (.inl (h.verify.symm.trans hv)),
      h.reconciled_eq, hterms]

/-- A node that knows a proposal. -/
def informed (P : Prims) (p : SwapProposal) : TransportState :=
  { freshNode (Bytes.zero 16) (Bytes.zero 32) ChunkHolder.new 0 with
    swapState :=
      { SwapState.new with
        pendingProposals := FMap.insert ∅ (proposalId P p) p } }

/-- A node with a chunk to give and room for one. -/
def dealing (c : ChunkId) (size : Nat) : TransportState :=
  freshNode (Bytes.zero 16) (Bytes.zero 32) ⟨FMap.insert ∅ c [], ∅⟩ size

/-- There a valid proposal is taken up. -/
theorem dealing_prepares {c : ChunkId} (hc : c ≠ p.chunkId)
    (hv : p.verifyContentSignature P = true)
    (hlease : now < p.lease.expiresAt) :
    ∃ retId, (handleMaintenanceProposal P (quietEnv 0 now) p).post
        (dealing c ENCRYPTED_CHUNK_SIZE)
      = prepared P (quietEnv 0 now) p retId ENCRYPTED_CHUNK_SIZE
          (reconciled (quietEnv 0 now) p (dealing c ENCRYPTED_CHUNK_SIZE)) := by
  have hopens : opens P (quietEnv 0 now) p (dealing c ENCRYPTED_CHUNK_SIZE)
      = true := by
    unfold opens
    generalize ENCRYPTED_CHUNK_SIZE = size
    have hroom : ((dealing c size).storageCapacity.reconcile
        (dealing c size).chunkHolder.totalBytes).canAccept size
          (((dealing c size).peerChunkCounts.get p.fromNode).getD 0)
        = true := by
      have htotal : (dealing c size).chunkHolder.totalBytes = 0 := by
        have hsum := FMap.sumBy_insert ∅ List.length c ([] : List UInt8)
        rw [FMap.weightAt_of_none rfl, FMap.sumBy_empty] at hsum
        exact hsum
      rw [htotal]
      show (StorageCapacity.new size).canAccept size 0 = true
      simp [StorageCapacity.canAccept, StorageCapacity.new]
    have hpick : pickReturn (quietEnv 0 now) p (dealing c size) = some c := by
      unfold pickReturn
      show (IterOrder.bytewise.find (FMap.insert ∅ c []) _).map Prod.fst = _
      rw [IterOrder.find_insert_empty]
      simp [hc]
    have hdecision : decideOnSwap P p
        ((dealing c size).storageCapacity.reconcile
          (dealing c size).chunkHolder.totalBytes)
        (((dealing c size).peerChunkCounts.get p.fromNode).getD 0) size
        (quietEnv 0 now).now = .ok () := decide_accepted hv hlease hroom
    rw [hdecision, hpick]
    rfl
  obtain ⟨retId, -, hpost, -⟩ := run_proposal hopens
  exact ⟨retId, hpost⟩

theorem prepared_entry (P : Prims) (env : Env) (p : SwapProposal)
    (retId : ChunkId) (size : Nat) (s : TransportState) :
    (prepared P env p retId size s).swapState.pendingSwaps.get
        (proposalId P p) = some (accepterEntry P p retId size env.now) :=
  FMap.get_insert_self _ _ _

/-- Some chunk is another one. -/
theorem exists_other (c : ChunkId) : ∃ d : ChunkId, d ≠ c := by
  by_cases hc : c = Bytes.zero 32
  · refine ⟨Bytes.fill 32 1, ?_⟩
    rw [hc]
    decide
  · exact ⟨Bytes.zero 32, Ne.symm hc⟩

/-- When one lease outlives the other, there is a time at which only one
proposal is refused. -/
theorem expiry_le (h : ProposalCovered p q)
    (hv : p.verifyContentSignature P = true)
    (hsame : ∀ env s, SameOutcome (handleMaintenanceProposal P env p)
      (handleMaintenanceProposal P env q) s) :
    q.lease.expiresAt ≤ p.lease.expiresAt := by
  by_contra hlt
  rw [Nat.not_le] at hlt
  obtain ⟨c, hc⟩ := exists_other q.chunkId
  have hswaps := (hsame (quietEnv 0 p.lease.expiresAt)
    (dealing c ENCRYPTED_CHUNK_SIZE)).swaps
  obtain ⟨retId, hq⟩ := dealing_prepares hc (h.verify.symm.trans hv) hlt
  rw [hq, post_refused (.inr le_rfl)] at hswaps
  have hcount : (dealing c ENCRYPTED_CHUNK_SIZE).swapState.rejectedSwaps + 1
      = (dealing c ENCRYPTED_CHUNK_SIZE).swapState.rejectedSwaps :=
    congrArg SwapState.rejectedSwaps hswaps
  omega

/-- Proposals that do the same everywhere have the same terms. -/
theorem proposal_terms (h : ProposalCovered p q)
    (hsame : ∀ env s, SameOutcome (handleMaintenanceProposal P env p)
      (handleMaintenanceProposal P env q) s) :
    ProposalTerms P p q := by
  unfold ProposalTerms
  by_cases hv : p.verifyContentSignature P = true
  · rw [if_pos hv]
    have hback : ∀ env s, SameOutcome (handleMaintenanceProposal P env q)
        (handleMaintenanceProposal P env p) s :=
      fun env s => (hsame env s).symm
    have hexpiry : p.lease.expiresAt = q.lease.expiresAt :=
      Nat.le_antisymm (expiry_le h.symm (h.verify.symm.trans hv) hback)
        (expiry_le h hv hsame)
    refine ⟨hexpiry, ?_⟩
    by_cases hzero : p.lease.expiresAt = 0
    · exact .inl hzero
    · right
      obtain ⟨c, hc⟩ := exists_other p.chunkId
      have hswaps := (hsame (quietEnv 0 0)
        (dealing c ENCRYPTED_CHUNK_SIZE)).swaps
      obtain ⟨rp, hp⟩ := dealing_prepares hc hv (Nat.pos_of_ne_zero hzero)
      obtain ⟨rq, hq⟩ := dealing_prepares (h.chunkId ▸ hc)
        (h.verify.symm.trans hv) (hexpiry ▸ Nat.pos_of_ne_zero hzero)
      have hpid : proposalId P p = proposalId P q := h.id_eq hexpiry
      rw [hp, hq] at hswaps
      -- both entries stand under the one id
      have hentry := prepared_entry P (quietEnv 0 0) p rp
        ENCRYPTED_CHUNK_SIZE
        (reconciled (quietEnv 0 0) p (dealing c ENCRYPTED_CHUNK_SIZE))
      rw [hswaps, hpid, prepared_entry] at hentry
      have hsome := Option.some.inj hentry
      exact ⟨(congrArg PendingSwap.renewalToken hsome).symm,
        (congrArg PendingSwap.merkleProof hsome).symm⟩
  · rw [if_neg hv]
    rw [Bool.not_eq_true] at hv
    have hswaps := (hsame (quietEnv 0 0) (informed P p)).swaps
    rw [post_refused (.inl hv),
      post_refused (.inl (h.verify.symm.trans hv))] at hswaps
    by_contra hne
    have hget : ((informed P p).swapState.pendingProposals.erase
          (proposalId P p)).get (proposalId P p)
        = ((informed P p).swapState.pendingProposals.erase
          (proposalId P q)).get (proposalId P p) :=
      congrArg (fun st => st.pendingProposals.get (proposalId P p)) hswaps
    rw [FMap.get_erase_self, FMap.get_erase_ne _ hne] at hget
    have hknown : (informed P p).swapState.pendingProposals.get
        (proposalId P p) = some p := FMap.get_insert_self _ _ _
    rw [hknown] at hget
    cases hget

-- ==== the exact rule

/-- Under one signature two messages have the same outcome in every state
exactly when they agree on the terms their signature leaves out. -/
theorem signed_outcome_iff (P : Prims) (m m' : SignedMessage)
    (h : SameSigned m m') :
    (∀ env s, SameOutcome (m.handle P env) (m'.handle P env) s)
      ↔ SameTerms P m m' := by
  cases m with
  | proposal p =>
      cases m' with
      | proposal q =>
          have hcovered := proposalCovered h
          exact ⟨proposal_terms hcovered,
            fun ht env s => .of_post (proposal_same hcovered ht)⟩
      | accept b => cases h.kind_eq
      | commit d => cases h.kind_eq
      | abort d => cases h.kind_eq
  | accept a =>
      cases m' with
      | accept b =>
          have hcovered := acceptCovered h
          exact ⟨fun hsame => accept_terms hcovered (hsame _ _),
            fun ht env s => .of_post (accept_same hcovered ht)⟩
      | proposal q => cases h.kind_eq
      | commit d => cases h.kind_eq
      | abort d => cases h.kind_eq
  | commit c =>
      cases m' with
      | commit d =>
          obtain rfl := commit_eq h
          exact iff_of_true (fun env s => .of_post rfl) trivial
      | proposal q => cases h.kind_eq
      | accept b => cases h.kind_eq
      | abort d => cases h.kind_eq
  | abort c =>
      cases m' with
      | abort d =>
          exact iff_of_true (fun env s => .of_post (abort_same h)) trivial
      | proposal q => cases h.kind_eq
      | accept b => cases h.kind_eq
      | commit d => cases h.kind_eq

/-- A signed accept. -/
def honestAccept : SwapAccept :=
  (createSwapAccept Prims.plain (Bytes.fill 16 2) (Bytes.fill 32 9)
    (Bytes.fill 32 5) (Bytes.fill 32 7) 86400 100 (Bytes.fill 32 6)).sign
      Prims.plain (Bytes.fill 32 2) (Bytes.fill 32 8)

/-- The same accept with a lease that ends at once. -/
def shortenedAccept : SwapAccept :=
  { honestAccept with lease := { honestAccept.lease with expiresAt := 1 } }

theorem honestAccept_verifies :
    honestAccept.verifySignature Prims.plain = true := by decide

/-- A relay shortens the lease of a signed accept, and the node that waits
for it takes the shortened lease. -/
theorem edited_accept :
    SameSigned (.accept honestAccept) (.accept shortenedAccept)
      ∧ honestAccept.verifySignature Prims.plain = true
      ∧ ¬ SameOutcome
        (SignedMessage.handle Prims.plain (quietEnv 0 0)
          (.accept honestAccept))
        (SignedMessage.handle Prims.plain (quietEnv 0 0)
          (.accept shortenedAccept))
        (listening ENCRYPTED_CHUNK_SIZE honestAccept.proposalId
          honestAccept.fromNode) := by
  have hsigned : SameSigned (.accept honestAccept)
      (.accept shortenedAccept) := ⟨rfl, rfl, rfl, rfl⟩
  refine ⟨hsigned, honestAccept_verifies, ?_⟩
  intro hsame
  have hterms := accept_terms (acceptCovered hsigned) hsame
    honestAccept_verifies
  have hexpiry : (86500 : Nat) = 1 := hterms.2.1
  omega

/-- A relay may edit the master key, which nobody reads. -/
theorem edited_key :
    SameSigned (.accept honestAccept)
        (.accept { honestAccept with encryptedMasterKey := [1] })
      ∧ ∀ env s, SameOutcome
        (SignedMessage.handle Prims.plain env (.accept honestAccept))
        (SignedMessage.handle Prims.plain env
          (.accept { honestAccept with encryptedMasterKey := [1] })) s := by
  have hsigned : SameSigned (.accept honestAccept)
      (.accept { honestAccept with encryptedMasterKey := [1] }) :=
    ⟨rfl, rfl, rfl, rfl⟩
  exact ⟨hsigned, (signed_outcome_iff Prims.plain (.accept honestAccept)
    (.accept { honestAccept with encryptedMasterKey := [1] }) hsigned).2
      fun _ => ⟨rfl, rfl, .inl rfl⟩⟩

end StaticNet
