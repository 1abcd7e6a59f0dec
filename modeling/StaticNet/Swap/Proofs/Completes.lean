/-
An honest swap completes.

The proposal and its answer take two nodes that can swap (`Ready`) to where
both are standing, with five deliveries left; from there on no schedule gets
stuck, and when nothing is left both nodes have stored the chunk they were
to get (`Through`).
-/
import StaticNet.Swap.Proofs.Standing

namespace StaticNet

open Proc TransportState

namespace Duo

variable {P : Prims} {q : Progress} {w : Duo} {env : Env}

-- ======= the opening

/-- Two nodes that can swap: the proposal opens at the accepter, each holds
the chunk it gives and lacks the one it gets, nothing else waits for these,
and the proposer has room for one more. -/
structure Ready (P : Prims) (w : Duo) (x : Side) (env' : Env)
    (p : SwapProposal) (retId : ChunkId) (dx dy : List UInt8) : Prop where
  distinct : (w.node .left).nodeId ≠ (w.node .right).nodeId
  opens : opens P env' (w.ownProposal x p) (w.node x.other) = true
  picks : pickReturn env' (w.ownProposal x p) (w.node x.other) = some retId
  room : (w.node x).storageCapacity.canAccept ENCRYPTED_CHUNK_SIZE 0 = true
  offered : (w.node x).chunkHolder.getChunk p.chunkId = some dx
  returned : (w.node x.other).chunkHolder.getChunk retId = some dy
  offered_size : dx.length = ENCRYPTED_CHUNK_SIZE
  returned_size : dy.length = ENCRYPTED_CHUNK_SIZE
  gate : passesGate P p.contentRoot p.merkleProof dx = true
  lacks : (w.node x).chunkHolder.hasChunk retId = false
    ∧ (w.node x.other).chunkHolder.hasChunk p.chunkId = false
  named : retId ≠ Bytes.zero 32
  alone : ∀ pid swap, pid ≠ proposalId P (w.ownProposal x p) →
    ((w.node x).swapState.pendingSwaps.get pid = some swap →
      awaits retId swap = false)
    ∧ ((w.node x.other).swapState.pendingSwaps.get pid = some swap →
      awaits p.chunkId swap = false)
  pinned : ∀ z, (w.node z).identity.pins (w.node z.other).nodeId
    (P.edPublic (w.node z.other).identityKey) = true
  fresh : (w.node x).maintenanceNonces.get
    (answer P env' (w.ownProposal x p) retId (w.node x.other)).nonce = none

/-- What the two nodes agree on. -/
def agreed (P : Prims) (w : Duo) (x : Side) (env env' : Env)
    (p : SwapProposal) (retId : ChunkId) (dx dy : List UInt8) : Terms where
  proposer := x
  accept := answer P env' (w.ownProposal x p) retId (w.node x.other)
  offered := ⟨proposerEntry P (w.node x.other).nodeId (w.ownProposal x p)
    env.now, dy⟩
  answered := ⟨accepterEntry P (w.ownProposal x p) retId
    ENCRYPTED_CHUNK_SIZE env'.now, dx⟩
  base := fun z =>
    if z = x then (w.node z).holdings
    else
      { (w.node z).holdings with
        storageCapacity :=
          ((w.node z).storageCapacity.reconcile
            (w.node z).chunkHolder.totalBytes).reserve
              ENCRYPTED_CHUNK_SIZE }
  ident := fun z => (w.node z).identity

/-- The proposal is made and delivered. -/
def opened (P : Prims) (w : Duo) (x : Side) (env env' : Env)
    (p : SwapProposal) : Duo :=
  Duo.step P (Duo.step P w (.propose x env p)) (.deliver w.net.length env')

variable {x : Side} {env' : Env} {p : SwapProposal} {retId : ChunkId}
  {dx dy : List UInt8}

/-- An accept without a root leaves the one of the entry. -/
theorem adoptTerms_barter {a : SwapAccept} {size : Nat}
    (h : a.returnContentRoot = zeroRoot) (swap : PendingSwap) :
    adoptTerms a size swap
      = { swap with
          theirChunkId := a.chunkId
          reservedBytes := size
          renewalToken := a.lease.renewalToken
          leaseExpiresAt := a.lease.expiresAt } :=
  if_neg (not_not.2 h)

/-- The proposer's part names the return chunk, with no content behind
it. -/
theorem agreed_adopted (P : Prims) (w : Duo) (x : Side) (env env' : Env)
    (p : SwapProposal) (retId : ChunkId) (dx dy : List UInt8) :
    ∃ token expires,
      (agreed P w x env env' p retId dx dy).adopted
        = ⟨{ proposerEntry P (w.node x.other).nodeId (w.ownProposal x p)
              env.now with
            theirChunkId := retId
            reservedBytes := ENCRYPTED_CHUNK_SIZE
            renewalToken := token
            leaseExpiresAt := expires }, dy⟩ := by
  refine ⟨(answer P env' (w.ownProposal x p) retId
    (w.node x.other)).lease.renewalToken, (answer P env'
    (w.ownProposal x p) retId (w.node x.other)).lease.expiresAt, ?_⟩
  unfold Terms.adopted
  rw [adoptTerms_barter rfl]
  rfl

theorem agreed_sound (env : Env) (hsign : P.Signs)
    (h : Ready P w x env' p retId dx dy) :
    (agreed P w x env env' p retId dx dy).Sound P := by
  obtain ⟨token, expires, hadopted⟩ :=
    agreed_adopted P w x env env' p retId dx dy
  have hx : (agreed P w x env env' p retId dx dy).part x
      = (agreed P w x env env' p retId dx dy).adopted :=
    Terms.part_proposer
  have hy : (agreed P w x env env' p retId dx dy).part x.other
      = (agreed P w x env env' p retId dx dy).answered :=
    Terms.part_other
  have hbx : (agreed P w x env env' p retId dx dy).base x
      = (w.node x).holdings := if_pos rfl
  refine
    { distinct := h.distinct
      one_id := rfl
      accept_id := rfl
      accept_from := rfl
      accept_signed := hsign _ _
      accept_key := rfl
      pinned := h.pinned
      room := ?_
      peer := ?_
      fair := ?_
      unnamed := ?_
      supplies := ?_ }
  · rw [show (agreed P w x env env' p retId dx dy).proposer = x from rfl,
      hbx]
    exact h.room
  · intro z
    rcases Side.eq_or x z with rfl | rfl
    · rw [hx, hadopted]
      rfl
    · rw [hy, Side.other_other]
      rfl
  · intro z
    rcases Side.eq_or x z with rfl | rfl
    · rw [hx, hadopted, hbx]
      exact ⟨h.returned_size, rfl, h.lacks.1, fun pid swap hget hne =>
        (h.alone pid swap hne).1 hget⟩
    · rw [hy]
      unfold agreed
      simp only [if_neg (Side.other_ne x)]
      exact ⟨h.offered_size, h.gate, h.lacks.2, fun pid swap hget hne =>
        (h.alone pid swap hne).2 hget⟩
  · intro commitIn
    rw [hadopted]
    unfold awaits Part.stage
    have hne : Bytes.zero 32 ≠ retId := h.named.symm
    simp [agreed, proposerEntry, hne]
  · intro z
    rcases Side.eq_or x z with rfl | rfl
    · rw [hy, hbx]
      exact h.offered
    · rw [Side.other_other, hx, hadopted]
      unfold agreed
      simp only [if_neg (Side.other_ne x)]
      exact h.returned

/-- Once the proposal is answered, both nodes are standing. -/
theorem opened_standing (env : Env) (h : Ready P w x env' p retId dx dy) :
    Standing P (agreed P w x env env' p retId dx dy) .start
      (opened P w x env env' p) := by
  -- the proposal
  obtain ⟨w₁, hw₁, hx₁, hy₁, hnet₁⟩ : ∃ w₁,
      Duo.step P w (.propose x env p) = w₁
        ∧ w₁.node x = (w.node x).updSwaps (fun st => st.startPendingSwap
            (proposerEntry P (w.node x.other).nodeId (w.ownProposal x p)
              env.now))
        ∧ w₁.node x.other = w.node x.other
        ∧ w₁.net = w.net ++ [⟨x, (w.node x.other).nodeId,
            .proposal (w.ownProposal x p)⟩] := by
    refine ⟨_, rfl, exec_node_self w x _, exec_node_other w x _, ?_⟩
    unfold Duo.step
    exact congrArg (· ++ _) (List.append_nil w.net)
  -- the answer
  obtain ⟨retId', hpick, hpost, hacts⟩ := run_proposal h.opens
  rw [h.picks] at hpick
  obtain rfl := Option.some.inj hpick
  have hto : w₁.addressee ⟨x, (w.node x.other).nodeId,
      .proposal (w.ownProposal x p)⟩ = some x.other := by
    unfold Duo.addressee
    exact if_pos (congrArg TransportState.nodeId hy₁)
  have hw₂ : opened P w x env env' p
      = w₁.exec x.other
          (handleMaintenanceProposal P env' (w.ownProposal x p)) := by
    unfold opened
    rw [hw₁]
    exact step_deliver
      (by rw [hnet₁]; exact List.getElem?_concat_length) hto
  have hx₂ : (w₁.exec x.other (handleMaintenanceProposal P env'
      (w.ownProposal x p))).node x = w₁.node x := by
    have hback := exec_node_other w₁ x.other
      (handleMaintenanceProposal P env' (w.ownProposal x p))
    rwa [Side.other_other] at hback
  have hy₂ : (w₁.exec x.other (handleMaintenanceProposal P env'
      (w.ownProposal x p))).node x.other
        = prepared P env' (w.ownProposal x p) retId ENCRYPTED_CHUNK_SIZE
          (reconciled env' (w.ownProposal x p) (w.node x.other)) := by
    rw [exec_node_self, hy₁, hpost]
  rw [hw₂]
  refine ⟨?_, ?_, ?_, fun _ => rfl, nofun, ?_, nofun, nofun⟩
  · intro z
    rcases Side.eq_or x z with rfl | rfl
    · rw [hx₂, hx₁]
      unfold Terms.holdings agreed
      simp only [if_true]
      rfl
    · rw [hy₂]
      unfold Terms.holdings agreed
      simp only [if_neg (Side.other_ne x)]
      rfl
  · intro z
    rcases Side.eq_or x z with rfl | rfl
    · rw [hx₂, hx₁]
      rfl
    · rw [hy₂]
      rfl
  · have hsends : (w₁.exec x.other (handleMaintenanceProposal P env'
        (w.ownProposal x p))).net = w₁.net ++ [⟨x.other, (w.node x).nodeId,
          .message (.accept (answer P env' (w.ownProposal x p) retId
            (w.node x.other)))⟩] := by
      unfold Duo.exec
      rw [hy₁, hacts]
      rfl
    rw [hsends]
    exact List.mem_append_right _ (List.mem_singleton.2 rfl)
  · intro _
    show ((w₁.exec x.other _).node x).maintenanceNonces.get _ = none
    rw [hx₂, hx₁]
    exact h.fresh

-- ======= the outcome

/-- The swap is through: each node has the chunk it was to get, with its
lease and counted for its peer, and neither has an entry or a reservation
left. -/
structure Through (w w' : Duo) (pid : ProposalId)
    (gets : Side → ChunkId × List UInt8) (z : Side) : Prop where
  stored : (w'.node z).chunkHolder.getChunk (gets z).1 = some (gets z).2
  closed : (w'.node z).swapState.pendingSwaps.get pid = none
  reserved : (w'.node z).storageCapacity.reservedBytes
    = (w.node z).storageCapacity.reservedBytes
  counted : (w'.node z).peerChunkCounts.get (w.node z.other).nodeId
    = some (((w.node z).peerChunkCounts.get
        (w.node z.other).nodeId).getD 0 + 1)
  leased : ((w'.node z).leaseManager.leases.get (gets z).1).isSome = true

/-- What each node gets. -/
def gets (x : Side) (p : SwapProposal) (retId : ChunkId)
    (dx dy : List UInt8) (z : Side) : ChunkId × List UInt8 :=
  if z = x then (retId, dy) else (p.chunkId, dx)

/-- With nothing left, everything is in. -/
theorem left_zero (hleft : q.left = 0) :
    q.accepted = true ∧ ∀ z, (q.sent z).isSome = true ∧ q.heard z = true := by
  have hnone : ∀ z, (q.sent z).isNone = !(q.sent z).isSome := by
    intro z
    cases q.sent z <;> rfl
  unfold Progress.left at hleft
  rw [hnone, hnone] at hleft
  have hzero : ∀ b : Bool, (!b).toNat = 0 → b = true := by decide
  refine ⟨hzero _ (by omega), fun z => ?_⟩
  cases z with
  | left => exact ⟨hzero _ (by omega), hzero _ (by omega)⟩
  | right => exact ⟨hzero _ (by omega), hzero _ (by omega)⟩

/-- What a completed part leaves, seen from its start. -/
theorem through_of_holdings {w₀ : Duo} {z : Side} {part : Part}
    {b : Holdings} {pid : ProposalId} {gets : Side → ChunkId × List UInt8}
    (hs : (w.node z).holdings = part.holdings b true true)
    (hid : part.entry.proposalId = pid)
    (hpeer : part.entry.peer = (w₀.node z.other).nodeId)
    (hgets : gets z = (part.entry.theirChunkId, part.data))
    (hcounts : b.peerChunkCounts = (w₀.node z).peerChunkCounts)
    (hreserved : b.storageCapacity.reservedBytes - part.entry.reservedBytes
      = (w₀.node z).storageCapacity.reservedBytes) :
    Through w₀ w pid gets z := by
  have hholder := congrArg Holdings.chunkHolder hs
  have hleases := congrArg Holdings.leaseManager hs
  have hpend := congrArg Holdings.pendingSwaps hs
  have hcap := congrArg Holdings.storageCapacity hs
  have hpeers := congrArg Holdings.peerChunkCounts hs
  refine ⟨?_, ?_, ?_, ?_, ?_⟩
  · rw [hgets]
    exact (congrArg (·.getChunk part.entry.theirChunkId) hholder).trans
      (FMap.get_insert_self _ _ _)
  · rw [← hid]
    exact (congrArg (·.get part.entry.proposalId) hpend).trans
      (FMap.get_erase_self _ _)
  · exact (congrArg StorageCapacity.reservedBytes hcap).trans hreserved
  · rw [← hcounts, ← hpeer]
    exact (congrArg (·.get part.entry.peer) hpeers).trans
      (FMap.get_insert_self _ _ _)
  · rw [hgets]
    exact congrArg Option.isSome
      ((congrArg (·.leases.get part.entry.theirChunkId) hleases).trans
        (FMap.get_insert_self _ _ _))

theorem Standing.through {w₀ : Duo}
    (h : Standing P (agreed P w₀ x env env' p retId dx dy) q w)
    (hleft : q.left = 0) (z : Side) :
    Through w₀ w (proposalId P (w₀.ownProposal x p))
      (gets x p retId dx dy) z := by
  obtain ⟨haccepted, hin⟩ := left_zero hleft
  have hs := h.holdings z
  unfold Terms.holdings at hs
  rw [haccepted, (hin z).1, (hin z).2] at hs
  obtain ⟨token, expires, hadopted⟩ :=
    agreed_adopted P w₀ x env env' p retId dx dy
  rcases Side.eq_or x z with rfl | rfl
  · have hx : z = (agreed P w₀ z env env' p retId dx dy).proposer := rfl
    have hbase : (agreed P w₀ z env env' p retId dx dy).base z
        = (w₀.node z).holdings := if_pos rfl
    rw [if_pos hx, if_pos rfl, hadopted] at hs
    refine through_of_holdings hs rfl rfl (if_pos rfl) ?_ ?_
    · exact congrArg Holdings.peerChunkCounts hbase
    · exact (Nat.add_sub_cancel _ _).trans (congrArg
        (fun b : Holdings => b.storageCapacity.reservedBytes) hbase)
  · have hbase : (agreed P w₀ x env env' p retId dx dy).base x.other
        = { (w₀.node x.other).holdings with
            storageCapacity :=
              ((w₀.node x.other).storageCapacity.reconcile
                (w₀.node x.other).chunkHolder.totalBytes).reserve
                  ENCRYPTED_CHUNK_SIZE } := if_neg (Side.other_ne x)
    have hne : x.other ≠ (agreed P w₀ x env env' p retId dx dy).proposer :=
      Side.other_ne x
    rw [if_neg hne, hbase] at hs
    refine through_of_holdings hs rfl ?_ (if_neg (Side.other_ne x)) rfl
      (Nat.add_sub_cancel _ _)
    rw [Side.other_other]
    rfl

/-- An honest swap completes: in every order in which causality lets the
packets arrive, with the chunks served and delivered any number of times,
the nodes are through when nothing is left, and until then one more
delivery can be made. -/
theorem honest_swap_completes (P : Prims) (hsign : P.Signs) (w : Duo)
    (x : Side) (env env' : Env) (p : SwapProposal) (retId : ChunkId)
    (dx dy : List UInt8) (h : Ready P w x env' p retId dx dy)
    (es : List DuoEvent)
    (hall : AllAllowed P (agreed P w x env env' p retId dx dy) .start
      (opened P w x env env' p) es) :
    let T := agreed P w x env env' p retId dx dy
    let w' := Duo.run P (opened P w x env env' p) es
    let q := progress P T .start (opened P w x env env' p) es
    (q.left = 0 → ∀ z, Through w w'
        (proposalId P (w.ownProposal x p)) (gets x p retId dx dy) z)
      ∧ (0 < q.left → ∀ env'', (∀ z, FreshDraw T z w' env'') →
        ∃ es', AllAllowed P T q w' es'
          ∧ (progress P T q w' es').left < q.left) := by
  have hT := agreed_sound env hsign h
  have hs := (opened_standing env h).run hT hsign hall
  exact ⟨fun hleft z => hs.through hleft z,
    fun hleft env'' hfresh => hs.unstuck hT hleft hfresh⟩

-- ======= two traders

theorem barter_ownProposal (data : List UInt8) :
    (barterStart data).ownProposal .left proposerOffer = proposerOffer := by
  show { proposerOffer with fromNode := Bytes.fill 16 1 } = proposerOffer
  decide

theorem barter_ready {data : List UInt8}
    (hsize : data.length = ENCRYPTED_CHUNK_SIZE) :
    Ready Prims.plain (barterStart data) .left (quietEnv 21 200)
      proposerOffer (Bytes.fill 32 10) data data := by
  have hown := barter_ownProposal data
  obtain ⟨hopens, hpick⟩ := barterNode_opens hsize
  have hholds : ∀ seed chunk : UInt8, (barterNode seed chunk
      data).chunkHolder.getChunk (Bytes.fill 32 chunk) = some data :=
    fun _ _ => FMap.get_insert_self _ _ _
  have hlacks : ∀ seed chunk other : UInt8,
      Bytes.fill 32 other ≠ Bytes.fill 32 chunk →
      (barterNode seed chunk data).chunkHolder.hasChunk
        (Bytes.fill 32 other) = false := fun _ _ _ hne =>
    congrArg Option.isSome (FMap.get_insert_ne _ _ hne)
  exact
    { distinct := (barterStart_initial data).distinct
      opens := by rw [hown]; exact hopens
      picks := by rw [hown]; exact hpick
      room := by
        show (barterNode 1 3 []).storageCapacity.canAccept
          ENCRYPTED_CHUNK_SIZE 0 = true
        decide
      offered := hholds 1 3
      returned := hholds 2 10
      offered_size := hsize
      returned_size := hsize
      gate := rfl
      lacks := ⟨hlacks 1 3 10 (by decide), hlacks 2 10 3 (by decide)⟩
      named := by decide
      alone := fun _ _ _ => ⟨nofun, nofun⟩
      pinned := fun z => by cases z <;> rfl
      fresh := rfl }

/-- The accept, the proposer's chunk, and the commit on it; the other chunk
is served but has not arrived. -/
def barterSchedule : List DuoEvent :=
  [.deliver 1 (quietEnv 31 200), .serve .left (Bytes.fill 32 3),
    .deliver 2 (quietEnv 22 200), .serve .right (Bytes.fill 32 10),
    .deliver 3 (quietEnv 33 200)]

def barterTerms (data : List UInt8) : Terms :=
  agreed Prims.plain (barterStart data) .left (quietEnv 30 200)
    (quietEnv 21 200) proposerOffer (Bytes.fill 32 10) data data

theorem barter_opened {data : List UInt8}
    (hsize : data.length = ENCRYPTED_CHUNK_SIZE) :
    opened Prims.plain (barterStart data) .left (quietEnv 30 200)
        (quietEnv 21 200) proposerOffer
      = pair (barterL₁ data) (barterR₁ data) ((barterNet data).take 2)
          [] [] := by
  unfold opened
  rw [step_proposing]
  exact step_answering hsize

theorem barterSchedule_allowed {data : List UInt8}
    (hsize : data.length = ENCRYPTED_CHUNK_SIZE) :
    AllAllowed Prims.plain (barterTerms data) .start
      (opened Prims.plain (barterStart data) .left (quietEnv 30 200)
        (quietEnv 21 200) proposerOffer) barterSchedule := by
  have haccept : barterAccept = (barterTerms data).accept := by
    unfold barterTerms agreed
    rw [barter_ownProposal]
    rfl
  have hid : (barterTerms data).offered.entry.proposalId = offerId := by
    unfold barterTerms agreed
    rw [barter_ownProposal]
    rfl
  rw [barter_opened hsize]
  refine ⟨⟨rfl, rfl, haccept, rfl⟩, ?_⟩
  rw [step_adopting]
  refine ⟨trivial, ?_⟩
  rw [step_servingLeft]
  refine ⟨⟨rfl, rfl, rfl, fun _ => ⟨?_, fun _ => ?_⟩⟩, ?_⟩
  · show (barterL₂ []).maintenanceNonces.get _ = none
    decide
  · rw [← haccept]
    decide
  rw [step_committingRight hsize]
  refine ⟨trivial, ?_⟩
  rw [step_servingRight]
  refine ⟨⟨rfl, ?_, rfl⟩, trivial⟩
  show some (ownCommit Prims.plain (quietEnv 22 200)
    (barterTerms data).offered.entry.proposalId (barterR₁ data))
      = some barterCommit
  rw [hid]
  rfl

/-- Two deliveries are left on this schedule, and one more can be made. -/
theorem honest_swap_completes_barter :
    let data := List.replicate ENCRYPTED_CHUNK_SIZE (0 : UInt8)
    let w' := Duo.run .plain (opened .plain (barterStart data) .left
      (quietEnv 30 200) (quietEnv 21 200) proposerOffer) barterSchedule
    let q := progress .plain (barterTerms data) .start
      (opened .plain (barterStart data) .left (quietEnv 30 200)
        (quietEnv 21 200) proposerOffer) barterSchedule
    q.left = 2 ∧ ∀ env, (∀ z, FreshDraw (barterTerms data) z w' env) →
      ∃ es, AllAllowed .plain (barterTerms data) q w' es
        ∧ (progress .plain (barterTerms data) q w' es).left < q.left := by
  have hsize : (List.replicate ENCRYPTED_CHUNK_SIZE (0 : UInt8)).length
      = ENCRYPTED_CHUNK_SIZE := List.length_replicate
  generalize List.replicate ENCRYPTED_CHUNK_SIZE (0 : UInt8) = data
    at hsize
  have hleft : (progress .plain (barterTerms data) .start
      (opened .plain (barterStart data) .left (quietEnv 30 200)
        (quietEnv 21 200) proposerOffer) barterSchedule).left = 2 := by
    rw [barter_opened hsize]
    unfold barterSchedule
    simp only [progress, step_adopting, step_servingLeft,
      step_committingRight hsize, step_servingRight]
    rfl
  have hpos : 0 < (progress .plain (barterTerms data) .start
      (opened .plain (barterStart data) .left (quietEnv 30 200)
        (quietEnv 21 200) proposerOffer) barterSchedule).left := by
    rw [hleft]
    decide
  exact ⟨hleft, (honest_swap_completes .plain plain_signs
    (barterStart data) .left (quietEnv 30 200) (quietEnv 21 200)
    proposerOffer (Bytes.fill 32 10) data data (barter_ready hsize)
    barterSchedule (barterSchedule_allowed hsize)).2 hpos⟩

end Duo

end StaticNet
