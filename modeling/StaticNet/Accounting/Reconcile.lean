/-
Reconciliation as last-write-wins: what merging does to one peer's
record, and when two orders, or two nodes, come to the same end.

# One peer at a time

`reconcile` treats every peer's record as a register: the entries of the
batch that pass the bounds are written to it in turn, and each takes the
register when its time stamp is strictly later (`get_reconcile`). From
there the general facts apply: a batch applied again changes nothing,
and no record's last interaction goes back.

# Ties

The stamps are whole seconds, and on a tie each side keeps its own
entry. Two batches commute exactly when their newest entries for a peer
do not tie with different contents above the record (`Commutes`), and
two nodes that merge one another's export agree on a peer exactly when
their two records are not different records of one second.
-/
import StaticNet.Accounting.Basic
import StaticNet.Lib.LastWrite

namespace StaticNet

open AccountingState LastWrite

variable {st : AccountingState} {p : NodeId} {now : UInt64}
  {c : PeerCredit} {entry : NodeId × PeerCredit}
  {batch : List (NodeId × PeerCredit)}

-- ========= one entry

/-- When a record was written. -/
def stampSecs (c : PeerCredit) : Nat := c.lastInteraction.toNat

theorem later_adopts {ours remote : PeerCredit}
    (h : ours.lastInteraction < remote.lastInteraction) :
    later stampSecs (some ours) (some remote) = some remote :=
  later_of_lt (UInt64.lt_iff_toNat_lt.1 h)

theorem keepsOurs {ours remote : PeerCredit}
    (h : remote.lastInteraction ≤ ours.lastInteraction) :
    later stampSecs (some ours) (some remote) = some ours :=
  later_of_le (UInt64.le_iff_toNat_le.1 h)

/-- The two bounds an incoming entry passes: not from the future, and no
absurd counter. -/
def PeerCredit.admitted (now : UInt64) (c : PeerCredit) : Bool :=
  c.lastInteraction ≤ saturatingAdd now RECONCILE_FUTURE_SKEW_SECS
    && c.bytesServed ≤ MAX_ACCOUNTING_BYTES
    && c.bytesReceived ≤ MAX_ACCOUNTING_BYTES
    && c.prepaidBytes ≤ MAX_ACCOUNTING_BYTES

/-- The entries of a batch that reach the record of `p`. -/
def offered (p : NodeId) (now : UInt64)
    (batch : List (NodeId × PeerCredit)) : List PeerCredit :=
  batch.filterMap fun entry =>
    if entry.1 = p ∧ entry.2.admitted now = true then some entry.2
    else none

/-- The newest of them, the first on a tie. -/
def newest (p : NodeId) (now : UInt64)
    (batch : List (NodeId × PeerCredit)) : Option PeerCredit :=
  latest stampSecs none (offered p now batch)

theorem reconcileEntry_refused (h : entry.2.admitted now = false) :
    reconcileEntry now st entry = st := by
  unfold reconcileEntry
  by_cases hfuture : saturatingAdd now RECONCILE_FUTURE_SKEW_SECS
      < entry.2.lastInteraction
  · simp [hfuture]
  · have habsurd : (MAX_ACCOUNTING_BYTES < entry.2.bytesServed
        || MAX_ACCOUNTING_BYTES < entry.2.bytesReceived
        || MAX_ACCOUNTING_BYTES < entry.2.prepaidBytes) = true := by
      unfold PeerCredit.admitted at h
      simp only [Bool.and_eq_false_iff, decide_eq_false_iff_not,
        UInt64.not_le] at h
      simp only [Bool.or_eq_true, decide_eq_true_eq]
      rcases h with ((h | h) | h) | h
      · exact absurd h hfuture
      · exact .inl (.inl h)
      · exact .inl (.inr h)
      · exact .inr h
    simp only [hfuture, if_false, habsurd, if_true]

/-- What an admitted entry passes. -/
theorem passes_of_admitted (h : entry.2.admitted now = true) :
    ¬ (saturatingAdd now RECONCILE_FUTURE_SKEW_SECS
        < entry.2.lastInteraction)
      ∧ ¬ (MAX_ACCOUNTING_BYTES < entry.2.bytesServed
        || MAX_ACCOUNTING_BYTES < entry.2.bytesReceived
        || MAX_ACCOUNTING_BYTES < entry.2.prepaidBytes) = true := by
  unfold PeerCredit.admitted at h
  simp only [Bool.and_eq_true, decide_eq_true_eq] at h
  obtain ⟨⟨⟨hfuture, hserved⟩, hreceived⟩, hprepaid⟩ := h
  refine ⟨UInt64.not_lt.2 hfuture, ?_⟩
  simp [UInt64.not_lt.2 hserved, UInt64.not_lt.2 hreceived,
    UInt64.not_lt.2 hprepaid]

/-- An admitted entry of a known peer is written when it is newer. -/
theorem reconcileEntry_known {ours : PeerCredit}
    (h : entry.2.admitted now = true)
    (hget : st.peers.get entry.1 = some ours) :
    reconcileEntry now st entry
      = if ours.lastInteraction < entry.2.lastInteraction then
          { st with peers := st.peers.insert entry.1 entry.2 }
        else st := by
  obtain ⟨hfuture, habsurd⟩ := passes_of_admitted h
  unfold reconcileEntry
  dsimp only
  rw [if_neg hfuture, if_neg habsurd, hget]

/-- An admitted entry of an unknown peer is written. -/
theorem reconcileEntry_unknown (h : entry.2.admitted now = true)
    (hget : st.peers.get entry.1 = none) :
    reconcileEntry now st entry
      = { st with peers := st.peers.insert entry.1 entry.2 } := by
  obtain ⟨hfuture, habsurd⟩ := passes_of_admitted h
  unfold reconcileEntry
  dsimp only
  rw [if_neg hfuture, if_neg habsurd, hget]

/-- An admitted entry is written to its peer's register. -/
theorem get_reconcileEntry (entry : NodeId × PeerCredit) :
    (reconcileEntry now st entry).peers.get p
      = latest stampSecs (st.peers.get p) (offered p now [entry]) := by
  have hoff : offered p now [entry]
      = if entry.1 = p ∧ entry.2.admitted now = true then [entry.2]
        else [] := by
    unfold offered
    by_cases h : entry.1 = p ∧ entry.2.admitted now = true <;> simp [h]
  rw [hoff]
  by_cases hadm : entry.2.admitted now = true
  · by_cases hp : entry.1 = p
    · subst hp
      rw [if_pos ⟨rfl, hadm⟩, latest_cons, latest_nil]
      cases hget : st.peers.get entry.1 with
      | none =>
          rw [reconcileEntry_unknown hadm hget, none_later]
          exact FMap.get_insert_self _ _ _
      | some ours =>
          rw [reconcileEntry_known hadm hget]
          by_cases hlt : ours.lastInteraction < entry.2.lastInteraction
          · rw [if_pos hlt, later_adopts hlt]
            exact FMap.get_insert_self _ _ _
          · rw [if_neg hlt, hget, keepsOurs (UInt64.not_lt.1 hlt)]
    · rw [if_neg fun h => hp h.1, latest_nil]
      have hins : (st.peers.insert entry.1 entry.2).get p
          = st.peers.get p := FMap.get_insert_ne _ _ (Ne.symm hp)
      cases hget : st.peers.get entry.1 with
      | none =>
          rw [reconcileEntry_unknown hadm hget]
          exact hins
      | some ours =>
          rw [reconcileEntry_known hadm hget]
          by_cases hlt : ours.lastInteraction < entry.2.lastInteraction
          · rw [if_pos hlt]
            exact hins
          · rw [if_neg hlt]
  · rw [reconcileEntry_refused (Bool.not_eq_true _ ▸ hadm),
      if_neg fun h => hadm h.2, latest_nil]

-- =========== a batch

theorem offered_cons :
    offered p now (entry :: batch)
      = offered p now [entry] ++ offered p now batch := by
  unfold offered
  rw [← List.filterMap_append]
  rfl

/-- A batch is one write of its newest admitted entry. -/
theorem get_reconcile (st : AccountingState)
    (batch : List (NodeId × PeerCredit)) (now : UInt64) (p : NodeId) :
    (st.reconcile batch now).peers.get p
      = later stampSecs (st.peers.get p) (newest p now batch) := by
  have hall : (st.reconcile batch now).peers.get p
      = latest stampSecs (st.peers.get p) (offered p now batch) := by
    induction batch generalizing st with
    | nil => rfl
    | cons entry batch ih =>
        have hgo := ih (reconcileEntry now st entry)
        rw [get_reconcileEntry] at hgo
        rw [offered_cons, latest_append, ← hgo]
        rfl
  rw [hall, latest_eq]
  rfl

/-- Only the records of peers change. -/
theorem reconcile_frame (st : AccountingState)
    (batch : List (NodeId × PeerCredit)) (now : UInt64) :
    { st.reconcile batch now with peers := st.peers } = st := by
  induction batch generalizing st with
  | nil => rfl
  | cons entry batch ih =>
      have hentry : { reconcileEntry now st entry with peers := st.peers }
          = st := by
        by_cases hadm : entry.2.admitted now = true
        · cases hget : st.peers.get entry.1 with
          | none => rw [reconcileEntry_unknown hadm hget]
          | some ours =>
              rw [reconcileEntry_known hadm hget]
              by_cases hlt : ours.lastInteraction
                  < entry.2.lastInteraction
              · rw [if_pos hlt]
              · rw [if_neg hlt]
        · rw [reconcileEntry_refused (Bool.not_eq_true _ ▸ hadm)]
      have hrest := congrArg
        (fun s : AccountingState => { s with peers := st.peers })
        (ih (reconcileEntry now st entry))
      exact hrest.trans hentry

theorem reconcile_eq_self
    (h : ∀ p, (st.reconcile batch now).peers.get p = st.peers.get p) :
    st.reconcile batch now = st := by
  have hframe := reconcile_frame st batch now
  have hpeers : (st.reconcile batch now).peers = st.peers :=
    FMap.ext_get h
  rwa [← hpeers] at hframe

/-- A batch that was applied changes nothing when it is applied again. -/
theorem reconcile_idempotent (st : AccountingState)
    (batch : List (NodeId × PeerCredit)) (now : UInt64) :
    (st.reconcile batch now).reconcile batch now
      = st.reconcile batch now := by
  apply reconcile_eq_self
  intro p
  rw [get_reconcile, get_reconcile, later_later_self]

/-- No record goes back in time. -/
theorem reconcile_monotone (st : AccountingState)
    (batch : List (NodeId × PeerCredit)) (now : UInt64) (p : NodeId)
    (h : st.peers.get p = some c) :
    ∃ c', (st.reconcile batch now).peers.get p = some c'
      ∧ c.lastInteraction ≤ c'.lastInteraction := by
  rw [get_reconcile, h]
  cases newest p now batch with
  | none => exact ⟨c, later_none, UInt64.le_refl _⟩
  | some remote =>
      by_cases hlt : c.lastInteraction < remote.lastInteraction
      · exact ⟨remote, later_adopts hlt, UInt64.le_of_lt hlt⟩
      · exact ⟨c, keepsOurs (UInt64.not_lt.1 hlt), UInt64.le_refl _⟩

/-- The newest entries of two batches for a peer do not tie, with
different contents, above the record. -/
def Commutes (st : AccountingState) (now : UInt64)
    (b₁ b₂ : List (NodeId × PeerCredit)) : Prop :=
  ∀ p c₁ c₂, newest p now b₁ = some c₁ → newest p now b₂ = some c₂ →
    c₁.lastInteraction = c₂.lastInteraction →
    (∀ ours, st.peers.get p = some ours →
      ours.lastInteraction < c₁.lastInteraction) → c₁ = c₂

theorem reconcile_comm_iff (st : AccountingState) (now : UInt64)
    (b₁ b₂ : List (NodeId × PeerCredit)) :
    ((st.reconcile b₁ now).reconcile b₂ now).peers
        = ((st.reconcile b₂ now).reconcile b₁ now).peers
      ↔ Commutes st now b₁ b₂ := by
  have hone : ∀ p, ((st.reconcile b₁ now).reconcile b₂ now).peers.get p
        = ((st.reconcile b₂ now).reconcile b₁ now).peers.get p
      ↔ ∀ c₁ c₂, newest p now b₁ = some c₁ → newest p now b₂ = some c₂ →
        c₁.lastInteraction = c₂.lastInteraction →
        (∀ ours, st.peers.get p = some ours →
          ours.lastInteraction < c₁.lastInteraction) → c₁ = c₂ := by
    intro p
    rw [get_reconcile, get_reconcile, get_reconcile, get_reconcile,
      later_right_comm_iff]
    simp only [stampSecs, UInt64.toNat_inj, UInt64.lt_iff_toNat_lt]
  constructor
  · intro h p
    refine (hone p).1 ?_
    rw [h]
  · intro h
    exact FMap.ext_get fun p => (hone p).2 (h p)

-- ======= an exchange

/-- Batches as they arrive, each with the clock it is processed at. -/
def reconcileAll (st : AccountingState)
    (batches : List (UInt64 × List (NodeId × PeerCredit))) :
    AccountingState :=
  batches.foldl (fun st b => st.reconcile b.2 b.1) st

/-- The batches carry the full export of `st`, split and ordered in some
way. -/
def Splits (order : IterOrder NodeId) (st : AccountingState)
    (batches : List (UInt64 × List (NodeId × PeerCredit))) : Prop :=
  (batches.flatMap (·.2)).Perm (st.exportForReconciliation order)

/-- The entry of `p`, where there is one, passes the bounds whenever it
is processed. -/
def Passing (p : NodeId)
    (batches : List (UInt64 × List (NodeId × PeerCredit))) : Prop :=
  ∀ b ∈ batches, ∀ entry ∈ b.2, entry.1 = p →
    entry.2.admitted b.1 = true

theorem mem_entriesOf {order : IterOrder NodeId}
    {peers : FMap NodeId PeerCredit} :
    entry ∈ entriesOf order peers ↔ peers.get entry.1 = some entry.2 := by
  unfold entriesOf
  rw [List.mem_filterMap]
  constructor
  · rintro ⟨q, -, hq⟩
    obtain ⟨c, hget, rfl⟩ := Option.map_eq_some_iff.1 hq
    exact hget
  · intro h
    refine ⟨entry.1, ?_, by rw [h]; rfl⟩
    rw [order.mem_iter]
    exact FMap.mem_keys_of_get h

theorem entriesOf_nodup (order : IterOrder NodeId)
    (peers : FMap NodeId PeerCredit) : (entriesOf order peers).Nodup := by
  unfold entriesOf
  refine List.Nodup.filterMap ?_ (order.nodup _)
  intro q q' entry hq hq'
  obtain ⟨c, -, rfl⟩ := Option.map_eq_some_iff.1 hq
  obtain ⟨c', -, heq⟩ := Option.map_eq_some_iff.1 hq'
  exact (Prod.mk.inj heq).1.symm

/-- The export holds each peer's entry once. -/
theorem export_filter (order : IterOrder NodeId) (st : AccountingState)
    (p : NodeId) :
    (st.exportForReconciliation order).filter (fun e => e.1 = p)
      = ((st.peers.get p).map fun c => (p, c)).toList := by
  unfold exportForReconciliation
  have hperm : ((entriesOf order st.peers).filter fun e => e.1 = p).Perm
      ((st.peers.get p).map fun c => (p, c)).toList := by
    rw [List.perm_ext_iff_of_nodup
      ((entriesOf_nodup order st.peers).filter _) (Option.toList_nodup _)]
    intro e
    rw [List.mem_filter, mem_entriesOf, Option.mem_toList,
      Option.map_eq_some_iff]
    constructor
    · rintro ⟨hget, hp⟩
      obtain rfl := of_decide_eq_true hp
      exact ⟨e.2, hget, rfl⟩
    · rintro ⟨c, hget, rfl⟩
      exact ⟨hget, decide_eq_true rfl⟩
  cases hget : st.peers.get p with
  | none =>
      rw [hget] at hperm
      exact hperm.eq_nil
  | some c =>
      rw [hget] at hperm
      exact List.perm_singleton.1 hperm

/-- Where the bounds hold, all batches together are one write of what the
sender has for `p`. -/
theorem get_reconcileAll {order : IterOrder NodeId}
    {other : AccountingState}
    {batches : List (UInt64 × List (NodeId × PeerCredit))}
    (hsplit : Splits order other batches) (hpass : Passing p batches) :
    (reconcileAll st batches).peers.get p
      = later stampSecs (st.peers.get p) (other.peers.get p) := by
  -- the entries offered to `p`, over all batches
  have hall : ∀ (batches : List (UInt64 × List (NodeId × PeerCredit)))
      (st : AccountingState), Passing p batches →
      (reconcileAll st batches).peers.get p
        = latest stampSecs (st.peers.get p)
            (((batches.flatMap (·.2)).filter
              fun e => e.1 = p).map (·.2)) := by
    intro batches
    induction batches with
    | nil => exact fun _ _ => rfl
    | cons b rest ih =>
        intro st hpass
        have hrest := ih (st.reconcile b.2 b.1) fun b' hb' =>
          hpass b' (List.mem_cons_of_mem _ hb')
        have hoff : offered p b.1 b.2
            = (b.2.filter fun e => e.1 = p).map (·.2) := by
          have hb := hpass b List.mem_cons_self
          generalize b.2 = entries at hb
          induction entries with
          | nil => rfl
          | cons e es ihes =>
              have hes := ihes fun e' he' =>
                hb e' (List.mem_cons_of_mem _ he')
              rw [offered_cons, hes]
              by_cases hp : e.1 = p
              · have hadm := hb e List.mem_cons_self hp
                simp [offered, hp, hadm]
              · simp [offered, hp]
        rw [get_reconcile, newest, ← latest_eq, hoff,
          ← latest_append] at hrest
        rw [List.flatMap_cons, List.filter_append, List.map_append]
        exact hrest
  rw [hall batches st hpass]
  have hone : (((batches.flatMap (·.2)).filter
      fun e => e.1 = p).map (·.2)) = (other.peers.get p).toList := by
    have hperm := hsplit.filter fun e => decide (e.1 = p)
    rw [export_filter] at hperm
    cases hget : other.peers.get p with
    | none =>
        rw [hget] at hperm
        rw [hperm.eq_nil]
        rfl
    | some c =>
        rw [hget] at hperm
        rw [List.perm_singleton.1 hperm]
        rfl
  rw [hone]
  cases other.peers.get p with
  | none => rw [later_none]; rfl
  | some c => rfl

/-- When reconciliation converges. Two batches can be applied in either
order exactly when their newest entries do not tie above a record;
applying a batch again changes nothing; no record goes back in time; and
two nodes that each merge the other's export, taken before either
merged, agree on a peer whose entries pass the bounds exactly when their
own two records of it are not different records of one second. -/
theorem reconciliation_converges_iff (st x y : AccountingState)
    (now : UInt64) (b₁ b₂ : List (NodeId × PeerCredit)) :
    (((st.reconcile b₁ now).reconcile b₂ now).peers
        = ((st.reconcile b₂ now).reconcile b₁ now).peers
      ↔ Commutes st now b₁ b₂)
    ∧ (st.reconcile b₁ now).reconcile b₁ now = st.reconcile b₁ now
    ∧ (∀ p c, st.peers.get p = some c →
        ∃ c', (st.reconcile b₁ now).peers.get p = some c'
          ∧ c.lastInteraction ≤ c'.lastInteraction)
    ∧ ∀ (order order' : IterOrder NodeId)
        (fromX fromY : List (UInt64 × List (NodeId × PeerCredit))),
        Splits order x fromX → Splits order' y fromY →
        ∀ p, Passing p fromX → Passing p fromY →
          ((reconcileAll x fromY).peers.get p
              = (reconcileAll y fromX).peers.get p
            ↔ ∀ a b, x.peers.get p = some a → y.peers.get p = some b →
              a.lastInteraction = b.lastInteraction → a = b) := by
  refine ⟨reconcile_comm_iff st now b₁ b₂,
    reconcile_idempotent st b₁ now,
    fun p c => reconcile_monotone st b₁ now p, ?_⟩
  intro order order' fromX fromY hx hy p hpx hpy
  rw [get_reconcileAll hy hpy, get_reconcileAll hx hpx, exchange_iff]
  simp only [stampSecs, UInt64.toNat_inj]

-- ==== one peer, two nodes

/-- A peer that two nodes keep a record of. -/
def sharedPeer : NodeId := Bytes.fill 16 7

/-- A node that has served it once. -/
def servedOnce (bytes secs : UInt64) : AccountingState :=
  AccountingState.new.recordServed sharedPeer bytes secs

/-- The node's full export, in one batch. -/
def servedBatch (bytes secs : UInt64) : List (NodeId × PeerCredit) :=
  [(sharedPeer, PeerCredit.new.recordServed bytes secs)]

theorem servedOnce_splits (order : IterOrder NodeId)
    (bytes secs now : UInt64) :
    Splits order (servedOnce bytes secs)
      [(now, servedBatch bytes secs)] := by
  have hkeys : (servedOnce bytes secs).peers.keys = {sharedPeer} := rfl
  unfold Splits exportForReconciliation entriesOf
  rw [hkeys, order.iter_singleton]
  exact List.Perm.refl _

/-- The later of two records reaches both nodes. -/
theorem reconciliation_converges_later :
    (reconcileAll (servedOnce 5 10) [(20, servedBatch 7 11)]).peers.get
        sharedPeer
      = (reconcileAll (servedOnce 7 11)
          [(20, servedBatch 5 10)]).peers.get sharedPeer := by
  have hpass : ∀ bytes secs, (PeerCredit.new.recordServed bytes
      secs).admitted 20 = true →
      Passing sharedPeer [(20, servedBatch bytes secs)] := by
    intro bytes secs h b hb entry hmem _
    obtain rfl := List.mem_singleton.1 hb
    obtain rfl := List.mem_singleton.1 hmem
    exact h
  have hiff := reconciliation_converges_iff (servedOnce 5 10)
    (servedOnce 5 10) (servedOnce 7 11) 20 [] []
  refine (hiff.2.2.2 IterOrder.bytewise IterOrder.bytewise _ _
    (servedOnce_splits _ 5 10 20) (servedOnce_splits _ 7 11 20) sharedPeer
    (hpass 5 10 (by decide)) (hpass 7 11 (by decide))).2 ?_
  intro a b ha hb heq
  obtain rfl := Option.some.inj ha
  obtain rfl := Option.some.inj hb
  exact absurd heq (by decide)

/-- Two records of one second: each node keeps its own, and two batches
end as the first of them. -/
theorem reconcile_ties_diverge :
    (reconcileAll (servedOnce 5 10) [(20, servedBatch 7 10)]).peers.get
        sharedPeer
      ≠ (reconcileAll (servedOnce 7 10)
          [(20, servedBatch 5 10)]).peers.get sharedPeer
    ∧ ((AccountingState.new.reconcile (servedBatch 5 10) 20).reconcile
          (servedBatch 7 10) 20).peers
      ≠ ((AccountingState.new.reconcile (servedBatch 7 10) 20).reconcile
          (servedBatch 5 10) 20).peers := by
  constructor
  · intro h
    exact absurd (congrArg (Option.map (·.bytesServed)) h) (by decide)
  · intro h
    have hget := congrArg (fun m : FMap NodeId PeerCredit =>
      (m.get sharedPeer).map (·.bytesServed)) h
    exact absurd hget (by decide)

end StaticNet
