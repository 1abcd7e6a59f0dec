/-
What a peer that never gives anything back can draw from a node.

# The gate forgets what it granted

`should_serve` grants an unknown peer its goodwill, `initial_credit`
bytes. Serving is recorded as credit *of the peer*: `record_served` adds
to `net_credit` and to the numerator of the ratio. From the first served
byte on, the credit gate passes on `effective_credit() > 0`, the ratio
gate on an infinite ratio, and no request is refused whatever its size.
So the goodwill bounds the first request only.

# What does bound the total

A request is judged on goodwill (`OnGoodwill`) when the record of the
peer is missing, is denied by the challenge gate, or has no served bytes
yet; and the record has to be kept once something was served, since
pruning it grants the goodwill again. Along a run of such steps the
record's `bytes_served` is the true total (`Tracks`), and the total
stays within the goodwill. After such a run the goodwill is safe from
the next request exactly as long as the record is no `Exposed` one.

The same sign makes the two recording operations move the decision the
wrong way: bytes served make up what a request lacks (`Lifts`), bytes
received use up what it rests on (`Ends`). The counters are 64 bits
wide, so both are stated with the wrap-around.
-/
import Mathlib.Data.List.Basic
import Mathlib.Tactic.Linarith
import StaticNet.Accounting.Basic

namespace StaticNet

open AccountingState

-- ============== runs

/-- One operation on the accounting state. A request is served, and then
recorded, only when `should_serve` allows it. -/
inductive AccountingEvent
  | serve (peer : NodeId) (bytes now : UInt64)
  | received (peer : NodeId) (bytes now : UInt64)
  | prepayment (peer : NodeId) (bytes : UInt64)
  | challenge (peer : NodeId) (success : Bool) (now : UInt64)
  | reconcile (incoming : List (NodeId × PeerCredit)) (now : UInt64)
  | prune (maxAge now : UInt64)
  | pruneWithGrace (maxAge partitionThreshold grace now : UInt64)

namespace AccountingEvent

def step (st : AccountingState) : AccountingEvent → AccountingState
  | serve peer bytes now =>
      if st.shouldServe peer bytes then st.recordServed peer bytes now
      else st
  | received peer bytes now => st.recordReceived peer bytes now
  | prepayment peer bytes => st.recordPrepayment peer bytes
  | challenge peer success now =>
      if success then st.recordChallengeSuccess peer now
      else st.recordChallengeFailure peer now
  | reconcile incoming now => st.reconcile incoming now
  | prune maxAge now => st.pruneInactivePeers maxAge now
  | pruneWithGrace maxAge partitionThreshold grace now =>
      st.pruneInactivePeersWithGrace maxAge partitionThreshold grace now

/-- The bytes an event serves to `p`. -/
def grants (p : NodeId) (st : AccountingState) : AccountingEvent → Nat
  | serve peer bytes _ =>
      if peer = p ∧ st.shouldServe peer bytes = true then bytes.toNat
      else 0
  | _ => 0

/-- The event brings in nothing for `p`: no bytes, no prepayment, no
reconciliation entry. -/
def Silent (p : NodeId) : AccountingEvent → Prop
  | received peer _ _ => peer ≠ p
  | prepayment peer _ => peer ≠ p
  | reconcile incoming _ => ∀ entry ∈ incoming, entry.1 ≠ p
  | _ => True

/-- The event is judged on goodwill: a request of `p` finds no record, a
denied one, or one without served bytes; and pruning leaves a record
with served bytes where it is. -/
def OnGoodwill (p : NodeId) (st : AccountingState) :
    AccountingEvent → Prop
  | serve peer bytes _ => peer = p → ∀ c ∈ st.peers.get p,
      bytes = 0 ∨ c.denied = true
        ∨ (c.bytesServed = 0 ∧ bytes.toNat < 2 ^ 63)
  | prune maxAge now => ∀ c ∈ st.peers.get p,
      c.bytesServed = 0 ∨ now - c.lastInteraction < maxAge
  | pruneWithGrace maxAge partitionThreshold grace now =>
      ∀ c ∈ st.peers.get p,
        c.bytesServed = 0
          ∨ if partitionThreshold < saturatingSub now c.lastInteraction
            then saturatingSub now c.lastInteraction
              < saturatingAdd maxAge grace
            else saturatingSub now c.lastInteraction < maxAge
  | _ => True

instance (p : NodeId) (e : AccountingEvent) : Decidable (e.Silent p) :=
  match e with
  | received peer _ _ => inferInstanceAs (Decidable (peer ≠ p))
  | prepayment peer _ => inferInstanceAs (Decidable (peer ≠ p))
  | reconcile incoming _ =>
      inferInstanceAs (Decidable (∀ entry ∈ incoming, entry.1 ≠ p))
  | serve _ _ _ | challenge _ _ _ | prune _ _ | pruneWithGrace _ _ _ _ =>
      inferInstanceAs (Decidable True)

instance (p : NodeId) (st : AccountingState) (e : AccountingEvent) :
    Decidable (e.OnGoodwill p st) :=
  match e with
  | serve peer bytes _ => inferInstanceAs (Decidable (peer = p →
      ∀ c ∈ st.peers.get p, bytes = 0 ∨ c.denied = true
        ∨ (c.bytesServed = 0 ∧ bytes.toNat < 2 ^ 63)))
  | prune maxAge now => inferInstanceAs (Decidable (∀ c ∈ st.peers.get p,
      c.bytesServed = 0 ∨ now - c.lastInteraction < maxAge))
  | pruneWithGrace maxAge partitionThreshold grace now =>
      inferInstanceAs (Decidable (∀ c ∈ st.peers.get p,
        c.bytesServed = 0
          ∨ if partitionThreshold < saturatingSub now c.lastInteraction
            then saturatingSub now c.lastInteraction
              < saturatingAdd maxAge grace
            else saturatingSub now c.lastInteraction < maxAge))
  | received _ _ _ | prepayment _ _ | challenge _ _ _ | reconcile _ _ =>
      inferInstanceAs (Decidable True)

/-- A whole run. -/
def run (st : AccountingState) (es : List AccountingEvent) :
    AccountingState := es.foldl step st

end AccountingEvent

open AccountingEvent

/-- All bytes served to `p` along a run. -/
def servedTo (p : NodeId) : AccountingState → List AccountingEvent → Nat
  | _, [] => 0
  | st, e :: es => e.grants p st + servedTo p (e.step st) es

/-- Every step of the run is judged on goodwill in the state it finds. -/
def AllOnGoodwill (p : NodeId) :
    AccountingState → List AccountingEvent → Prop
  | _, [] => True
  | st, e :: es => e.OnGoodwill p st ∧ AllOnGoodwill p (e.step st) es

instance decidableAllOnGoodwill (p : NodeId) : ∀ (st : AccountingState)
    (es : List AccountingEvent), Decidable (AllOnGoodwill p st es)
  | _, [] => inferInstanceAs (Decidable True)
  | st, e :: es =>
      have := decidableAllOnGoodwill p (e.step st) es
      inferInstanceAs (Decidable
        (e.OnGoodwill p st ∧ AllOnGoodwill p (e.step st) es))

/-- The record of `p` is not denied and no longer rests on goodwill: it
has served bytes; or it has none, and `2^64 - 1` bytes, which the credit
gate reads as `-1`, are more than the goodwill. -/
def Exposed (p : NodeId) (st : AccountingState) : Prop :=
  ∃ c ∈ st.peers.get p, c.denied = false
    ∧ (c.bytesServed ≠ 0 ∨ st.initialCredit.toNat < 2 ^ 64 - 1)

instance (p : NodeId) (st : AccountingState) : Decidable (Exposed p st) :=
  inferInstanceAs (Decidable (∃ c ∈ st.peers.get p, c.denied = false
    ∧ (c.bytesServed ≠ 0 ∨ st.initialCredit.toNat < 2 ^ 64 - 1)))

-- ========= the gates

variable {st : AccountingState} {p q : NodeId} {c : PeerCredit}
  {b n now : UInt64}

theorem shouldServe_unknown (h : st.peers.get p = none) :
    st.shouldServe p b = decide (b ≤ st.initialCredit) := by
  unfold shouldServe
  rw [h]

/-- On a known peer goodwill stands for both remaining gates. -/
theorem shouldServe_known (h : st.peers.get p = some c) :
    st.shouldServe p b
      = (!c.denied && (c.goodwill st.initialCredit b
          || (c.creditTest b && c.ratioTest st.minRatio))) := by
  unfold shouldServe
  simp only [h]
  generalize c.denied = d
  generalize c.goodwill st.initialCredit b = g
  cases d <;> cases c.creditTest b <;> cases c.ratioTest st.minRatio
    <;> cases g <;> rfl

theorem ratioTest_of_nothing_received (h : c.bytesReceived = 0)
    (m : ℚ) : c.ratioTest m = true := by
  unfold PeerCredit.ratioTest PeerCredit.ratio
  rw [if_pos h]
  exact decide_eq_true le_top

/-- Below `2^63` the cast to `i64` keeps the value. -/
theorem toInt_toInt64_of_lt (h : b.toNat < 2 ^ 63) :
    b.toInt64.toInt = b.toNat := by
  have hv : b.toInt64.toInt = b.toBitVec.toInt := rfl
  rw [hv, BitVec.toInt_eq_toNat_of_lt]
  · rfl
  · show 2 * b.toNat < 2 ^ 64
    omega

theorem toInt64_toInt (n : UInt64) :
    n.toInt64.toInt = (n.toNat : ℤ).bmod (2 ^ 64) := by
  show n.toBitVec.toInt = _
  rw [BitVec.toInt_eq_toNat_bmod]
  rfl

/-- Without goodwill an untouched record covers only the empty
request. -/
theorem creditTest_untouched (hnet : c.netCredit = 0)
    (hpre : c.prepaidBytes = 0) (hb : b.toNat < 2 ^ 63)
    (h : c.creditTest b = true) : b.toNat = 0 := by
  unfold PeerCredit.creditTest PeerCredit.hasCredit PeerCredit.hasPrepaid
    PeerCredit.effectiveCredit at h
  rw [hnet, hpre] at h
  simp only [Bool.or_eq_true, decide_eq_true_eq] at h
  rcases h with (h | h) | h
  · rw [Int64.le_iff_toInt_le, toInt_toInt64_of_lt hb] at h
    have hz : (0 : Int64).toInt = 0 := rfl
    omega
  · rw [UInt64.le_iff_toNat_le] at h
    exact Nat.le_zero.1 h
  · exact absurd h (by decide)

theorem toNat_saturatingAdd_zero (a : UInt64) :
    saturatingAdd 0 a = a ∧ saturatingAdd a 0 = a := by
  have ha : a.toNat < UInt64.size := a.toNat_lt_size
  unfold saturatingAdd
  constructor
  · rw [if_pos (by simpa using ha), UInt64.zero_add]
  · rw [if_pos (by simpa using ha), UInt64.add_zero]

-- ======= along a run

/-- The record of `p` tells the truth: its served bytes are the total,
which is within the goodwill, and nothing else was recorded. -/
structure Tracks (p : NodeId) (total : Nat) (st : AccountingState) :
    Prop where
  within : total ≤ st.initialCredit.toNat
  unknown : st.peers.get p = none → total = 0
  served : ∀ c, st.peers.get p = some c → c.bytesServed.toNat = total
  nothing : ∀ c, st.peers.get p = some c →
    c.bytesReceived = 0 ∧ c.prepaidBytes = 0
  net : ∀ c, st.peers.get p = some c →
    c.netCredit = c.bytesServed.toInt64

theorem Tracks.congr {total : Nat} {st' : AccountingState}
    (h : Tracks p total st) (hget : st'.peers.get p = st.peers.get p)
    (hcredit : st'.initialCredit = st.initialCredit) :
    Tracks p total st' := by
  constructor
  · rw [hcredit]
    exact h.within
  · rw [hget]
    exact h.unknown
  · rw [hget]
    exact h.served
  · rw [hget]
    exact h.nothing
  · rw [hget]
    exact h.net

/-- An update of another peer's record changes nothing for `p`. -/
theorem Tracks.updOther {total : Nat} (h : Tracks p total st)
    (hne : q ≠ p) (f : PeerCredit → PeerCredit) :
    Tracks p total (st.updPeer q f) := by
  refine h.congr ?_ rfl
  rw [get_updPeer, if_neg (Ne.symm hne)]

/-- The record `get_or_create_peer` finds, known or new. -/
theorem Tracks.current {total : Nat} (h : Tracks p total st) :
    ((st.peers.get p).getD PeerCredit.new).bytesServed.toNat = total
      ∧ ((st.peers.get p).getD PeerCredit.new).bytesReceived = 0
      ∧ ((st.peers.get p).getD PeerCredit.new).prepaidBytes = 0
      ∧ ((st.peers.get p).getD PeerCredit.new).netCredit
        = ((st.peers.get p).getD PeerCredit.new).bytesServed.toInt64 := by
  cases hg : st.peers.get p with
  | none => exact ⟨(h.unknown hg).symm, rfl, rfl, rfl⟩
  | some c =>
      exact ⟨h.served c hg, (h.nothing c hg).1, (h.nothing c hg).2,
        h.net c hg⟩

/-- An update of `p`'s own record that leaves the four counters. -/
theorem Tracks.updSelf {total : Nat} (h : Tracks p total st)
    {f : PeerCredit → PeerCredit}
    (hf : ∀ c, (f c).bytesServed = c.bytesServed
      ∧ (f c).bytesReceived = c.bytesReceived
      ∧ (f c).prepaidBytes = c.prepaidBytes
      ∧ (f c).netCredit = c.netCredit) :
    Tracks p total (st.updPeer p f) := by
  obtain ⟨hserved, hrec, hpre, hnet⟩ := h.current
  have hget : (st.updPeer p f).peers.get p
      = some (f ((st.peers.get p).getD PeerCredit.new)) := by
    rw [get_updPeer, if_pos rfl]
  generalize (st.peers.get p).getD PeerCredit.new = c
    at hget hserved hrec hpre hnet
  obtain ⟨h₁, h₂, h₃, h₄⟩ := hf c
  constructor
  · exact h.within
  · intro hnone
    rw [hget] at hnone
    cases hnone
  · rintro c' hc'
    rw [hget, Option.some.injEq] at hc'
    rw [← hc', h₁, hserved]
  · rintro c' hc'
    rw [hget, Option.some.injEq] at hc'
    rw [← hc', h₂, h₃]
    exact ⟨hrec, hpre⟩
  · rintro c' hc'
    rw [hget, Option.some.injEq] at hc'
    rw [← hc', h₁, h₄, hnet]

/-- Serving within the goodwill that is left. -/
theorem Tracks.serve {total : Nat} (h : Tracks p total st)
    (hfits : total + b.toNat ≤ st.initialCredit.toNat) :
    Tracks p (total + b.toNat) (st.recordServed p b now) := by
  obtain ⟨hserved, hrec, hpre, hnet⟩ := h.current
  have hget : (st.recordServed p b now).peers.get p
      = some (((st.peers.get p).getD PeerCredit.new).recordServed b now) := by
    show (st.updPeer p (·.recordServed b now)).peers.get p = _
    rw [get_updPeer, if_pos rfl]
  generalize (st.peers.get p).getD PeerCredit.new = c
    at hget hserved hrec hpre hnet
  have hlt : st.initialCredit.toNat < 2 ^ 64 := st.initialCredit.toNat_lt
  have hsum : (c.bytesServed + b).toNat = total + b.toNat := by
    rw [UInt64.toNat_add, hserved, Nat.mod_eq_of_lt]
    omega
  constructor
  · exact hfits
  · intro hnone
    rw [hget] at hnone
    cases hnone
  · rintro c' hc'
    rw [hget, Option.some.injEq] at hc'
    rw [← hc']
    exact hsum
  · rintro c' hc'
    rw [hget, Option.some.injEq] at hc'
    rw [← hc']
    exact ⟨hrec, hpre⟩
  · rintro c' hc'
    rw [hget, Option.some.injEq] at hc'
    rw [← hc']
    show c.netCredit + b.toInt64 = (c.bytesServed + b).toInt64
    rw [hnet, UInt64.toInt64_add]

/-- A request that is served on goodwill fits into what is left of it. -/
theorem Tracks.fits {total : Nat} (h : Tracks p total st)
    (hgoodwill : (AccountingEvent.serve p b now).OnGoodwill p st)
    (hserve : st.shouldServe p b = true) :
    total + b.toNat ≤ st.initialCredit.toNat := by
  cases hg : st.peers.get p with
  | none =>
      rw [shouldServe_unknown hg, decide_eq_true_eq,
        UInt64.le_iff_toNat_le] at hserve
      rw [h.unknown hg]
      omega
  | some c =>
      rw [shouldServe_known hg] at hserve
      rcases hgoodwill rfl c hg with hempty | hden | ⟨hzero, hsmall⟩
      · rw [hempty]
        exact h.within
      · rw [hden] at hserve
        cases hserve
      · have htotal := h.served c hg
        rw [hzero] at htotal
        have htotal : total = 0 := htotal.symm
        obtain ⟨hrec, hpre⟩ := h.nothing c hg
        rw [Bool.and_eq_true, Bool.or_eq_true, Bool.and_eq_true] at hserve
        rcases hserve.2 with hgood | ⟨hcredit, -⟩
        · unfold PeerCredit.goodwill at hgood
          rw [hrec, hpre, (toNat_saturatingAdd_zero b).1,
            (toNat_saturatingAdd_zero st.initialCredit).2,
            Bool.and_eq_true, decide_eq_true_eq,
            UInt64.le_iff_toNat_le] at hgood
          have := hgood.2
          omega
        · have hnet := h.net c hg
          rw [hzero] at hnet
          have := creditTest_untouched hnet hpre hsmall hcredit
          omega

/-- Dropping records keeps the bookkeeping, as long as no record with
served bytes goes. -/
theorem Tracks.retain {total : Nat} {keep : NodeId → PeerCredit → Bool}
    (h : Tracks p total st)
    (hkeep : ∀ c ∈ st.peers.get p, c.bytesServed = 0 ∨ keep p c = true) :
    Tracks p total { st with peers := st.peers.retain keep } := by
  cases hg : st.peers.get p with
  | none =>
      refine h.congr ?_ rfl
      show (st.peers.retain keep).get p = _
      rw [FMap.get_retain, hg]
      rfl
  | some c =>
      cases hk : keep p c with
      | true =>
          refine h.congr ?_ rfl
          show (st.peers.retain keep).get p = _
          rw [FMap.get_retain, hg, Option.filter_some, if_pos hk]
      | false =>
          have hnone : (st.peers.retain keep).get p = none := by
            rw [FMap.get_retain, hg, Option.filter_some, hk]
            rfl
          have hzero : c.bytesServed = 0 := by
            rcases hkeep c hg with hz | hkept
            · exact hz
            · rw [hk] at hkept
              cases hkept
          have htotal : total = 0 := by
            rw [← h.served c hg, hzero]
            rfl
          constructor
          · exact h.within
          · exact fun _ => htotal
          all_goals
            intro c' hc'
            rw [hnone] at hc'
            cases hc'

/-- A reconciliation entry of another peer changes nothing for `p`. -/
theorem Tracks.reconcileEntry {total : Nat} (h : Tracks p total st)
    {entry : NodeId × PeerCredit} (hne : entry.1 ≠ p) :
    Tracks p total (AccountingState.reconcileEntry now st entry) := by
  have hother : Tracks p total
      { st with peers := st.peers.insert entry.1 entry.2 } :=
    h.congr (FMap.get_insert_ne _ _ (Ne.symm hne)) rfl
  unfold AccountingState.reconcileEntry
  dsimp only
  split
  · exact h
  · split
    · exact h
    · split
      · split
        · exact hother
        · exact h
      · exact hother

theorem Tracks.reconcile {total : Nat}
    {incoming : List (NodeId × PeerCredit)} (h : Tracks p total st)
    (hne : ∀ entry ∈ incoming, entry.1 ≠ p) :
    Tracks p total (st.reconcile incoming now) := by
  unfold AccountingState.reconcile
  induction incoming generalizing st with
  | nil => exact h
  | cons entry rest ih =>
      exact ih (h.reconcileEntry (hne entry List.mem_cons_self))
        fun e he => hne e (List.mem_cons_of_mem _ he)

/-- One step: the record goes on telling the truth. -/
theorem Tracks.step {total : Nat} {e : AccountingEvent}
    (h : Tracks p total st) (hsilent : e.Silent p)
    (hgoodwill : e.OnGoodwill p st) :
    Tracks p (total + e.grants p st) (e.step st) := by
  cases e with
  | serve peer bytes now =>
      show Tracks p
        (total + if peer = p ∧ st.shouldServe peer bytes = true
          then bytes.toNat else 0)
        (if st.shouldServe peer bytes = true
          then st.recordServed peer bytes now else st)
      by_cases hp : peer = p
      · subst hp
        cases hserve : st.shouldServe peer bytes with
        | true =>
            simp only [and_self, if_true]
            exact h.serve (h.fits hgoodwill hserve)
        | false => simpa using h
      · rw [if_neg fun hc => hp hc.1]
        split
        · exact (h.updOther hp (·.recordServed bytes now)).congr rfl rfl
        · exact h
  | received peer bytes now =>
      exact (h.updOther hsilent (·.recordReceived bytes now)).congr rfl rfl
  | prepayment peer bytes =>
      exact h.updOther hsilent fun c =>
        { c with prepaidBytes := c.prepaidBytes + bytes }
  | challenge peer success now =>
      by_cases hp : peer = p
      · subst hp
        cases success with
        | true =>
            exact h.updSelf (f := (·.recordChallengeSuccess now))
              fun c => ⟨rfl, rfl, rfl, rfl⟩
        | false =>
            exact h.updSelf (f := (·.recordChallengeFailure now))
              fun c => ⟨rfl, rfl, rfl, rfl⟩
      · cases success with
        | true => exact h.updOther hp (·.recordChallengeSuccess now)
        | false => exact h.updOther hp (·.recordChallengeFailure now)
  | reconcile incoming now => exact h.reconcile hsilent
  | prune maxAge now =>
      refine h.retain fun c hc => (hgoodwill c hc).imp_right ?_
      exact decide_eq_true
  | pruneWithGrace maxAge partitionThreshold grace now =>
      refine h.retain fun c hc => (hgoodwill c hc).imp_right fun hage => ?_
      dsimp only
      split at hage <;> rename_i hlate
      · rw [if_pos hlate]
        exact decide_eq_true hage
      · rw [if_neg hlate]
        exact decide_eq_true hage

theorem grants_serve (h : st.shouldServe p b = true) :
    (AccountingEvent.serve p b now).grants p st = b.toNat :=
  if_pos ⟨rfl, h⟩

theorem step_initialCredit (e : AccountingEvent) :
    (e.step st).initialCredit = st.initialCredit := by
  cases e with
  | serve peer bytes now =>
      show (if st.shouldServe peer bytes = true
        then st.recordServed peer bytes now else st).initialCredit = _
      split <;> rfl
  | challenge peer success now => cases success <;> rfl
  | reconcile incoming now =>
      show (incoming.foldl _ st).initialCredit = _
      induction incoming generalizing st with
      | nil => rfl
      | cons entry rest ih =>
          rw [List.foldl_cons, ih]
          unfold AccountingState.reconcileEntry
          dsimp only
          split
          · rfl
          · split
            · rfl
            · split
              · split <;> rfl
              · rfl
  | _ => rfl

/-- A whole run: the record goes on telling the truth. -/
theorem Tracks.run {total : Nat} {es : List AccountingEvent}
    (h : Tracks p total st) (hsilent : ∀ e ∈ es, e.Silent p)
    (hgoodwill : AllOnGoodwill p st es) :
    Tracks p (total + servedTo p st es) (run st es) := by
  induction es generalizing st total with
  | nil => exact h
  | cons e rest ih =>
      obtain ⟨hfirst, hrest⟩ := hgoodwill
      have hstep := h.step (hsilent e List.mem_cons_self) hfirst
      have hlater := ih hstep
        (fun e' he' => hsilent e' (List.mem_cons_of_mem _ he')) hrest
      rw [Nat.add_assoc] at hlater
      exact hlater

theorem run_initialCredit (es : List AccountingEvent) :
    (run st es).initialCredit = st.initialCredit := by
  induction es generalizing st with
  | nil => rfl
  | cons e rest ih => exact ih.trans (step_initialCredit e)

theorem servedTo_append (p : NodeId) (es : List AccountingEvent)
    (e : AccountingEvent) :
    servedTo p st (es ++ [e]) = servedTo p st es + e.grants p (run st es) := by
  induction es generalizing st with
  | nil => exact Nat.add_comm _ _
  | cons x rest ih =>
      show x.grants p st + servedTo p (x.step st) (rest ++ [e])
        = x.grants p st + servedTo p (x.step st) rest
          + e.grants p (AccountingEvent.run (x.step st) rest)
      rw [ih, Nat.add_assoc]

/-- What an undenied record lets through at last: as much as takes the
total over any goodwill, once it is exposed. -/
theorem Tracks.overdraws {total : Nat} (h : Tracks p total st)
    (hexp : Exposed p st) :
    ∃ b : UInt64, st.shouldServe p b = true
      ∧ st.initialCredit.toNat < total + b.toNat := by
  obtain ⟨c, hget, hden, hopen⟩ := hexp
  obtain ⟨hrec, hpre⟩ := h.nothing c hget
  have hnet := h.net c hget
  have hserved := h.served c hget
  have hlt := st.initialCredit.toNat_lt
  have hserves : ∀ b, c.creditTest b = true → st.shouldServe p b = true := by
    intro b hb
    rw [shouldServe_known hget, hden, ratioTest_of_nothing_received hrec, hb]
    simp
  have hfull : (-1 : UInt64).toNat = 2 ^ 64 - 1 := rfl
  have htop : (9223372036854775808 : UInt64).toNat = 2 ^ 63 := rfl
  have hint : c.netCredit.toInt
      = (c.bytesServed.toNat : ℤ).bmod (2 ^ 64) := by
    rw [hnet, toInt64_toInt]
  have hmod : (2 ^ 64 : ℕ) = (18446744073709551616 : ℤ) := by norm_num
  rw [Int.bmod_def, hmod] at hint
  have hbound := c.bytesServed.toNat_lt
  by_cases hlow : c.bytesServed.toNat < 2 ^ 63
  · -- the net credit is not negative: the request for `-1` is served
    refine ⟨-1, hserves _ ?_, ?_⟩
    · have hle : (-1 : UInt64).toInt64 ≤ c.netCredit := by
        rw [Int64.le_iff_toInt_le]
        have hm : (-1 : UInt64).toInt64.toInt = -1 := rfl
        rw [hm]
        split at hint <;> omega
      unfold PeerCredit.creditTest PeerCredit.hasCredit
      rw [decide_eq_true hle]
      rfl
    · rw [hfull]
      rcases hopen with hne | hsmall
      · have : c.bytesServed.toNat ≠ 0 := fun hz =>
          hne (UInt64.toNat_inj.1 hz)
        omega
      · omega
  · refine ⟨9223372036854775808, hserves _ ?_, ?_⟩
    · have hle : (9223372036854775808 : UInt64).toInt64 ≤ c.netCredit := by
        rw [Int64.le_iff_toInt_le]
        exact c.netCredit.le_toInt
      unfold PeerCredit.creditTest PeerCredit.hasCredit
      rw [decide_eq_true hle]
      rfl
    · rw [htop]
      omega

/-- The next request can exceed the goodwill exactly when the record is
exposed. -/
theorem Tracks.exceeds_iff {total : Nat} (h : Tracks p total st) :
    (∃ b now, st.initialCredit.toNat
        < total + (AccountingEvent.serve p b now).grants p st)
      ↔ Exposed p st := by
  constructor
  · rintro ⟨b, now, hmore⟩
    have hserve : st.shouldServe p b = true := by
      by_contra hno
      have hzero : (AccountingEvent.serve p b now).grants p st = 0 :=
        if_neg fun hc => hno hc.2
      rw [hzero] at hmore
      exact absurd h.within (Nat.not_le.2 hmore)
    rw [grants_serve hserve] at hmore
    cases hg : st.peers.get p with
    | none =>
        rw [shouldServe_unknown hg, decide_eq_true_eq,
          UInt64.le_iff_toNat_le] at hserve
        rw [h.unknown hg] at hmore
        omega
    | some c =>
        refine ⟨c, hg, ?_, ?_⟩
        · cases hden : c.denied with
          | false => rfl
          | true =>
              rw [shouldServe_known hg, hden] at hserve
              cases hserve
        · by_contra hnone
          rw [not_or, not_not] at hnone
          have htotal := h.served c hg
          rw [hnone.1] at htotal
          have htotal : total = 0 := htotal.symm
          have := b.toNat_lt
          omega
  · intro hexp
    obtain ⟨b, hserve, hmore⟩ := h.overdraws hexp
    exact ⟨b, 0, (grants_serve hserve).symm ▸ hmore⟩

-- ==== which way recording moves the gate

/-- Counting `n` up from `x`, in 64 bits with a sign, ends at `y` or
above: short of the top, or all the way round. -/
def Climbs (x n y : ℤ) : Prop :=
  (y ≤ x + n ∧ x + n < 2 ^ 63) ∨ y + 2 ^ 64 ≤ x + n

/-- Counting `n` down from `x`, in 64 bits with a sign, ends at `y` or
above: `n` is small, or passes the bottom. -/
def Lasts (x n y : ℤ) : Prop :=
  y ≤ x - n ∨ (x - n < -2 ^ 63 ∧ y ≤ x - n + 2 ^ 64)

namespace PeerCredit

/-- Neither the net credit nor the prepaid bytes reach `b`, and nothing
is left of both together. -/
def ShortOfCredit (c : PeerCredit) (b : UInt64) : Prop :=
  c.netCredit.toInt < b.toInt64.toInt ∧ c.prepaidBytes < b
    ∧ c.effectiveCredit.toInt ≤ 0

/-- The bytes served are less than `m` for each byte received. -/
def ShortOfRatio (c : PeerCredit) (m : ℚ) : Prop :=
  c.bytesReceived ≠ 0
    ∧ (c.bytesServed.toNat : ℚ) < m * c.bytesReceived.toNat

/-- `n` served bytes bring the credit up to `b`, or above zero. -/
def CreditReached (c : PeerCredit) (n b : UInt64) : Prop :=
  b ≤ c.prepaidBytes ∨ Climbs c.netCredit.toInt n.toNat b.toInt64.toInt
    ∨ Climbs c.effectiveCredit.toInt n.toNat 1

/-- `n` served bytes bring the ratio up to `m`. -/
def RatioReached (c : PeerCredit) (m : ℚ) (n : UInt64) : Prop :=
  c.bytesReceived = 0
    ∨ m * c.bytesReceived.toNat ≤ c.bytesServed.toNat + n.toNat
        ∧ c.bytesServed.toNat + n.toNat < 2 ^ 64
    ∨ m * c.bytesReceived.toNat + 2 ^ 64 ≤ c.bytesServed.toNat + n.toNat

/-- `n` received bytes leave the credit short of `b` and not above
zero. -/
def CreditSpent (c : PeerCredit) (n b : UInt64) : Prop :=
  c.prepaidBytes < b ∧ ¬ Lasts c.netCredit.toInt n.toNat b.toInt64.toInt
    ∧ ¬ Lasts c.effectiveCredit.toInt n.toNat 1

/-- `n` received bytes bring the ratio below `m`. -/
def RatioSpent (c : PeerCredit) (m : ℚ) (n : UInt64) : Prop :=
  (0 < c.bytesReceived.toNat + n.toNat
      ∧ c.bytesReceived.toNat + n.toNat < 2 ^ 64
      ∧ (c.bytesServed.toNat : ℚ)
        < m * (c.bytesReceived.toNat + n.toNat))
    ∨ (2 ^ 64 < c.bytesReceived.toNat + n.toNat
      ∧ (c.bytesServed.toNat : ℚ)
        < m * (c.bytesReceived.toNat + n.toNat - 2 ^ 64))

/-- A request for `b` bytes that is not covered, and that `n` served
bytes cover. The second way is the counter of served bytes coming round
to zero. -/
def Lifts (c : PeerCredit) (st : AccountingState) (n b : UInt64) : Prop :=
  c.goodwill st.initialCredit b = false
    ∧ (c.ShortOfCredit b ∨ c.ShortOfRatio st.minRatio)
    ∧ ((c.CreditReached n b ∧ c.RatioReached st.minRatio n)
      ∨ (c.bytesServed.toNat + n.toNat = 2 ^ 64
        ∧ saturatingAdd c.bytesReceived b
          ≤ saturatingAdd st.initialCredit c.prepaidBytes))

/-- A request for `b` bytes that is covered, by goodwill or by credit
and ratio, and whose cover `n` received bytes use up. -/
def Ends (c : PeerCredit) (st : AccountingState) (n b : UInt64) : Prop :=
  (c.goodwill st.initialCredit b = true
      ∨ ¬ (c.ShortOfCredit b ∨ c.ShortOfRatio st.minRatio))
    ∧ (c.CreditSpent n b ∨ c.RatioSpent st.minRatio n)
    ∧ (c.bytesServed ≠ 0
      ∨ saturatingAdd st.initialCredit c.prepaidBytes
        < saturatingAdd (c.bytesReceived + n) b)

end PeerCredit

theorem le_add_toInt64_iff (x : Int64) (n : UInt64) (y : Int64) :
    y ≤ x + n.toInt64 ↔ Climbs x.toInt n.toNat y.toInt := by
  rw [Int64.le_iff_toInt_le, Int64.toInt_add, toInt64_toInt,
    Int.add_bmod_bmod]
  have := x.toInt_lt
  have := x.le_toInt
  have := y.toInt_lt
  have := y.le_toInt
  have := n.toNat_lt
  have hmod : (2 ^ 64 : ℕ) = (18446744073709551616 : ℤ) := by norm_num
  unfold Climbs
  rw [Int.bmod_def, hmod]
  split <;> omega

theorem le_sub_toInt64_iff (x : Int64) (n : UInt64) (y : Int64) :
    y ≤ x - n.toInt64 ↔ Lasts x.toInt n.toNat y.toInt := by
  rw [Int64.le_iff_toInt_le, Int64.toInt_sub, toInt64_toInt,
    Int.sub_bmod_bmod]
  have := x.toInt_lt
  have := x.le_toInt
  have := y.toInt_lt
  have := y.le_toInt
  have := n.toNat_lt
  have hmod : (2 ^ 64 : ℕ) = (18446744073709551616 : ℤ) := by norm_num
  unfold Lasts
  rw [Int.bmod_def, hmod]
  split <;> omega

theorem pos_iff_one_le (x : Int64) : 0 < x ↔ 1 ≤ x := by
  rw [Int64.lt_iff_toInt_lt, Int64.le_iff_toInt_le]
  exact Int.lt_iff_add_one_le

theorem creditTest_iff (c : PeerCredit) :
    c.creditTest b = true ↔ b.toInt64 ≤ c.netCredit ∨ b ≤ c.prepaidBytes
      ∨ 1 ≤ c.effectiveCredit := by
  unfold PeerCredit.creditTest PeerCredit.hasCredit PeerCredit.hasPrepaid
  rw [Bool.or_eq_true, Bool.or_eq_true, decide_eq_true_eq,
    decide_eq_true_eq, decide_eq_true_eq, pos_iff_one_le, or_assoc]

theorem creditTest_iff_not_short (c : PeerCredit) :
    c.creditTest b = true ↔ ¬ c.ShortOfCredit b := by
  have hone : (1 : Int64).toInt = 1 := rfl
  rw [creditTest_iff, Int64.le_iff_toInt_le, Int64.le_iff_toInt_le, hone]
  unfold PeerCredit.ShortOfCredit
  rw [UInt64.lt_iff_toNat_lt, UInt64.le_iff_toNat_le]
  omega

theorem ratioTest_iff (c : PeerCredit) (m : ℚ) :
    c.ratioTest m = true ↔ c.bytesReceived = 0
      ∨ m * c.bytesReceived.toNat ≤ c.bytesServed.toNat := by
  unfold PeerCredit.ratioTest PeerCredit.ratio
  rw [decide_eq_true_eq]
  by_cases h : c.bytesReceived = 0
  · simp [h]
  · have hpos : (0 : ℚ) < c.bytesReceived.toNat := by
      have : c.bytesReceived.toNat ≠ 0 := fun hz =>
        h (UInt64.toNat_inj.1 hz)
      exact_mod_cast Nat.pos_of_ne_zero this
    rw [if_neg h, WithTop.coe_le_coe, le_div_iff₀ hpos]
    simp [h]

theorem ratioTest_iff_not_short (c : PeerCredit) (m : ℚ) :
    c.ratioTest m = true ↔ ¬ c.ShortOfRatio m := by
  rw [ratioTest_iff]
  unfold PeerCredit.ShortOfRatio
  rw [not_and_or, not_not, not_lt]

/-- `should_serve` on a known peer, by what the request lacks. -/
theorem shouldServe_iff (h : st.peers.get p = some c) :
    st.shouldServe p b = true
      ↔ c.denied = false ∧ (c.goodwill st.initialCredit b = true
        ∨ ¬ (c.ShortOfCredit b ∨ c.ShortOfRatio st.minRatio)) := by
  rw [shouldServe_known h, not_or, ← creditTest_iff_not_short,
    ← ratioTest_iff_not_short]
  cases c.denied <;> simp

theorem goodwill_iff (c : PeerCredit) (i : UInt64) :
    c.goodwill i b = true ↔ c.bytesServed = 0
      ∧ saturatingAdd c.bytesReceived b
        ≤ saturatingAdd i c.prepaidBytes := by
  unfold PeerCredit.goodwill
  rw [Bool.and_eq_true, beq_iff_eq, decide_eq_true_eq]

section recorded

variable (c : PeerCredit) (n b now : UInt64)

theorem effectiveCredit_recordServed :
    (c.recordServed n now).effectiveCredit
      = c.effectiveCredit + n.toInt64 := by
  show c.netCredit + n.toInt64 + c.prepaidBytes.toInt64
    = c.netCredit + c.prepaidBytes.toInt64 + n.toInt64
  rw [Int64.add_assoc, Int64.add_assoc, Int64.add_comm n.toInt64]

theorem effectiveCredit_recordReceived :
    (c.recordReceived n now).effectiveCredit
      = c.effectiveCredit - n.toInt64 := by
  show c.netCredit - n.toInt64 + c.prepaidBytes.toInt64
    = c.netCredit + c.prepaidBytes.toInt64 - n.toInt64
  rw [Int64.sub_eq_add_neg, Int64.sub_eq_add_neg, Int64.add_assoc,
    Int64.add_assoc, Int64.add_comm (-n.toInt64)]

theorem creditTest_recordServed :
    (c.recordServed n now).creditTest b = true ↔ c.CreditReached n b := by
  rw [creditTest_iff, effectiveCredit_recordServed, le_add_toInt64_iff]
  show b.toInt64 ≤ c.netCredit + n.toInt64 ∨ b ≤ c.prepaidBytes ∨ _ ↔ _
  rw [le_add_toInt64_iff]
  exact or_left_comm

theorem creditTest_recordReceived :
    (c.recordReceived n now).creditTest b = true ↔ ¬ c.CreditSpent n b := by
  rw [creditTest_iff, effectiveCredit_recordReceived, le_sub_toInt64_iff]
  show b.toInt64 ≤ c.netCredit - n.toInt64 ∨ b ≤ c.prepaidBytes ∨ _ ↔ _
  rw [le_sub_toInt64_iff]
  unfold PeerCredit.CreditSpent
  rw [not_and_or, not_and_or, not_not, not_not, UInt64.not_lt]
  exact or_left_comm

theorem ratioTest_recordServed (m : ℚ) :
    (c.recordServed n now).ratioTest m = true ↔ c.RatioReached m n := by
  rw [ratioTest_iff]
  show c.bytesReceived = 0
    ∨ m * c.bytesReceived.toNat ≤ (c.bytesServed + n).toNat ↔ _
  have hn := n.toNat_lt
  have hs := c.bytesServed.toNat_lt
  unfold PeerCredit.RatioReached
  rw [UInt64.toNat_add]
  by_cases hover : c.bytesServed.toNat + n.toNat < 2 ^ 64
  · rw [Nat.mod_eq_of_lt hover, Nat.cast_add]
    refine or_congr_right ⟨fun h => .inl ⟨h, by exact_mod_cast hover⟩, ?_⟩
    rintro (h | h)
    · exact h.1
    · linarith
  · have hround : ((c.bytesServed.toNat + n.toNat) % 2 ^ 64 : ℕ)
        = (c.bytesServed.toNat + n.toNat - 2 ^ 64 : ℚ) := by
      have hmod : (c.bytesServed.toNat + n.toNat) % 2 ^ 64
          = c.bytesServed.toNat + n.toNat - 2 ^ 64 := by omega
      rw [hmod, Nat.cast_sub (Nat.not_lt.1 hover)]
      push_cast
      rfl
    rw [hround]
    refine or_congr_right ⟨fun h => .inr (by linarith), ?_⟩
    rintro (h | h)
    · exact absurd (by exact_mod_cast h.2) hover
    · linarith

theorem ratioTest_recordReceived (m : ℚ) :
    (c.recordReceived n now).ratioTest m = true ↔ ¬ c.RatioSpent m n := by
  rw [ratioTest_iff_not_short, not_iff_not]
  show (c.bytesReceived + n ≠ 0
    ∧ (c.bytesServed.toNat : ℚ) < m * (c.bytesReceived + n).toNat) ↔ _
  have hn := n.toNat_lt
  have hr := c.bytesReceived.toNat_lt
  have hzero : c.bytesReceived + n ≠ 0
      ↔ (c.bytesReceived.toNat + n.toNat) % 2 ^ 64 ≠ 0 := by
    rw [← UInt64.toNat_add, ← UInt64.toNat_inj.ne]
    rfl
  unfold PeerCredit.RatioSpent
  rw [hzero, UInt64.toNat_add]
  by_cases hover : c.bytesReceived.toNat + n.toNat < 2 ^ 64
  · rw [Nat.mod_eq_of_lt hover, Nat.cast_add]
    constructor
    · rintro ⟨hne, hlt⟩
      exact .inl ⟨Nat.pos_of_ne_zero hne, hover, hlt⟩
    · rintro (⟨hpos, -, hlt⟩ | ⟨hbig, -⟩)
      · exact ⟨Nat.pos_iff_ne_zero.1 hpos, hlt⟩
      · omega
  · have hmod : (c.bytesReceived.toNat + n.toNat) % 2 ^ 64
        = c.bytesReceived.toNat + n.toNat - 2 ^ 64 := by omega
    have hcast : ((c.bytesReceived.toNat + n.toNat - 2 ^ 64 : ℕ) : ℚ)
        = c.bytesReceived.toNat + n.toNat - 2 ^ 64 := by
      rw [Nat.cast_sub (Nat.not_lt.1 hover)]
      push_cast
      rfl
    rw [hmod, hcast]
    constructor
    · rintro ⟨hne, hlt⟩
      exact .inr ⟨by omega, hlt⟩
    · rintro (⟨-, hsmall, -⟩ | ⟨hbig, hlt⟩)
      · exact absurd hsmall hover
      · exact ⟨by omega, hlt⟩

/-- The counter of served bytes comes to zero on an untouched record
with nothing more served, or by going all the way round. -/
theorem goodwill_recordServed (i : UInt64) :
    (c.recordServed n now).goodwill i b = true
      ↔ (c.bytesServed = 0 ∧ n = 0
          ∨ c.bytesServed.toNat + n.toNat = 2 ^ 64)
        ∧ saturatingAdd c.bytesReceived b
          ≤ saturatingAdd i c.prepaidBytes := by
  rw [goodwill_iff]
  refine and_congr_left fun _ => ?_
  show c.bytesServed + n = 0 ↔ _
  have hn := n.toNat_lt
  have hs := c.bytesServed.toNat_lt
  rw [← UInt64.toNat_inj, ← UInt64.toNat_inj, ← UInt64.toNat_inj,
    UInt64.toNat_add]
  show (_ % 2 ^ 64 = 0) ↔ (_ = 0 ∧ _ = 0) ∨ _
  omega

end recorded

/-- When serving does not turn a refusal into a grant. -/
theorem served_keeps_refusal_iff (h : st.peers.get p = some c) :
    (st.shouldServe p b = false →
        (st.recordServed p n now).shouldServe p b = false)
      ↔ c.denied = true ∨ ¬ c.Lifts st n b := by
  have hget : (st.recordServed p n now).peers.get p
      = some (c.recordServed n now) := by
    show (st.updPeer p (·.recordServed n now)).peers.get p = _
    rw [get_updPeer, if_pos rfl, h]
    rfl
  have hbefore := shouldServe_iff (b := b) h
  have hafter := shouldServe_iff (b := b) hget
  have hden : (c.recordServed n now).denied = c.denied := rfl
  have hcredit := creditTest_recordServed c n b now
  have hratio := ratioTest_recordServed c n now st.minRatio
  rw [creditTest_iff_not_short] at hcredit
  rw [ratioTest_iff_not_short] at hratio
  have hgood := goodwill_recordServed c n b now st.initialCredit
  have hsame : c.bytesServed = 0 ∧ n = 0 →
      (saturatingAdd c.bytesReceived b
        ≤ saturatingAdd st.initialCredit c.prepaidBytes
        ↔ c.goodwill st.initialCredit b = true) := by
    intro hzero
    rw [goodwill_iff, and_iff_right hzero.1]
  have hinit : (st.recordServed p n now).initialCredit = st.initialCredit :=
    rfl
  have hmin : (st.recordServed p n now).minRatio = st.minRatio := rfl
  rw [hinit, hmin, hden, hgood, not_or, hcredit, hratio] at hafter
  rw [← Bool.not_eq_true, ← Bool.not_eq_true, hbefore, hafter,
    PeerCredit.Lifts, ← Bool.not_eq_true, ← Bool.not_eq_true]
  grind

/-- When receiving does not turn a grant into a refusal. -/
theorem received_keeps_grant_iff (h : st.peers.get p = some c) :
    (st.shouldServe p b = true →
        (st.recordReceived p n now).shouldServe p b = true)
      ↔ c.denied = true ∨ ¬ c.Ends st n b := by
  have hget : (st.recordReceived p n now).peers.get p
      = some (c.recordReceived n now) := by
    show (st.updPeer p (·.recordReceived n now)).peers.get p = _
    rw [get_updPeer, if_pos rfl, h]
    rfl
  have hbefore := shouldServe_iff (b := b) h
  have hafter := shouldServe_iff (b := b) hget
  have hden : (c.recordReceived n now).denied = c.denied := rfl
  have hcredit := creditTest_recordReceived c n b now
  have hratio := ratioTest_recordReceived c n now st.minRatio
  rw [creditTest_iff_not_short] at hcredit
  rw [ratioTest_iff_not_short] at hratio
  have hgood : (c.recordReceived n now).goodwill st.initialCredit b = true
      ↔ c.bytesServed = 0 ∧ saturatingAdd (c.bytesReceived + n) b
        ≤ saturatingAdd st.initialCredit c.prepaidBytes := goodwill_iff _ _
  have hinit : (st.recordReceived p n now).initialCredit
      = st.initialCredit := rfl
  have hmin : (st.recordReceived p n now).minRatio = st.minRatio := rfl
  rw [hinit, hmin, hden, hgood, not_or, hcredit, hratio] at hafter
  rw [hbefore, hafter, PeerCredit.Ends, ← UInt64.not_le,
    ← Bool.not_eq_true]
  grind

-- ========= the bound

/-- What bounds a peer that gives nothing back. Along every run that
starts without a record of `p` and judges each of its requests on
goodwill, the bytes served to `p` stay within the goodwill; and from
then on the next request can exceed it exactly when the record has
become exposed. And a recorded transfer of `n` bytes leaves the decision
on `b` bytes as the sign of a debt would have it exactly when `p` is
denied anyway, or the `n` bytes do not decide it. -/
theorem freeloader_bound (p : NodeId) :
    (∀ (st : AccountingState) (es : List AccountingEvent),
      st.peers.get p = none → (∀ e ∈ es, e.Silent p) →
      AllOnGoodwill p st es →
      servedTo p st es ≤ st.initialCredit.toNat
        ∧ ((∃ b now, st.initialCredit.toNat
              < servedTo p st (es ++ [.serve p b now]))
          ↔ Exposed p (run st es)))
    ∧ (∀ (st : AccountingState) (c : PeerCredit) (n b now : UInt64),
      st.peers.get p = some c →
      ((st.shouldServe p b = false →
          (st.recordServed p n now).shouldServe p b = false)
        ↔ c.denied = true ∨ ¬ c.Lifts st n b))
    ∧ (∀ (st : AccountingState) (c : PeerCredit) (n b now : UInt64),
      st.peers.get p = some c →
      ((st.shouldServe p b = true →
          (st.recordReceived p n now).shouldServe p b = true)
        ↔ c.denied = true ∨ ¬ c.Ends st n b)) := by
  refine ⟨?_, ?_, ?_⟩
  · intro st es hnone hsilent hgoodwill
    have hstart : Tracks p 0 st := by
      constructor
      · exact Nat.zero_le _
      · exact fun _ => rfl
      all_goals
        intro c hc
        rw [hnone] at hc
        cases hc
    have hend := hstart.run hsilent hgoodwill
    rw [Nat.zero_add] at hend
    have hcredit : (run st es).initialCredit = st.initialCredit :=
      run_initialCredit es
    have hnext := hend.exceeds_iff
    rw [hcredit] at hnext
    refine ⟨hcredit ▸ hend.within, ?_⟩
    rw [← hnext]
    simp only [servedTo_append]
  · intro st c n b now hget
    exact served_keeps_refusal_iff hget
  · intro st c n b now hget
    exact received_keeps_grant_iff hget

/-- A peer that asks again and again. -/
def freeloader : NodeId := Bytes.fill 16 7

/-- The peer asks for more than the goodwill and is turned away, is
served once, fails twelve challenges and is denied. -/
def deniedRun : List AccountingEvent :=
  [.serve freeloader 2000000 10, .challenge freeloader true 11,
    .serve freeloader 600000 12]
  ++ List.replicate 12 (.challenge freeloader false 13)
  ++ [.serve freeloader 600000 14, .prune 100 20]

example : servedTo freeloader AccountingState.new deniedRun = 600000 := by
  decide +kernel

theorem freeloader_bound_denied :
    servedTo freeloader AccountingState.new deniedRun
        ≤ AccountingState.new.initialCredit.toNat
      ∧ ¬ ∃ b now, AccountingState.new.initialCredit.toNat
        < servedTo freeloader AccountingState.new
            (deniedRun ++ [.serve freeloader b now]) := by
  obtain ⟨hwithin, hnext⟩ := (freeloader_bound freeloader).1
    AccountingState.new deniedRun rfl (by decide) (by decide +kernel)
  refine ⟨hwithin, ?_⟩
  rw [hnext]
  decide +kernel

/-- Two requests for the whole goodwill are both served. -/
theorem freeloader_exceeds :
    (∀ e ∈ [AccountingEvent.serve freeloader 1048576 10,
        .serve freeloader 1048576 20], e.Silent freeloader)
      ∧ AccountingState.new.peers.get freeloader = none
      ∧ AccountingState.new.initialCredit.toNat
        < servedTo freeloader AccountingState.new
            [.serve freeloader 1048576 10,
              .serve freeloader 1048576 20] := by
  decide +kernel

end StaticNet
