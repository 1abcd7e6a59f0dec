/-
What a sponsor that refuses a prepayment has changed
(`handle_prepayment` in `static-node/src/runner.rs`).

# Five checks

The checks run in order: mode and signature, the flag, the hourly limit,
the surplus, the room for another seed. The attempt is entered in the
table of attempts after the third, so a refusal by one of the first two
leaves everything alone, a refusal by the limit counts a violation, and a
refusal by the last two has counted as an attempt (`refusal_keeps_iff`).

# Room

A seed is new only where there is room, and nothing takes a flag back, so
there are never more unflagged seeds than the sponsor takes.
-/
import StaticNet.Accounting.Prepaid

namespace StaticNet

open SponsorLedger Exact

variable {P : Prims} {mode : NodeMode}
  {order : IterOrder (NodeId × ContentId)} {seed : NodeId}
  {p : Prepayment} {now : Nat} {l : SponsorLedger}

-- ========== refusals

/-- A refusal leaves everything alone, but for one violation on the
sender's record where it is the limit that refuses. -/
def RefusalKeeps (P : Prims) (mode : NodeMode)
    (order : IterOrder (NodeId × ContentId)) (l : SponsorLedger)
    (seed : NodeId) (p : Prepayment) (now : Nat) : Prop :=
  (handlePrepayment P mode order seed p now l).1 = false →
    (handlePrepayment P mode order seed p now l).2 = l
      ∨ Heard P mode l seed p
        ∧ l.checkPrepayRateLimit seed p.contentId now = false
        ∧ (handlePrepayment P mode order seed p now l).2
          = l.recordSeedViolation seed

/-- An attempt shows in the table: the entry there was is an hour old. -/
theorem recordPrepayAttempt_ne
    (hlimit : l.checkPrepayRateLimit seed p.contentId now = true) :
    l.recordPrepayAttempt order seed p.contentId now ≠ l := by
  intro h
  have hself :=
    get_recordPrepayAttempt_self order seed p.contentId now l
  rw [h] at hself
  have hfar := checkPrepayRateLimit_iff.1 hlimit now hself
  rw [Nat.sub_self] at hfar
  exact absurd hfar (by decide)

theorem refusal_keeps_iff (P : Prims) (mode : NodeMode)
    (order : IterOrder (NodeId × ContentId)) (l : SponsorLedger)
    (seed : NodeId) (p : Prepayment) (now : Nat) :
    RefusalKeeps P mode order l seed p now
      ↔ ¬(Heard P mode l seed p
        ∧ l.checkPrepayRateLimit seed p.contentId now = true
        ∧ Unable l seed) := by
  unfold RefusalKeeps
  by_cases hheard : Heard P mode l seed p
  swap
  · rw [handlePrepayment_unheard hheard]
    exact iff_of_true (fun _ => Or.inl rfl) fun h => hheard h.1
  cases hlimit : l.checkPrepayRateLimit seed p.contentId now with
  | false =>
      rw [handlePrepayment_limited hheard hlimit]
      exact iff_of_true (fun _ => Or.inr ⟨hheard, rfl, rfl⟩)
        fun h => by cases h.2.1
  | true =>
      by_cases hunable : Unable l seed
      · rw [handlePrepayment_unable order hheard hlimit hunable]
        refine iff_of_false (fun h => ?_) fun h => h ⟨hheard, rfl, hunable⟩
        rcases h rfl with hsame | ⟨-, hno, -⟩
        · exact recordPrepayAttempt_ne hlimit hsame
        · cases hno
      · obtain ⟨l', -, hok⟩ :=
          handlePrepayment_able order hheard hlimit hunable
        rw [hok]
        exact iff_of_true (fun h => by cases h) fun h => hunable h.2.2

-- ============== room

/-- One call on the sponsor's state: something on the peers' records, a
prepayment, a heartbeat or a violation of a seed. -/
inductive SponsorCall
  | records (f : AccountingState → AccountingState)
  | prepayment (order : IterOrder (NodeId × ContentId)) (seed : NodeId)
      (p : Prepayment) (now : Nat)
  | heartbeat (seed : NodeId) (now : Nat)
  | violation (seed : NodeId)

/-- `record_seed_heartbeat`. -/
def SponsorLedger.recordSeedHeartbeat (seed : NodeId) (now : Nat)
    (l : SponsorLedger) : SponsorLedger :=
  { l with
    sponsoredSeeds := l.sponsoredSeeds.modify seed fun info =>
      { info with
        heartbeatsReceived := info.heartbeatsReceived + 1
        lastSeen := now } }

def SponsorCall.step (P : Prims) (mode : NodeMode) (l : SponsorLedger) :
    SponsorCall → SponsorLedger
  | records f => { l with accounting := f l.accounting }
  | prepayment order seed p now =>
      (handlePrepayment P mode order seed p now l).2
  | heartbeat seed now => l.recordSeedHeartbeat seed now
  | violation seed => l.recordSeedViolation seed

/-- No more unflagged seeds than the sponsor takes. -/
def SponsorLedger.Roomy (l : SponsorLedger) : Prop :=
  l.sponsorSeedCount ≤ MAX_SPONSORED_SEEDS

/-- The seeds that count. -/
def SponsorLedger.unflagged (l : SponsorLedger) : Finset NodeId :=
  (l.sponsoredSeeds.retain fun _ s => !s.misbehaving).keys

theorem mem_unflagged_iff (n : NodeId) :
    n ∈ l.unflagged ↔ ∃ info, l.sponsoredSeeds.get n = some info
      ∧ info.misbehaving = false := by
  unfold SponsorLedger.unflagged
  rw [FMap.mem_keys_iff]
  simp only [FMap.get_retain, Option.filter_eq_some_iff,
    Bool.not_eq_eq_eq_not, Bool.not_true]

/-- Where no seed loses its flag and none is new, the count does not
grow. -/
theorem SponsorLedger.Roomy.of_subset {l' : SponsorLedger} (h : l.Roomy)
    (hsub : l'.unflagged ⊆ l.unflagged) : l'.Roomy :=
  Nat.le_trans (Finset.card_le_card hsub) h

/-- An update of one record that keeps its flag. -/
theorem unflagged_insert_subset {info : SponsoredSeedInfo}
    (h : info.misbehaving = false → seed ∈ l.unflagged) :
    SponsorLedger.unflagged
      { l with sponsoredSeeds := l.sponsoredSeeds.insert seed info }
      ⊆ l.unflagged := by
  intro n hn
  obtain ⟨info', hget, hflag⟩ := (mem_unflagged_iff n).1 hn
  by_cases hsame : n = seed
  · rw [hsame, FMap.get_insert_self] at hget
    cases hget
    rw [hsame]
    exact h hflag
  · rw [FMap.get_insert_ne _ _ hsame] at hget
    exact (mem_unflagged_iff n).2 ⟨info', hget, hflag⟩

theorem unflagged_modify_subset {f : SponsoredSeedInfo → SponsoredSeedInfo}
    (hf : ∀ info, (f info).misbehaving = false →
      info.misbehaving = false) :
    SponsorLedger.unflagged
      { l with sponsoredSeeds := l.sponsoredSeeds.modify seed f }
      ⊆ l.unflagged := by
  cases hget : l.sponsoredSeeds.get seed with
  | none =>
      rw [FMap.modify_of_get_none hget]
  | some info =>
      rw [FMap.modify_of_get hget]
      exact unflagged_insert_subset fun h =>
        (mem_unflagged_iff seed).2 ⟨info, hget, hf info h⟩

/-- A new seed takes one of the places left. -/
theorem SponsorLedger.Roomy.register {l' : SponsorLedger} {contentId : ContentId}
    {bytes : UInt64} (h : l.Roomy)
    (hreg : l.registerSponsoredSeed seed contentId bytes now = some l') :
    l'.Roomy := by
  unfold registerSponsoredSeed at hreg
  cases hget : l.sponsoredSeeds.get seed with
  | some info =>
      rw [hget] at hreg
      cases hreg
      exact h.of_subset (unflagged_insert_subset fun hflag =>
        (mem_unflagged_iff seed).2 ⟨info, hget, hflag⟩)
  | none =>
      rw [hget] at hreg
      dsimp only at hreg
      cases hcan : l.canSponsor with
      | false =>
          rw [hcan] at hreg
          cases hreg
      | true =>
          rw [hcan] at hreg
          cases hreg
          have hlt : l.unflagged.card < MAX_SPONSORED_SEEDS := by
            exact of_decide_eq_true hcan
          have hsub : SponsorLedger.unflagged
              { l with
                sponsoredSeeds := l.sponsoredSeeds.insert seed
                  (SponsoredSeedInfo.new seed contentId bytes now) }
              ⊆ insert seed l.unflagged := by
            intro n hn
            by_cases hsame : n = seed
            · rw [hsame]
              exact Finset.mem_insert_self _ _
            · obtain ⟨info, hinfo, hflag⟩ := (mem_unflagged_iff n).1 hn
              rw [FMap.get_insert_ne _ _ hsame] at hinfo
              exact Finset.mem_insert_of_mem
                ((mem_unflagged_iff n).2 ⟨info, hinfo, hflag⟩)
          exact Nat.le_trans (Finset.card_le_card hsub)
            (Nat.le_trans (Finset.card_insert_le _ _) hlt)

theorem SponsorLedger.Roomy.handlePrepayment (P : Prims) (mode : NodeMode)
    (order : IterOrder (NodeId × ContentId)) (seed : NodeId)
    (p : Prepayment) (now : Nat) (h : l.Roomy) :
    (handlePrepayment P mode order seed p now l).2.Roomy := by
  by_cases hheard : Heard P mode l seed p
  swap
  · rw [handlePrepayment_unheard hheard]
    exact h
  cases hlimit : l.checkPrepayRateLimit seed p.contentId now with
  | false =>
      rw [handlePrepayment_limited hheard hlimit]
      refine h.of_subset (unflagged_modify_subset fun info hflag => ?_)
      simp only [SponsoredSeedInfo.violate, Bool.or_eq_false_iff] at hflag
      exact hflag.2
  | true =>
      by_cases hunable : Unable l seed
      · rw [handlePrepayment_unable order hheard hlimit hunable]
        exact h
      · obtain ⟨l', hreg, hok⟩ :=
          handlePrepayment_able order hheard hlimit hunable
        rw [hok]
        have hbefore : ((l.recordPrepayAttempt order seed p.contentId
            now).recordPrepayment seed p.bytes).Roomy := h
        exact hbefore.register hreg

theorem SponsorLedger.Roomy.step (h : l.Roomy) (e : SponsorCall) :
    (e.step P mode l).Roomy := by
  cases e with
  | records f => exact h
  | prepayment order seed p now =>
      exact h.handlePrepayment P mode order seed p now
  | heartbeat seed now =>
      exact h.of_subset (unflagged_modify_subset fun _ hflag => hflag)
  | violation seed =>
      refine h.of_subset (unflagged_modify_subset fun info hflag => ?_)
      simp only [SponsoredSeedInfo.violate, Bool.or_eq_false_iff] at hflag
      exact hflag.2

/-- A sponsor without records. -/
def SponsorLedger.new : SponsorLedger := ⟨AccountingState.new, ∅, ∅⟩

-- ========= the whole

/-- What a refusal leaves: everything as it was; or one violation more on
the sender's record, by the limit; or the attempt, for want of a surplus or
of room. -/
def RefusalLeaves (P : Prims) (mode : NodeMode)
    (order : IterOrder (NodeId × ContentId)) (l : SponsorLedger)
    (seed : NodeId) (p : Prepayment) (now : Nat) : Prop :=
  (handlePrepayment P mode order seed p now l).1 = false →
    (handlePrepayment P mode order seed p now l).2 = l
      ∨ Heard P mode l seed p
        ∧ l.checkPrepayRateLimit seed p.contentId now = false
        ∧ (handlePrepayment P mode order seed p now l).2
          = l.recordSeedViolation seed
      ∨ Heard P mode l seed p
        ∧ l.checkPrepayRateLimit seed p.contentId now = true
        ∧ Unable l seed
        ∧ (handlePrepayment P mode order seed p now l).2
          = l.recordPrepayAttempt order seed p.contentId now

/-- A refusal leaves no more than its attempt or one violation; and in
every state a sponsor reaches the seeds that are not flagged are at most
those it takes. -/
theorem refusal_leaves (P : Prims) (mode : NodeMode)
    (order : IterOrder (NodeId × ContentId)) (l : SponsorLedger)
    (seed : NodeId) (p : Prepayment) (now : Nat)
    (calls : List SponsorCall) :
    RefusalLeaves P mode order l seed p now
      ∧ Always (SponsorCall.step P mode) SponsorLedger.Roomy
        SponsorLedger.new calls := by
  refine ⟨fun hno => ?_, always_of_step (fun _ e h => h.step e)
    (Nat.zero_le _)⟩
  by_cases hlate : Heard P mode l seed p
      ∧ l.checkPrepayRateLimit seed p.contentId now = true
      ∧ Unable l seed
  · obtain ⟨hheard, hlimit, hunable⟩ := hlate
    have hleft := handlePrepayment_unable order hheard hlimit hunable
    exact Or.inr (Or.inr ⟨hheard, hlimit, hunable, by rw [hleft]⟩)
  · have hkeeps := (refusal_keeps_iff P mode order l seed p now).2 hlate hno
    exact hkeeps.elim Or.inl fun hlimit => Or.inr (Or.inl hlimit)

/-- A node that has taken more than it served. -/
def spentLedger : SponsorLedger :=
  ⟨{ AccountingState.new with totalBytesReceived := 1 }, ∅, ∅⟩

/-- It refuses a first prepayment and enters the attempt. -/
theorem refusal_counts_as_attempt :
    ¬RefusalKeeps Prims.plain .full attemptOrder spentLedger
      onePrepayment.fromNode onePrepayment 0 := by
  intro h
  refine (refusal_keeps_iff _ _ _ _ _ _ _).1 h ⟨⟨?_, ?_, ?_⟩, ?_, ?_⟩
  · decide
  · decide
  · decide
  · decide
  · exact Or.inl (by decide)

end StaticNet
