/-
Tickets: what is issued once, is open for a while, and is closed once.

A program that keeps a table of what it waits for has this shape, whatever
it waits for: an id goes in when it is issued, and the first of several
things that can settle it takes it out. `Tickets issued openIds closed`
says that every id issued is either open or closed, and is closed only
once. It is kept by issuing a new id, by closing open ones, and by passing
closed ones on.
-/
import Mathlib.Data.List.Nodup
import StaticNet.Lib.FMap

namespace StaticNet

variable {K : Type}

structure Tickets (issued : List K) (openIds : Finset K)
    (closed : List K) : Prop where
  fresh : issued.Nodup
  once : closed.Nodup
  known : ∀ k ∈ closed, k ∈ issued
  split : ∀ k, k ∈ openIds ↔ k ∈ issued ∧ k ∉ closed

namespace Tickets

variable {issued closed closed' : List K} {openIds : Finset K} {k : K}

theorem start : Tickets ([] : List K) ∅ [] :=
  ⟨List.nodup_nil, List.nodup_nil, nofun, fun _ => ⟨nofun, fun h => nomatch h.1⟩⟩

theorem open_issued (h : Tickets issued openIds closed) (hk : k ∈ openIds) :
    k ∈ issued :=
  ((h.split k).1 hk).1

theorem open_not_closed (h : Tickets issued openIds closed)
    (hk : k ∈ openIds) : k ∉ closed :=
  ((h.split k).1 hk).2

theorem closed_of_issued (h : Tickets issued openIds closed)
    (hk : k ∈ issued) (hgone : k ∉ openIds) : k ∈ closed := by
  by_contra hno
  exact hgone ((h.split k).2 ⟨hk, hno⟩)

/-- Closed ids are passed on. -/
theorem perm (h : Tickets issued openIds closed)
    (hperm : closed'.Perm closed) : Tickets issued openIds closed' :=
  ⟨h.fresh, hperm.nodup_iff.2 h.once,
    fun k hk => h.known k (hperm.mem_iff.1 hk),
    fun k => by rw [h.split, hperm.mem_iff]⟩

variable [DecidableEq K]

/-- A new id is open. -/
theorem issue (h : Tickets issued openIds closed) (hk : k ∉ issued) :
    Tickets (issued ++ [k]) (insert k openIds) closed := by
  refine ⟨?_, h.once, fun k' hk' => List.mem_append_left _ (h.known k' hk'),
    fun k' => ?_⟩
  · rw [List.nodup_append]
    refine ⟨h.fresh, List.nodup_singleton k, fun a ha b hb heq => ?_⟩
    rw [List.mem_singleton.1 hb] at heq
    exact hk (heq ▸ ha)
  · rw [Finset.mem_insert, h.split, List.mem_append, List.mem_singleton]
    constructor
    · rintro (rfl | ⟨hin, hno⟩)
      · exact ⟨.inr rfl, fun hin => hk (h.known k' hin)⟩
      · exact ⟨.inl hin, hno⟩
    · rintro ⟨hin | rfl, hno⟩
      · exact .inr ⟨hin, hno⟩
      · exact .inl rfl

/-- An open id is closed. -/
theorem close (h : Tickets issued openIds closed) (hk : k ∈ openIds)
    (hperm : closed'.Perm (k :: closed)) :
    Tickets issued (openIds.erase k) closed' := by
  refine Tickets.perm ⟨h.fresh, ?_, ?_, fun k' => ?_⟩ hperm
  · exact List.nodup_cons.2 ⟨h.open_not_closed hk, h.once⟩
  · intro k' hk'
    rcases List.mem_cons.1 hk' with rfl | hk'
    · exact h.open_issued hk
    · exact h.known k' hk'
  · rw [Finset.mem_erase, h.split, List.mem_cons, not_or]
    exact ⟨fun ⟨hne, hin, hno⟩ => ⟨hin, hne, hno⟩,
      fun ⟨hin, hne, hno⟩ => ⟨hne, hin, hno⟩⟩

/-- Several open ids are closed at once. -/
theorem closeAll {ks : List K} (h : Tickets issued openIds closed)
    (hks : ∀ k ∈ ks, k ∈ openIds) (hnodup : ks.Nodup)
    (hperm : closed'.Perm (ks ++ closed)) :
    Tickets issued (openIds \ ks.toFinset) closed' := by
  refine Tickets.perm ?_ hperm
  clear hperm
  induction ks with
  | nil =>
      rw [List.toFinset_nil, Finset.sdiff_empty]
      exact h
  | cons k ks ih =>
      rw [List.nodup_cons] at hnodup
      have hrest := ih (fun k' hk' => hks k' (List.mem_cons_of_mem _ hk'))
        hnodup.2
      rw [List.toFinset_cons, Finset.sdiff_insert]
      refine hrest.close ?_ (List.Perm.refl _)
      rw [Finset.mem_sdiff, List.mem_toFinset]
      exact ⟨hks k (List.mem_cons_self ..), hnodup.1⟩

end Tickets

-- ========= its table

namespace FMap

variable {V : Type} [DecidableEq K]

/-- Several entries taken out, one after the other. -/
theorem get_eraseAll (ks : List K) (m : FMap K V) (k : K) :
    (ks.foldl FMap.erase m).get k = if k ∈ ks then none else m.get k := by
  induction ks generalizing m with
  | nil => rfl
  | cons k' ks ih =>
      rw [List.foldl_cons, ih, get_erase]
      by_cases hks : k ∈ ks
      · rw [if_pos hks, if_pos (List.mem_cons_of_mem _ hks)]
      · rw [if_neg hks]
        by_cases hk : k = k'
        · rw [if_pos hk, if_pos (hk ▸ List.mem_cons_self)]
        · rw [if_neg hk, if_neg]
          exact fun h => (List.mem_cons.1 h).elim hk hks

theorem keys_eraseAll (ks : List K) (m : FMap K V) :
    (ks.foldl FMap.erase m).keys = m.keys \ ks.toFinset := by
  induction ks generalizing m with
  | nil => rw [List.foldl_nil, List.toFinset_nil, Finset.sdiff_empty]
  | cons k ks ih =>
      rw [List.foldl_cons, ih, List.toFinset_cons, Finset.sdiff_insert]
      exact Finset.erase_sdiff_comm _ _ _

end FMap

end StaticNet
