/-
Ghost resources for programs that run in a pool.

An invariant of a pool often needs to know what the running programs are
in the middle of: an amount one of them has set aside and not yet
recorded, or recorded and not yet released. `Carries` gives each program a
resource, an element of a commutative monoid that exists only in the
proof, and lets the invariant speak of the state together with the sum of
all resources. A section may exchange its program's resource for another
one as long as the invariant survives with the rest of the sum, the
frame, unchanged; what the other programs own is thereby untouched.

`Reach.resources` is the rule: if every program can be spawned with
nothing, every configuration of a run satisfies the invariant with some
distribution of resources over the pool. The side condition on
transitions restricts the runs that are considered.
-/
import Mathlib.Algebra.BigOperators.Group.List.Basic
import StaticNet.Lib.Proc

namespace StaticNet

namespace Proc

variable {ℓ σ α β M : Type} [AddCommMonoid M]

/-- The program keeps the invariant while owning `m`; when it returns it
owns what `Q` says. -/
def Carries (I : σ → M → Prop) (W : ℓ → σ → σ → Prop) (Q : α → M → Prop) :
    M → Proc ℓ σ α → Prop
  | m, ret a => Q a m
  | m, sec l upd next => ∀ s frame, I s (frame + m) → W l s (upd s) →
      ∃ m', I (upd s) (frame + m') ∧ Carries I W Q m' (next s)

variable {I : σ → M → Prop} {W : ℓ → σ → σ → Prop} {m : M}

/-- Sequencing: the continuation starts with what the first part left. -/
theorem Carries.bind {Q : α → M → Prop} {Q' : β → M → Prop}
    {p : Proc ℓ σ α} {f : α → Proc ℓ σ β} (hp : Carries I W Q m p)
    (hf : ∀ a m', Q a m' → Carries I W Q' m' (f a)) :
    Carries I W Q' m (p >>= f) := by
  induction p generalizing m with
  | ret a => exact hf a m hp
  | sec l upd next ih =>
      intro s frame hI hW
      obtain ⟨m', hI', hrest⟩ := hp s frame hI hW
      exact ⟨m', hI', ih s hrest⟩

theorem Carries.mono {Q Q' : α → M → Prop} {p : Proc ℓ σ α}
    (hp : Carries I W Q m p) (hQ : ∀ a m', Q a m' → Q' a m') :
    Carries I W Q' m p := by
  induction p generalizing m with
  | ret a => exact hQ a m hp
  | sec l upd next ih =>
      intro s frame hI hW
      obtain ⟨m', hI', hrest⟩ := hp s frame hI hW
      exact ⟨m', hI', ih s hrest⟩

/-- Sections that keep the invariant whatever is owned keep what the
program owns. -/
theorem Carries.of_sections {G : ℓ → σ → σ → Prop} {p : Proc ℓ σ α}
    (hp : Sections G p)
    (hG : ∀ l s s' m, G l s s' → I s m → W l s s' → I s' m) :
    Carries I W (fun _ m' => m' = m) m p := by
  induction p with
  | ret a => rfl
  | sec l upd next ih =>
      intro s frame hI hW
      obtain ⟨hsec, hrest⟩ := hp s
      exact ⟨m, hG l s (upd s) _ hsec hI hW, ih s hrest⟩

/-- The resource rule for a pool. -/
theorem Reach.resources {H : Proc ℓ σ Unit → Prop} {C : ℓ → σ → Prop}
    {s₀ s : σ} {ps : List (Proc ℓ σ Unit)} {tr : List (Step ℓ σ)}
    (h : Reach H C s₀ s ps tr) (hinit : I s₀ 0)
    (hH : ∀ p, H p → Carries I W (fun _ _ => True) 0 p)
    (hW : ∀ t ∈ transitions s tr, W t.1 t.2.1 t.2.2) :
    ∃ qs : List (M × Proc ℓ σ Unit), ps = qs.map Prod.snd
      ∧ I s (qs.map Prod.fst).sum
      ∧ ∀ q ∈ qs, Carries I W (fun _ _ => True) q.1 q.2 := by
  induction h with
  | init => exact ⟨[], rfl, hinit, by simp⟩
  | spawn p hp _ ih =>
      obtain ⟨qs, rfl, hI, hqs⟩ := ih hW
      refine ⟨(0, p) :: qs, rfl, ?_, ?_⟩
      · rw [List.map_cons, List.sum_cons, zero_add]
        exact hI
      · intro q hq
        rcases List.mem_cons.1 hq with rfl | hq
        · exact hH p hp
        · exact hqs q hq
  | @exec s tr ps₁ ps₂ l upd next _ _ ih =>
      rw [transitions_append] at hW
      obtain ⟨qs, hps, hI, hqs⟩ :=
        ih fun t ht => hW t (List.mem_append_left _ ht)
      obtain ⟨qs₁, qs₂, rfl, rfl, hcons⟩ :=
        List.map_eq_append_iff.1 hps.symm
      obtain ⟨⟨m, p⟩, qs₃, rfl, hp, rfl⟩ := List.map_eq_cons_iff.1 hcons
      dsimp only at hp
      subst hp
      -- the other programs' resources are the frame
      have hsum (m : M) (p : Proc ℓ σ Unit) :
          ((qs₁ ++ (m, p) :: qs₃).map Prod.fst).sum
            = ((qs₁.map Prod.fst).sum + (qs₃.map Prod.fst).sum) + m := by
        rw [List.map_append, List.sum_append, List.map_cons, List.sum_cons,
          add_comm m, add_assoc]
      rw [hsum] at hI
      have hstep := hqs (m, sec l upd next) (by simp)
      obtain ⟨m', hI', hrest⟩ := hstep s _ hI
        (hW (l, s, upd s) (by simp))
      refine ⟨qs₁ ++ (m', next s) :: qs₃, ?_, ?_, ?_⟩
      · rw [List.map_append, List.map_cons]
      · rw [hsum]
        exact hI'
      · intro q hq
        rcases List.mem_append.1 hq with hq | hq
        · exact hqs q (by simp [hq])
        · rcases List.mem_cons.1 hq with rfl | hq
          · exact hrest
          · exact hqs q (by simp [hq])

end Proc

end StaticNet
