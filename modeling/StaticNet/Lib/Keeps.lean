/-
Invariants of a pool that need no history.

`Keeps J C Q p` is the obligation of one program for an invariant of the
state alone: each section, found in any state that satisfies `J` and
where `C` lets it execute, leaves a state that satisfies `J`, and what
the program has read is known to come from such states. It is `Ok`
without the history, and like it sound for a pool: the state a section
finds is not the one its predecessor left, but every state in between
satisfies `J` too (`Reach.keeps`).
-/
import StaticNet.Lib.Zoom

namespace StaticNet

namespace Proc

variable {ℓ ℓ' σ τ α β : Type} {J : σ → Prop} {C : ℓ → σ → Prop}

/-- Every section keeps `J`, and the value returned satisfies `Q`. -/
def Keeps (J : σ → Prop) (C : ℓ → σ → Prop) (Q : α → Prop) :
    Proc ℓ σ α → Prop
  | ret a => Q a
  | sec l upd next => ∀ s, J s → C l s →
      J (upd s) ∧ Keeps J C Q (next s)

/-- Sequencing: the rest may use what is known of the value. -/
theorem Keeps.bind {Q : α → Prop} {Q' : β → Prop} {p : Proc ℓ σ α}
    {f : α → Proc ℓ σ β} (hp : Keeps J C Q p)
    (hf : ∀ a, Q a → Keeps J C Q' (f a)) : Keeps J C Q' (p >>= f) := by
  induction p with
  | ret a => exact hf a hp
  | sec l upd next ih =>
      intro s hs hC
      obtain ⟨hJ, hrest⟩ := hp s hs hC
      exact ⟨hJ, ih s hrest⟩

theorem Keeps.mono {Q Q' : α → Prop} {p : Proc ℓ σ α}
    (hp : Keeps J C Q p) (hQ : ∀ a, Q a → Q' a) : Keeps J C Q' p := by
  induction p with
  | ret a => exact hQ a hp
  | sec l upd next ih =>
      intro s hs hC
      obtain ⟨hJ, hrest⟩ := hp s hs hC
      exact ⟨hJ, ih s hrest⟩

/-- Sequencing when nothing is known of the value. -/
theorem Keeps.then {Q : β → Prop} {p : Proc ℓ σ α}
    {f : α → Proc ℓ σ β} (hp : Keeps J C (fun _ => True) p)
    (hf : ∀ a, Keeps J C Q (f a)) : Keeps J C Q (p >>= f) :=
  hp.bind fun a _ => hf a

/-- A section that reads: what it returns was read where `J` holds. -/
theorem keeps_read {Q : α → Prop} {l : ℓ} {f : σ → α}
    (h : ∀ s, J s → Q (f s)) : Keeps J C Q (read l f) :=
  fun s hs _ => ⟨hs, h s hs⟩

theorem keeps_write {l : ℓ} {upd : σ → σ} (h : ∀ s, J s → J (upd s)) :
    Keeps J C (fun _ => True) (write l upd) :=
  fun s hs _ => ⟨h s hs, trivial⟩

theorem keeps_atom {Q : α → Prop} {l : ℓ} {f : σ → α × σ}
    (h : ∀ s, J s → J (f s).2 ∧ Q (f s).1) : Keeps J C Q (atom l f) :=
  fun s hs _ => h s hs

/-- Sections that keep the invariant wherever they are found. -/
theorem Keeps.of_sections {G : ℓ → σ → σ → Prop} {p : Proc ℓ σ α}
    (hp : Sections G p) (hG : ∀ l s s', G l s s' → C l s → J s → J s') :
    Keeps J C (fun _ => True) p := by
  induction p with
  | ret a => trivial
  | sec l upd next ih =>
      intro s hs hC
      obtain ⟨h, hrest⟩ := hp s
      exact ⟨hG l s _ h hC hs, ih s hrest⟩

/-- An obligation over a part is one over the whole, for an invariant
that says of the part what the part's does and survives its updates. -/
theorem Keeps.zoom {part : Part τ σ} {tag : ℓ → ℓ'} {J' : τ → Prop}
    {C' : ℓ' → τ → Prop} {Q : α → Prop} {p : Proc ℓ σ α}
    (hp : Keeps J C Q p) (hget : ∀ t, J' t → J (part.get t))
    (hC : ∀ l t, C' (tag l) t → C l (part.get t))
    (hset : ∀ t s, J' t → J s → J' (part.set t s)) :
    Keeps J' C' Q (Proc.zoom part tag p) := by
  induction p with
  | ret a => exact hp
  | sec l upd next ih =>
      intro t ht hCt
      obtain ⟨hJ, hrest⟩ := hp (part.get t) (hget t ht) (hC l t hCt)
      exact ⟨hset t _ ht hJ, ih _ hrest⟩

/-- Run alone, a program keeps the invariant. -/
theorem Keeps.post {Q : α → Prop} {p : Proc ℓ σ α} (hp : Keeps J C Q p)
    (hC : ∀ l s, C l s) {s : σ} (hs : J s) : J (p.post s) := by
  induction p generalizing s with
  | ret a => exact hs
  | sec l upd next ih =>
      obtain ⟨hJ, hrest⟩ := hp s hs (hC l s)
      exact ih s hrest hJ

theorem Keeps.ok {Q : α → Prop} {p : Proc ℓ σ α} (hp : Keeps J C Q p)
    (tr : List (Step ℓ σ)) :
    Ok (fun _ s => J s) C (fun _ _ => True) tr p := by
  induction p generalizing tr with
  | ret a => trivial
  | sec l upd next ih =>
      intro tr' s _ hs hC
      obtain ⟨hJ, hrest⟩ := hp s hs hC
      exact ⟨hJ, ih s hrest _⟩

/-- An invariant every program keeps holds wherever the pool gets. -/
theorem Reach.keeps {H : Proc ℓ σ Unit → Prop} {s₀ s : σ}
    {ps : List (Proc ℓ σ Unit)} {tr : List (Step ℓ σ)}
    (h : Reach H C s₀ s ps tr) (hinit : J s₀)
    (hH : ∀ p, H p → Keeps J C (fun _ => True) p) : J s :=
  (h.invariant (I := fun _ s => J s) hinit
    fun p hp => (hH p hp).ok []).1

end Proc

end StaticNet
