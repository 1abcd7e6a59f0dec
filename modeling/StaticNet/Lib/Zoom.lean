/-
Programs over a part of a larger state.

A component's programs are written over the component's own state. Where
several components share one task pool, each is zoomed in on its part:
its sections update that part and leave the rest, and its labels are
tagged. What a program does when run alone, and what its sections
guarantee, carries over.
-/
import StaticNet.Lib.Proc

namespace StaticNet

namespace Proc

variable {ℓ ℓ' σ τ α β : Type}

/-- A part of a state: how to look at it and how to put it back. -/
structure Part (τ σ : Type) where
  get : τ → σ
  set : τ → σ → τ
  get_set : ∀ t s, get (set t s) = s
  set_get : ∀ t, set t (get t) = t
  set_set : ∀ t s s', set (set t s) s' = set t s'

/-- A program over the part, as a program over the whole. -/
def zoom (part : Part τ σ) (tag : ℓ → ℓ') : Proc ℓ σ α → Proc ℓ' τ α
  | ret a => ret a
  | sec l upd next =>
      sec (tag l) (fun t => part.set t (upd (part.get t)))
        fun t => zoom part tag (next (part.get t))

variable {part : Part τ σ} {tag : ℓ → ℓ'}

@[simp] theorem out_zoom (p : Proc ℓ σ α) (t : τ) :
    (zoom part tag p).out t = p.out (part.get t) := by
  induction p generalizing t with
  | ret a => rfl
  | sec l upd next ih =>
      show (zoom part tag (next (part.get t))).out
        (part.set t (upd (part.get t))) = _
      rw [ih, part.get_set]
      rfl

@[simp] theorem post_zoom (p : Proc ℓ σ α) (t : τ) :
    (zoom part tag p).post t = part.set t (p.post (part.get t)) := by
  induction p generalizing t with
  | ret a => exact (part.set_get t).symm
  | sec l upd next ih =>
      show (zoom part tag (next (part.get t))).post
        (part.set t (upd (part.get t))) = _
      rw [ih, part.get_set, part.set_set]
      rfl

/-- The sections of the zoomed program are the program's, seen through
the part. -/
theorem Sections.zoom {G : ℓ → σ → σ → Prop} {G' : ℓ' → τ → τ → Prop}
    {p : Proc ℓ σ α} (hp : Sections G p)
    (hG : ∀ l t s', G l (part.get t) s' → G' (tag l) t (part.set t s')) :
    Sections G' (Proc.zoom part tag p) := by
  induction p with
  | ret a => trivial
  | sec l upd next ih =>
      intro t
      obtain ⟨h, hrest⟩ := hp (part.get t)
      exact ⟨hG l t _ h, ih _ hrest⟩

end Proc

end StaticNet
