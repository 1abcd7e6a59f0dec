/-
Invariants of a pool, and what its programs do meanwhile.

`Abides J L Q p` is `Keeps`, and says of each section besides that its
label is one that `L` allows. What a program does may depend on what it
read, and what it read comes from states where the invariant holds: so the
two are kept together. In a pool of such programs no section is executed
that is not allowed (`Reach.abides`).
-/
import StaticNet.Lib.Keeps

namespace StaticNet

namespace Proc

variable {ℓ ℓ' σ τ α β : Type} {J : σ → Prop} {L : ℓ → Prop}

/-- Every section is allowed and keeps `J`, and the value returned
satisfies `Q`. -/
def Abides (J : σ → Prop) (L : ℓ → Prop) (Q : α → Prop) :
    Proc ℓ σ α → Prop
  | ret a => Q a
  | sec l upd next => L l ∧ ∀ s, J s → J (upd s) ∧ Abides J L Q (next s)

theorem Abides.bind {Q : α → Prop} {Q' : β → Prop} {p : Proc ℓ σ α}
    {f : α → Proc ℓ σ β} (hp : Abides J L Q p)
    (hf : ∀ a, Q a → Abides J L Q' (f a)) : Abides J L Q' (p >>= f) := by
  induction p with
  | ret a => exact hf a hp
  | sec l upd next ih =>
      refine ⟨hp.1, fun s hs => ?_⟩
      obtain ⟨hJ, hrest⟩ := hp.2 s hs
      exact ⟨hJ, ih s hrest⟩

/-- Sequencing when nothing is known of the value. -/
theorem Abides.then {Q : β → Prop} {p : Proc ℓ σ α} {f : α → Proc ℓ σ β}
    (hp : Abides J L (fun _ => True) p) (hf : ∀ a, Abides J L Q (f a)) :
    Abides J L Q (p >>= f) :=
  hp.bind fun a _ => hf a

theorem abides_read {Q : α → Prop} {l : ℓ} {f : σ → α} (hl : L l)
    (h : ∀ s, J s → Q (f s)) : Abides J L Q (read l f) :=
  ⟨hl, fun s hs => ⟨hs, h s hs⟩⟩

theorem abides_write {l : ℓ} {upd : σ → σ} (hl : L l)
    (h : ∀ s, J s → J (upd s)) :
    Abides J L (fun _ => True) (write l upd) :=
  ⟨hl, fun s hs => ⟨h s hs, trivial⟩⟩

theorem abides_atom {Q : α → Prop} {l : ℓ} {f : σ → α × σ} (hl : L l)
    (h : ∀ s, J s → J (f s).2 ∧ Q (f s).1) : Abides J L Q (atom l f) :=
  ⟨hl, fun s hs => h s hs⟩

/-- Sections that keep the invariant and are allowed wherever they are
found. -/
theorem Abides.of_sections [Nonempty σ] {G : ℓ → σ → σ → Prop}
    {p : Proc ℓ σ α} (hp : Sections G p)
    (hG : ∀ l s s', G l s s' → L l ∧ (J s → J s')) :
    Abides J L (fun _ => True) p := by
  induction p with
  | ret a => trivial
  | sec l upd next ih =>
      -- that it is allowed does not depend on the state
      obtain ⟨s₀⟩ := ‹Nonempty σ›
      refine ⟨(hG l s₀ _ (hp s₀).1).1, fun s hs => ?_⟩
      exact ⟨(hG l s _ (hp s).1).2 hs, ih s (hp s).2⟩

/-- Over a part that the invariant says nothing about, every program
abides. -/
theorem abides_zoom {part : Part τ σ} {tag : ℓ → ℓ'} {J' : τ → Prop}
    {L' : ℓ' → Prop} (hL : ∀ l, L' (tag l))
    (hset : ∀ t s, J' t → J' (part.set t s)) (p : Proc ℓ σ α) :
    Abides J' L' (fun _ => True) (Proc.zoom part tag p) := by
  induction p with
  | ret a => trivial
  | sec l upd next ih =>
      exact ⟨hL l, fun t ht => ⟨hset t _ ht, ih _⟩⟩

theorem Abides.ok {Q : α → Prop} {p : Proc ℓ σ α} (hp : Abides J L Q p)
    {C : ℓ → σ → Prop} (tr : List (Step ℓ σ)) :
    Ok (fun tr s => J s ∧ ∀ x ∈ tr, L x.1) C (fun _ _ => True) tr p := by
  induction p generalizing tr with
  | ret a => trivial
  | sec l upd next ih =>
      intro tr' s _ hs _
      obtain ⟨hJ, hrest⟩ := hp.2 s hs.1
      refine ⟨⟨hJ, fun x hx => ?_⟩, ih s hrest _⟩
      rcases List.mem_append.1 hx with hx | hx
      · exact hs.2 x hx
      · obtain rfl := List.mem_singleton.1 hx
        exact hp.1

/-- Wherever such a pool gets, the invariant holds and what was executed
was allowed. -/
theorem Reach.abides {H : Proc ℓ σ Unit → Prop} {C : ℓ → σ → Prop}
    {s₀ s : σ} {ps : List (Proc ℓ σ Unit)} {tr : List (Step ℓ σ)}
    (h : Reach H C s₀ s ps tr) (hinit : J s₀)
    (hH : ∀ p, H p → Abides J L (fun _ => True) p) :
    J s ∧ ∀ x ∈ tr, L x.1 :=
  (h.invariant (I := fun tr s => J s ∧ ∀ x ∈ tr, L x.1)
    ⟨hinit, fun _ hx => absurd hx List.not_mem_nil⟩
    fun p hp => (hH p hp).ok []).1

end Proc

end StaticNet
