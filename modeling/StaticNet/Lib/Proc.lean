/-
Programs over shared state as sequences of atomic sections.

A `Proc` is a resumption: it has returned, or it is about to execute one
labelled section (a state update) and continue with a program that may
depend on the state the section saw. An `async` handler that takes one
lock at a time is such a program: each stretch between acquiring and
dropping a lock is a section, and everything another task does to the
state happens between two sections.

# Two readings of one program

- Run alone (`post`, `out`, `acts`): every section back to back. This is
  the reading for "each handler is one step".
- Interleaved (`Reach`): a pool of programs over one state, any of them
  executing its next section at any time, new ones spawned at any time.
  This is the reading for "each critical section is one step".

Both are derived from the same definition, so a handler is written once.

# The invariant rule

`Ok` is the proof obligation of one program inside a pool: from any
state the invariant allows, and any history that extends the one it has
seen, its next section keeps the invariant, and so does what follows.
The state a section finds is arbitrary, not the one its predecessor
left, which is what makes the obligation sound for a pool
(`Reach.invariant`). `Sections` is the simpler obligation of a program
whose every section is harmless by itself; it implies `Ok` for every
invariant its guarantee keeps. Labels carry what a section does; the history is
the list of labels with the states they were executed in, and a side
condition on labels (`C`) restricts which runs are considered.
-/
import Mathlib.Data.List.Basic

namespace StaticNet

-- ====== the programs

/-- A program over state `σ` with sections labelled in `ℓ`: `next` reads
the state its section found, before the update. -/
inductive Proc (ℓ σ α : Type) : Type
  | ret (a : α)
  | sec (l : ℓ) (upd : σ → σ) (next : σ → Proc ℓ σ α)

namespace Proc

variable {ℓ σ α β : Type}

/-- Sequencing. -/
def seq : Proc ℓ σ α → (α → Proc ℓ σ β) → Proc ℓ σ β
  | ret a, f => f a
  | sec l upd next, f => sec l upd fun s => seq (next s) f

instance : Monad (Proc ℓ σ) where
  pure := ret
  bind := seq

theorem bind_assoc {γ : Type} (p : Proc ℓ σ α) (f : α → Proc ℓ σ β)
    (g : β → Proc ℓ σ γ) :
    p >>= f >>= g = p >>= fun a => f a >>= g := by
  induction p with
  | ret a => rfl
  | sec l upd next ih => exact congrArg (sec l upd) (funext ih)

/-- A section that only reads. -/
def read (l : ℓ) (f : σ → α) : Proc ℓ σ α := sec l id fun s => ret (f s)

/-- A section that only writes. -/
def write (l : ℓ) (upd : σ → σ) : Proc ℓ σ Unit :=
  sec l upd fun _ => ret ()

/-- A section that writes and returns what it computed. -/
def atom (l : ℓ) (f : σ → α × σ) : Proc ℓ σ α :=
  sec l (fun s => (f s).2) fun s => ret (f s).1

-- ===== run by itself

/-- The value a program returns when nothing interferes. -/
def out : Proc ℓ σ α → σ → α
  | ret a, _ => a
  | sec _ upd next, s => out (next s) (upd s)

/-- The state a program leaves when nothing interferes. -/
def post : Proc ℓ σ α → σ → σ
  | ret _, s => s
  | sec _ upd next, s => post (next s) (upd s)

/-- The labels a program executes when nothing interferes. -/
def acts : Proc ℓ σ α → σ → List ℓ
  | ret _, _ => []
  | sec l upd next, s => l :: acts (next s) (upd s)

@[simp] theorem out_pure (a : α) (s : σ) :
    (pure a : Proc ℓ σ α).out s = a := rfl

@[simp] theorem post_pure (a : α) (s : σ) :
    (pure a : Proc ℓ σ α).post s = s := rfl

@[simp] theorem acts_pure (a : α) (s : σ) :
    (pure a : Proc ℓ σ α).acts s = [] := rfl

@[simp] theorem out_bind (p : Proc ℓ σ α) (f : α → Proc ℓ σ β) (s : σ) :
    (p >>= f).out s = (f (p.out s)).out (p.post s) := by
  induction p generalizing s with
  | ret a => rfl
  | sec l upd next ih => exact ih s (upd s)

@[simp] theorem post_bind (p : Proc ℓ σ α) (f : α → Proc ℓ σ β) (s : σ) :
    (p >>= f).post s = (f (p.out s)).post (p.post s) := by
  induction p generalizing s with
  | ret a => rfl
  | sec l upd next ih => exact ih s (upd s)

@[simp] theorem acts_bind (p : Proc ℓ σ α) (f : α → Proc ℓ σ β) (s : σ) :
    (p >>= f).acts s
      = p.acts s ++ (f (p.out s)).acts (p.post s) := by
  induction p generalizing s with
  | ret a => rfl
  | sec l upd next ih =>
      show l :: ((next s) >>= f).acts (upd s) = _
      rw [ih s (upd s)]
      rfl

@[simp] theorem out_read (l : ℓ) (f : σ → α) (s : σ) :
    (read l f).out s = f s := rfl

@[simp] theorem post_read (l : ℓ) (f : σ → α) (s : σ) :
    (read l f).post s = s := rfl

@[simp] theorem acts_read (l : ℓ) (f : σ → α) (s : σ) :
    (read l f).acts s = [l] := rfl

@[simp] theorem post_write (l : ℓ) (upd : σ → σ) (s : σ) :
    (write l upd).post s = upd s := rfl

@[simp] theorem acts_write (l : ℓ) (upd : σ → σ) (s : σ) :
    (write l upd).acts s = [l] := rfl

@[simp] theorem out_atom (l : ℓ) (f : σ → α × σ) (s : σ) :
    (atom l f).out s = (f s).1 := rfl

@[simp] theorem post_atom (l : ℓ) (f : σ → α × σ) (s : σ) :
    (atom l f).post s = (f s).2 := rfl

@[simp] theorem acts_atom (l : ℓ) (f : σ → α × σ) (s : σ) :
    (atom l f).acts s = [l] := rfl

/-- Every section a program executes when nothing interferes is a step
`G` allows. -/
def Alone (G : ℓ → σ → σ → Prop) : Proc ℓ σ α → σ → Prop
  | ret _, _ => True
  | sec l upd next, s => G l s (upd s) ∧ Alone G (next s) (upd s)

section Alone

variable {G : ℓ → σ → σ → Prop}

@[simp] theorem alone_pure (a : α) (s : σ) :
    (pure a : Proc ℓ σ α).Alone G s := trivial

@[simp] theorem alone_bind {p : Proc ℓ σ α} {f : α → Proc ℓ σ β} {s : σ} :
    (p >>= f).Alone G s
      ↔ p.Alone G s ∧ (f (p.out s)).Alone G (p.post s) := by
  induction p generalizing s with
  | ret a => exact ⟨fun h => ⟨trivial, h⟩, fun h => h.2⟩
  | sec l upd next ih =>
      show G l s (upd s) ∧ ((next s) >>= f).Alone G (upd s) ↔ _
      rw [ih s, ← and_assoc]
      exact Iff.rfl

@[simp] theorem alone_read {l : ℓ} {f : σ → α} {s : σ} :
    (read l f).Alone G s ↔ G l s s :=
  and_iff_left trivial

@[simp] theorem alone_write {l : ℓ} {upd : σ → σ} {s : σ} :
    (write l upd).Alone G s ↔ G l s (upd s) :=
  and_iff_left trivial

@[simp] theorem alone_atom {l : ℓ} {f : σ → α × σ} {s : σ} :
    (atom l f).Alone G s ↔ G l s (f s).2 :=
  and_iff_left trivial

theorem Alone.imp {G' : ℓ → σ → σ → Prop} {p : Proc ℓ σ α} {s : σ}
    (h : p.Alone G s) (hG : ∀ l s s', G l s s' → G' l s s') :
    p.Alone G' s := by
  induction p generalizing s with
  | ret a => trivial
  | sec l upd next ih => exact ⟨hG l s (upd s) h.1, ih s h.2⟩

/-- Every program takes some steps. -/
theorem alone_trivial (p : Proc ℓ σ α) (s : σ) :
    p.Alone (fun _ _ _ => True) s := by
  induction p generalizing s with
  | ret a => trivial
  | sec l upd next ih => exact ⟨trivial, ih s (upd s)⟩

end Alone

-- ==== what it returns

/-- One executed section: its label and the state it found. -/
abbrev Step (ℓ σ : Type) := ℓ × σ

/-- A program ends with this value after these sections, whatever the
other programs do to the state between them. -/
inductive Ends : Proc ℓ σ α → List (Step ℓ σ) → α → Prop
  | ret (a : α) : Ends (ret a) [] a
  | sec {l : ℓ} {upd : σ → σ} {next : σ → Proc ℓ σ α} {a : α}
      {tr : List (Step ℓ σ)} (s : σ) :
      Ends (next s) tr a → Ends (sec l upd next) ((l, s) :: tr) a

theorem ends_pure {a b : α} {tr : List (Step ℓ σ)}
    (h : Ends (pure a : Proc ℓ σ α) tr b) : b = a := by
  cases h
  rfl

/-- A sequence ends with its second part, after its first has ended with
some value. -/
theorem ends_bind {p : Proc ℓ σ α} {f : α → Proc ℓ σ β} {b : β}
    {tr : List (Step ℓ σ)} (h : Ends (p >>= f) tr b) :
    ∃ a tr₁ tr₂, tr = tr₁ ++ tr₂ ∧ Ends p tr₁ a ∧ Ends (f a) tr₂ b := by
  induction p generalizing tr with
  | ret a => exact ⟨a, [], tr, rfl, .ret a, h⟩
  | sec l upd next ih =>
      cases h with
      | sec s hnext =>
          obtain ⟨a, tr₁, tr₂, rfl, ha, hb⟩ := ih s hnext
          exact ⟨a, (l, s) :: tr₁, tr₂, rfl, .sec s ha, hb⟩

theorem ends_read {l : ℓ} {f : σ → α} {a : α} {tr : List (Step ℓ σ)}
    (h : Ends (read l f) tr a) : ∃ s, tr = [(l, s)] ∧ a = f s := by
  cases h with
  | sec s hnext =>
      cases hnext
      exact ⟨s, rfl, rfl⟩

theorem ends_write {l : ℓ} {upd : σ → σ} {a : Unit} {tr : List (Step ℓ σ)}
    (h : Ends (write l upd) tr a) : ∃ s, tr = [(l, s)] := by
  cases h with
  | sec s hnext =>
      cases hnext
      exact ⟨s, rfl⟩

theorem ends_atom {l : ℓ} {f : σ → α × σ} {a : α} {tr : List (Step ℓ σ)}
    (h : Ends (atom l f) tr a) : ∃ s, tr = [(l, s)] ∧ a = (f s).1 := by
  cases h with
  | sec s hnext =>
      cases hnext
      exact ⟨s, rfl, rfl⟩

/-- Run alone, a program ends. -/
theorem ends_out (p : Proc ℓ σ α) (s : σ) :
    ∃ tr, Ends p tr (p.out s) := by
  induction p generalizing s with
  | ret a => exact ⟨[], .ret a⟩
  | sec l upd next ih =>
      obtain ⟨tr, htr⟩ := ih s (upd s)
      exact ⟨_, .sec s htr⟩

-- ======= interleaved

/-- The configurations a pool of programs reaches from `s₀`: the state,
the programs still running, and the sections executed so far. Programs
satisfying `H` are spawned at any time; a section executes only where
`C` allows it. -/
inductive Reach (H : Proc ℓ σ Unit → Prop) (C : ℓ → σ → Prop) (s₀ : σ) :
    σ → List (Proc ℓ σ Unit) → List (Step ℓ σ) → Prop
  | init : Reach H C s₀ s₀ [] []
  | spawn {s ps tr} (p : Proc ℓ σ Unit) : H p →
      Reach H C s₀ s ps tr → Reach H C s₀ s (p :: ps) tr
  | exec {s tr} (ps₁ ps₂ : List (Proc ℓ σ Unit)) (l : ℓ) (upd : σ → σ)
      (next : σ → Proc ℓ σ Unit) :
      Reach H C s₀ s (ps₁ ++ sec l upd next :: ps₂) tr → C l s →
      Reach H C s₀ (upd s) (ps₁ ++ next s :: ps₂) (tr ++ [(l, s)])

/-- The state in which a history goes on: the one its first section
found, or `s` when it is empty. -/
def found (s : σ) : List (Step ℓ σ) → σ
  | [] => s
  | (_, s₁) :: _ => s₁

/-- The transitions of a run that ends in `s`: each section with the
state it found and the state it left. -/
def transitions (s : σ) : List (Step ℓ σ) → List (ℓ × σ × σ)
  | [] => []
  | (l, s₁) :: rest => (l, s₁, found s rest) :: transitions s rest

theorem found_append (tr : List (Step ℓ σ)) (l : ℓ) (s s' : σ) :
    found s' (tr ++ [(l, s)]) = found s tr := by
  cases tr with
  | nil => rfl
  | cons step rest => rfl

/-- One more section is one more transition at the end. -/
theorem transitions_append (tr : List (Step ℓ σ)) (l : ℓ) (s s' : σ) :
    transitions s' (tr ++ [(l, s)]) = transitions s tr ++ [(l, s, s')] := by
  induction tr with
  | nil => rfl
  | cons step rest ih =>
      show (step.1, step.2, found s' (rest ++ [(l, s)]))
        :: transitions s' (rest ++ [(l, s)]) = _
      rw [found_append, ih]
      rfl

/-- Where an element of a run with one more at its end stands: at the
end, or in the run before it. -/
theorem cut_append {τ : Type} {ts pre post : List τ} {x t : τ}
    (h : ts ++ [x] = pre ++ t :: post) :
    (ts = pre ∧ x = t ∧ post = [])
      ∨ ∃ post', ts = pre ++ t :: post' ∧ post = post' ++ [x] := by
  rcases List.eq_nil_or_concat post with rfl | ⟨post', y, rfl⟩
  · left
    obtain ⟨hts, hx⟩ := List.append_inj' h rfl
    exact ⟨hts, (List.cons.inj hx).1, rfl⟩
  · right
    rw [List.concat_eq_append, ← List.cons_append,
      ← List.append_assoc] at h
    obtain ⟨hts, hx⟩ := List.append_inj' h rfl
    obtain rfl := (List.cons.inj hx).1
    exact ⟨post', hts, List.concat_eq_append⟩

/-- `Q` holds at every point of a run: of each transition, together with
the run up to and including it. -/
def Along {τ : Type} (Q : List τ → τ → Prop) (ts : List τ) : Prop :=
  ∀ pre t post, ts = pre ++ t :: post → Q (pre ++ [t]) t

theorem along_nil {τ : Type} (Q : List τ → τ → Prop) : Along Q [] := by
  intro pre t post h
  exact absurd (congrArg List.length h) (by simp)

/-- The points of a run with one more transition. -/
theorem along_append {τ : Type} {Q : List τ → τ → Prop} {ts : List τ}
    {t : τ} : Along Q (ts ++ [t]) ↔ Along Q ts ∧ Q (ts ++ [t]) t := by
  constructor
  · intro h
    refine ⟨?_, h ts t [] rfl⟩
    intro pre t' post heq
    apply h pre t' (post ++ [t])
    rw [heq, List.append_assoc, List.cons_append]
  · rintro ⟨h, hlast⟩ pre t' post heq
    rcases cut_append heq with ⟨rfl, rfl, -⟩ | ⟨post', hts, -⟩
    · exact hlast
    · exact h pre t' post' hts

/-- The proof obligation of one program in a pool: whatever the history
has become and whatever state the invariant allows, the next section
keeps the invariant and the rest of the program stays in order. -/
def Ok (I : List (Step ℓ σ) → σ → Prop) (C : ℓ → σ → Prop)
    (Q : List (Step ℓ σ) → α → Prop) :
    List (Step ℓ σ) → Proc ℓ σ α → Prop
  | tr, ret a => Q tr a
  | tr, sec l upd next => ∀ tr' s, tr <+: tr' → I tr' s → C l s →
      I (tr' ++ [(l, s)]) (upd s) ∧
        Ok I C Q (tr' ++ [(l, s)]) (next s)

variable {I : List (Step ℓ σ) → σ → Prop} {C : ℓ → σ → Prop}

/-- Obligations compose: the continuation inherits what the first part
established about the history and its value. -/
theorem Ok.bind {Q : List (Step ℓ σ) → β → Prop} {p : Proc ℓ σ α}
    {f : α → Proc ℓ σ β} {tr : List (Step ℓ σ)}
    (h : Ok I C (fun tr' a => Ok I C Q tr' (f a)) tr p) :
    Ok I C Q tr (p >>= f) := by
  induction p generalizing tr with
  | ret a => exact h
  | sec l upd next ih =>
      intro tr' s hpre hI hC
      obtain ⟨hI', hrest⟩ := h tr' s hpre hI hC
      exact ⟨hI', ih s hrest⟩

/-- A postcondition may be weakened. -/
theorem Ok.mono {Q Q' : List (Step ℓ σ) → α → Prop} {p : Proc ℓ σ α}
    {tr : List (Step ℓ σ)} (h : Ok I C Q tr p)
    (hQ : ∀ tr' a, Q tr' a → Q' tr' a) : Ok I C Q' tr p := by
  induction p generalizing tr with
  | ret a => exact hQ tr a h
  | sec l upd next ih =>
      intro tr' s hpre hI hC
      obtain ⟨hI', hrest⟩ := h tr' s hpre hI hC
      exact ⟨hI', ih s hrest⟩

/-- Sequencing when nothing is remembered of the first part. -/
theorem Ok.then {p : Proc ℓ σ α} {f : α → Proc ℓ σ β}
    {tr : List (Step ℓ σ)} (h : Ok I C (fun _ _ => True) tr p)
    (hf : ∀ tr' a, Ok I C (fun _ _ => True) tr' (f a)) :
    Ok I C (fun _ _ => True) tr (p >>= f) :=
  (h.mono fun tr' a _ => hf tr' a).bind

/-- A longer history discharges the obligation a shorter one does, as
long as the program has not returned. -/
theorem Ok.extend {tr tr' : List (Step ℓ σ)} {p : Proc ℓ σ α}
    (h : Ok I C (fun _ _ => True) tr p) (hpre : tr <+: tr') :
    Ok I C (fun _ _ => True) tr' p := by
  cases p with
  | ret a => trivial
  | sec l upd next =>
      intro tr'' s hpre' hI hC
      exact h tr'' s (hpre.trans hpre') hI hC

/-- Every section of a program, whatever state it finds, is a step the
guarantee `G` allows. -/
def Sections (G : ℓ → σ → σ → Prop) : Proc ℓ σ α → Prop
  | ret _ => True
  | sec l upd next => ∀ s, G l s (upd s) ∧ Sections G (next s)

theorem Sections.bind {G : ℓ → σ → σ → Prop} {p : Proc ℓ σ α}
    {f : α → Proc ℓ σ β} (hp : Sections G p)
    (hf : ∀ a, Sections G (f a)) : Sections G (p >>= f) := by
  induction p with
  | ret a => exact hf a
  | sec l upd next ih =>
      intro s
      obtain ⟨hG, hrest⟩ := hp s
      exact ⟨hG, ih s hrest⟩

/-- Run alone, such a program executes guaranteed steps only. -/
theorem Sections.of_mem_acts {G : ℓ → σ → σ → Prop} {p : Proc ℓ σ α}
    (hp : Sections G p) {s : σ} {l : ℓ} (hl : l ∈ p.acts s) :
    ∃ s₁ s₂, G l s₁ s₂ := by
  induction p generalizing s with
  | ret a => cases hl
  | sec l' upd next ih =>
      obtain ⟨hG, hrest⟩ := hp s
      rcases List.mem_cons.1 hl with rfl | hl
      · exact ⟨_, _, hG⟩
      · exact ih s hrest hl

/-- Run alone, such a program relates the states before and after by
every preorder that contains the guarantee. -/
theorem Sections.post_rel {G : ℓ → σ → σ → Prop} {p : Proc ℓ σ α}
    {R : σ → σ → Prop} (hp : Sections G p) (hrefl : ∀ s, R s s)
    (htrans : ∀ s₁ s₂ s₃, R s₁ s₂ → R s₂ s₃ → R s₁ s₃)
    (hG : ∀ l s s', G l s s' → R s s') (s : σ) : R s (p.post s) := by
  induction p generalizing s with
  | ret a => exact hrefl s
  | sec l upd next ih =>
      obtain ⟨h, hrest⟩ := hp s
      exact htrans _ _ _ (hG l s (upd s) h) (ih s hrest (upd s))

/-- Run alone, such a program keeps every component the guarantee
keeps. -/
theorem Sections.post_eq {γ : Type} {G : ℓ → σ → σ → Prop}
    {p : Proc ℓ σ α} (hp : Sections G p) (f : σ → γ)
    (hf : ∀ l s s', G l s s' → f s' = f s) (s : σ) :
    f (p.post s) = f s := by
  induction p generalizing s with
  | ret a => rfl
  | sec l upd next ih =>
      obtain ⟨hG, hrest⟩ := hp s
      exact (ih s hrest (upd s)).trans (hf l s (upd s) hG)

theorem Sections.mono {G G' : ℓ → σ → σ → Prop} {p : Proc ℓ σ α}
    (hp : Sections G p) (hG : ∀ l s s', G l s s' → G' l s s') :
    Sections G' p := by
  induction p with
  | ret a => trivial
  | sec l upd next ih =>
      intro s
      obtain ⟨h, hrest⟩ := hp s
      exact ⟨hG l s (upd s) h, ih s hrest⟩

/-- A program whose sections are all guaranteed steps discharges the
obligation of every invariant the guarantee keeps. -/
theorem Ok.of_sections {G : ℓ → σ → σ → Prop} {p : Proc ℓ σ α}
    (hI : ∀ tr l s s', I tr s → C l s → G l s s' →
      I (tr ++ [(l, s)]) s')
    (hp : Sections G p) (tr : List (Step ℓ σ)) :
    Ok I C (fun _ _ => True) tr p := by
  induction p generalizing tr with
  | ret a => trivial
  | sec l upd next ih =>
      intro tr' s _ hs hC
      obtain ⟨hG, hrest⟩ := hp s
      exact ⟨hI tr' l s (upd s) hs hC hG, ih s hrest _⟩

/-- What such a program returns, it returns at the end of one of its
runs, and the sections of that run are in the history. -/
theorem Ok.ends {G : ℓ → σ → σ → Prop} {p : Proc ℓ σ α}
    (hI : ∀ tr l s s', I tr s → C l s → G l s s' →
      I (tr ++ [(l, s)]) s')
    (hp : Sections G p) (tr : List (Step ℓ σ)) :
    Ok I C (fun tr' a => tr <+: tr' ∧ ∃ own, Ends p own a ∧ own ⊆ tr')
      tr p := by
  induction p generalizing tr with
  | ret a =>
      exact ⟨List.prefix_refl tr, [], .ret a, List.nil_subset _⟩
  | sec l upd next ih =>
      intro tr' s hpre hs hC
      obtain ⟨hG, hrest⟩ := hp s
      refine ⟨hI tr' l s (upd s) hs hC hG, ?_⟩
      refine (ih s hrest (tr' ++ [(l, s)])).mono ?_
      rintro tr'' a ⟨hlater, own, hown, hsub⟩
      have hhere : (l, s) ∈ tr'' := hlater.subset (by simp)
      exact ⟨hpre.trans ((List.prefix_append _ _).trans hlater),
        (l, s) :: own, .sec s hown, List.cons_subset.2 ⟨hhere, hsub⟩⟩

/-- A pool of fewer programs, under a stricter condition, reaches
less. -/
theorem Reach.mono {H H' : Proc ℓ σ Unit → Prop} {C' : ℓ → σ → Prop}
    {s₀ s : σ} {ps : List (Proc ℓ σ Unit)} {tr : List (Step ℓ σ)}
    (h : Reach H C s₀ s ps tr) (hH : ∀ p, H p → H' p)
    (hC : ∀ l s, C l s → C' l s) : Reach H' C' s₀ s ps tr := by
  induction h with
  | init => exact .init
  | spawn p hp _ ih => exact .spawn p (hH p hp) ih
  | exec ps₁ ps₂ l upd next _ hstep ih =>
      exact .exec ps₁ ps₂ l upd next ih (hC l _ hstep)

/-- The invariant rule: an invariant that holds initially and that every
spawned program keeps, section by section, holds in every configuration
the pool reaches. -/
theorem Reach.invariant {H : Proc ℓ σ Unit → Prop} {s₀ s : σ}
    {ps : List (Proc ℓ σ Unit)} {tr : List (Step ℓ σ)}
    (h : Reach H C s₀ s ps tr) (hinit : I [] s₀)
    (hH : ∀ p, H p → Ok I C (fun _ _ => True) [] p) :
    I tr s ∧ ∀ p ∈ ps, Ok I C (fun _ _ => True) tr p := by
  induction h with
  | init => exact ⟨hinit, by simp⟩
  | spawn p hp _ ih =>
      refine ⟨ih.1, ?_⟩
      intro q hq
      rcases List.mem_cons.1 hq with rfl | hq
      · exact (hH q hp).extend (List.nil_prefix)
      · exact ih.2 q hq
  | @exec s tr ps₁ ps₂ l upd next _ hC ih =>
      obtain ⟨hI, hps⟩ := ih
      have hmem : sec l upd next ∈ ps₁ ++ sec l upd next :: ps₂ := by simp
      obtain ⟨hI', hnext⟩ :=
        hps _ hmem tr s (List.prefix_refl tr) hI hC
      refine ⟨hI', ?_⟩
      intro q hq
      have hext : tr <+: tr ++ [(l, s)] := List.prefix_append tr _
      rcases List.mem_append.1 hq with hq | hq
      · exact (hps q (by simp [hq])).extend hext
      · rcases List.mem_cons.1 hq with rfl | hq
        · exact hnext
        · exact (hps q (by simp [hq])).extend hext

/-- Programs whose sections are all guaranteed steps make no other
transition, whatever the interleaving. -/
theorem Reach.guaranteed {H : Proc ℓ σ Unit → Prop} {s₀ s : σ}
    {ps : List (Proc ℓ σ Unit)} {tr : List (Step ℓ σ)}
    {G : ℓ → σ → σ → Prop} (h : Reach H C s₀ s ps tr)
    (hH : ∀ p, H p → Sections G p) :
    ∀ t ∈ transitions s tr, G t.1 t.2.1 t.2.2 := by
  have hinv := h.invariant
    (I := fun tr s => ∀ t ∈ transitions s tr, G t.1 t.2.1 t.2.2)
    (by intro t ht; cases ht)
    (fun p hp => Ok.of_sections (G := G)
      (by
        intro tr l s s' hI _ hG t ht
        rw [transitions_append, List.mem_append,
          List.mem_singleton] at ht
        rcases ht with ht | rfl
        · exact hI t ht
        · exact hG)
      (hH p hp) [])
  exact hinv.1

/-- When a guaranteed step keeps a property exactly if it meets a
condition, every state of a run has the property exactly if every section
of the run meets the condition. -/
theorem Reach.always_iff {H : Proc ℓ σ Unit → Prop} {s₀ s : σ}
    {ps : List (Proc ℓ σ Unit)} {tr : List (Step ℓ σ)}
    {G K : ℓ → σ → σ → Prop} {J : σ → Prop} (h : Reach H C s₀ s ps tr)
    (hH : ∀ p, H p → Sections G p)
    (hstep : ∀ l s s', G l s s' → J s → (J s' ↔ K l s s')) (h₀ : J s₀) :
    (∀ t ∈ transitions s tr, J t.2.2)
      ↔ ∀ t ∈ transitions s tr, K t.1 t.2.1 t.2.2 := by
  have hlast : ∀ {Q : ℓ × σ × σ → Prop} {ts : List (ℓ × σ × σ)}
      {t : ℓ × σ × σ}, (∀ t' ∈ ts ++ [t], Q t')
        ↔ (∀ t' ∈ ts, Q t') ∧ Q t := by
    intro Q ts t
    rw [List.forall_mem_append, List.forall_mem_singleton]
  have hinv := h.invariant
    (I := fun tr s => ((∀ t ∈ transitions s tr, J t.2.2)
        ↔ ∀ t ∈ transitions s tr, K t.1 t.2.1 t.2.2)
      ∧ ((∀ t ∈ transitions s tr, J t.2.2) → J s))
    ⟨iff_of_true (by intro t ht; cases ht) (by intro t ht; cases ht),
      fun _ => h₀⟩
    (fun p hp => Ok.of_sections (G := G)
      (by
        rintro tr l s s' ⟨hiff, hhere⟩ - hG
        rw [transitions_append, hlast, hlast]
        refine ⟨?_, fun hall => hall.2⟩
        rw [← hiff]
        exact and_congr_right fun hall => hstep l s s' hG (hhere hall))
      (hH p hp) [])
  exact hinv.1.1

/-- A running program none of whose sections is forbidden can be run to
its end before anything else happens. -/
theorem Reach.drain_of {H : Proc ℓ σ Unit → Prop} {s₀ : σ}
    (p : Proc ℓ σ Unit) (s : σ) (hC : ∀ l ∈ p.acts s, ∀ s', C l s')
    (ps₁ ps₂ : List (Proc ℓ σ Unit)) (tr : List (Step ℓ σ))
    (h : Reach H C s₀ s (ps₁ ++ p :: ps₂) tr) :
    ∃ tr', Reach H C s₀ (p.post s) (ps₁ ++ pure () :: ps₂) (tr ++ tr')
      ∧ tr'.map Prod.fst = p.acts s := by
  induction p generalizing s tr with
  | ret a =>
      rw [← List.append_nil tr] at h
      exact ⟨[], h, rfl⟩
  | sec l upd next ih =>
      have hstep := Reach.exec ps₁ ps₂ l upd next h
        (hC l List.mem_cons_self s)
      obtain ⟨tr', hreach, hacts⟩ := ih s (upd s)
        (fun l' hl' => hC l' (List.mem_cons_of_mem _ hl')) _ hstep
      refine ⟨(l, s) :: tr', ?_, ?_⟩
      · rw [List.append_assoc] at hreach
        exact hreach
      · rw [List.map_cons, hacts]
        rfl

/-- Where nothing is forbidden the first part of a program can be run
before anything else happens. -/
theorem Reach.drain_part {H : Proc ℓ σ Unit → Prop} {s₀ : σ}
    (hC : ∀ l s, C l s) (p : Proc ℓ σ α) (f : α → Proc ℓ σ Unit) (s : σ)
    (ps₁ ps₂ : List (Proc ℓ σ Unit)) (tr : List (Step ℓ σ))
    (h : Reach H C s₀ s (ps₁ ++ (p >>= f) :: ps₂) tr) :
    ∃ tr', Reach H C s₀ (p.post s) (ps₁ ++ f (p.out s) :: ps₂)
        (tr ++ tr')
      ∧ tr'.map Prod.fst = p.acts s := by
  induction p generalizing s tr with
  | ret a =>
      rw [← List.append_nil tr] at h
      exact ⟨[], h, rfl⟩
  | sec l upd next ih =>
      have hstep := Reach.exec ps₁ ps₂ l upd (fun s => next s >>= f) h
        (hC l s)
      obtain ⟨tr', hreach, hacts⟩ := ih s (upd s) _ hstep
      rw [List.append_assoc] at hreach
      refine ⟨_, hreach, ?_⟩
      rw [List.singleton_append, List.map_cons, hacts]
      rfl

/-- Where nothing is forbidden that is so for every program. -/
theorem Reach.drain {H : Proc ℓ σ Unit → Prop} {s₀ : σ}
    (hC : ∀ l s, C l s) (p : Proc ℓ σ Unit) (s : σ)
    (ps₁ ps₂ : List (Proc ℓ σ Unit)) (tr : List (Step ℓ σ))
    (h : Reach H C s₀ s (ps₁ ++ p :: ps₂) tr) :
    ∃ tr', Reach H C s₀ (p.post s) (ps₁ ++ pure () :: ps₂) (tr ++ tr')
      ∧ tr'.map Prod.fst = p.acts s :=
  Reach.drain_of p s (fun l _ => hC l) ps₁ ps₂ tr h

/-- Running a program at once is one of the interleavings. -/
theorem Reach.sequential {H : Proc ℓ σ Unit → Prop} {s₀ : σ}
    (hC : ∀ l s, C l s) {p : Proc ℓ σ Unit} (hp : H p) {s : σ}
    {ps : List (Proc ℓ σ Unit)} {tr : List (Step ℓ σ)}
    (h : Reach H C s₀ s ps tr) :
    ∃ tr', Reach H C s₀ (p.post s) (pure () :: ps) (tr ++ tr')
      ∧ tr'.map Prod.fst = p.acts s :=
  Reach.drain hC p s [] ps tr (Reach.spawn p hp h)

/-- Run at once where `C` allows each of its sections, a program adds
steps of `G` to the run and no others. -/
theorem Reach.sequential_alone {H : Proc ℓ σ Unit → Prop} {s₀ : σ}
    {G : ℓ → σ → σ → Prop} {p : Proc ℓ σ Unit} (hp : H p) {s : σ}
    {ps : List (Proc ℓ σ Unit)} {tr : List (Step ℓ σ)}
    (h : Reach H C s₀ s ps tr)
    (halone : p.Alone (fun l s s' => C l s ∧ G l s s') s)
    (hG : ∀ t ∈ transitions s tr, G t.1 t.2.1 t.2.2) :
    ∃ tr', Reach H C s₀ (p.post s) (pure () :: ps) tr'
      ∧ ∀ t ∈ transitions (p.post s) tr', G t.1 t.2.1 t.2.2 := by
  have hspawn := Reach.spawn p hp h
  clear h hp
  induction p generalizing s tr with
  | ret a => exact ⟨tr, hspawn, hG⟩
  | sec l upd next ih =>
      obtain ⟨⟨hC, hfirst⟩, hrest⟩ := halone
      refine ih s hrest ?_ (Reach.exec [] ps l upd next hspawn hC)
      intro t ht
      rw [transitions_append, List.mem_append, List.mem_singleton] at ht
      rcases ht with ht | rfl
      · exact hG t ht
      · exact hfirst

end Proc

end StaticNet
