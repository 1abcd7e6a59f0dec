/-
Symbolic messages, and what an attacker who owns the network can make of
those it has seen.

# The algebra

A message is a term. Diffie-Hellman points are multisets of exponents
over one base, so that exponents commute; a key encapsulation, a sealed
message and a signature are free constructors, so that only the listed
rules take them apart. Operations that a node applies to a term of the
wrong shape (`dh`, `decapsulate`) return the term: whoever has it has the
result.

# Signatures behind keys

A signature can be copied by whoever reads it. `Public who log` is what
the attacker may hold while it has read no signature of `who`: every
occurrence of one is inside a message of `log`, sealed under a key that
is not public. It is closed under every rule (`Derives.isPublic`), so a
sealed message with such a signature in it was sealed by its sender
(`Public.sealed`).
-/
import Mathlib.Data.Multiset.Count

namespace StaticNet.DolevYao

variable {N C : Type}

-- ============= terms

/-- Messages over names `N` (secrets and random values) and public data
`C`. -/
inductive Term (N C : Type)
  | const (c : C)
  | fresh (n : N)
  | pair (a b : Term N C)
  /-- the base point to the power of all of these -/
  | point (exponents : Multiset N)
  | kemPub (k : N)
  | kemCt (k coins : N)
  | kemKey (k coins : N)
  | kdf (label : String) (t : Term N C)
  | aead (key nonce aad body : Term N C)
  | verKey (k : N)
  | sig (k : N) (body : Term N C)
deriving DecidableEq

namespace Term

/-- A point to one more power. -/
def dh (t : Term N C) (a : N) : Term N C :=
  match t with
  | point exponents => point (a ::ₘ exponents)
  | t => t

/-- A shared key and its ciphertext, if the term is a public key. -/
def encapsulate (t : Term N C) (coins : N) :
    Option (Term N C × Term N C) :=
  match t with
  | kemPub k => some (kemKey k coins, kemCt k coins)
  | _ => none

def decapsulate [DecidableEq N] (k : N) (t : Term N C) : Term N C :=
  match t with
  | kemCt k' coins => if k' = k then kemKey k coins else t
  | t => t

/-- The body of a message sealed under this key, nonce and associated
data. -/
def aeadOpen [DecidableEq N] [DecidableEq C] (key nonce aad : Term N C)
    (t : Term N C) : Option (Term N C) :=
  match t with
  | aead key' nonce' aad' body =>
      if key' = key ∧ nonce' = nonce ∧ aad' = aad then some body else none
  | _ => none

theorem aeadOpen_eq_some [DecidableEq N] [DecidableEq C]
    {key nonce aad t body : Term N C}
    (h : aeadOpen key nonce aad t = some body) :
    t = aead key nonce aad body := by
  unfold aeadOpen at h
  cases t with
  | aead key' nonce' aad' body' =>
      dsimp only at h
      by_cases heq : key' = key ∧ nonce' = nonce ∧ aad' = aad
      · rw [if_pos heq] at h
        obtain ⟨rfl, rfl, rfl⟩ := heq
        rw [Option.some.inj h]
      · rw [if_neg heq] at h
        cases h
  | _ => cases h

end Term

open Term

-- ====== the attacker

/-- What follows from the messages `known` for an attacker with the names
`own`. -/
inductive Derives (own : N → Bool) (known : List (Term N C)) :
    Term N C → Prop
  | seen {t} : t ∈ known → Derives own known t
  | const (c) : Derives own known (const c)
  | fresh {n} : own n = true → Derives own known (fresh n)
  | pair {a b} : Derives own known a → Derives own known b →
      Derives own known (pair a b)
  | left {a b} : Derives own known (pair a b) → Derives own known a
  | right {a b} : Derives own known (pair a b) → Derives own known b
  | base : Derives own known (point 0)
  | power {n m} : own n = true → Derives own known (point m) →
      Derives own known (point (n ::ₘ m))
  | root {n m} : own n = true → Derives own known (point (n ::ₘ m)) →
      Derives own known (point m)
  | kemPub {k} : own k = true → Derives own known (kemPub k)
  | kemCt {k coins} : own coins = true → Derives own known (kemPub k) →
      Derives own known (kemCt k coins)
  | encapsulated {k coins} : own coins = true →
      Derives own known (kemPub k) → Derives own known (kemKey k coins)
  | decapsulated {k coins} : own k = true →
      Derives own known (kemCt k coins) → Derives own known (kemKey k coins)
  | kdf {t} (label) : Derives own known t → Derives own known (kdf label t)
  | aead {key nonce aad body} : Derives own known key →
      Derives own known nonce → Derives own known aad →
      Derives own known body → Derives own known (aead key nonce aad body)
  | opened {key nonce aad body} :
      Derives own known (aead key nonce aad body) →
      Derives own known key → Derives own known body
  | verKey (k) : Derives own known (verKey k)
  | sig {k body} : own k = true → Derives own known body →
      Derives own known (sig k body)
  | signed {k body} : Derives own known (sig k body) →
      Derives own known body

/-- The attacker's half of a Diffie-Hellman secret is enough. -/
theorem Derives.shared {own : N → Bool} {known : List (Term N C)} {a b : N}
    (ha : own a = true) (h : Derives own known (point {b})) :
    Derives own known ((point {a} : Term N C).dh b) := by
  have hswap : ((point {a} : Term N C).dh b) = point (a ::ₘ {b}) :=
    congrArg point (Multiset.pair_comm b a)
  rw [hswap]
  exact .power ha h

-- ==== signatures behind keys

/-- A message under seal. -/
structure Envelope (N C : Type) where
  key : Term N C
  nonce : Term N C
  aad : Term N C
  body : Term N C

/-- What the attacker may hold while every signature of `who` is in a
message of `log`. -/
def Public (own : N → Bool) (who : N) (log : Set (Envelope N C)) :
    Term N C → Prop
  | .const _ => True
  | .fresh _ => True
  | .pair a b => Public own who log a ∧ Public own who log b
  | .point m => m.countP (fun n => own n = false) ≤ 1
  | .kemPub _ => True
  | .kemCt _ _ => True
  | .kemKey k coins => own k = true ∨ own coins = true
  | .kdf _ t => Public own who log t
  | .aead key nonce aad body =>
      Public own who log body ∨ ⟨key, nonce, aad, body⟩ ∈ log
  | .verKey _ => True
  | .sig k body => k ≠ who ∧ Public own who log body

section Public

variable {own : N → Bool} {who : N} {log log' : Set (Envelope N C)}
  {known : List (Term N C)} {t : Term N C}

theorem Public.mono (hsub : log ⊆ log') (h : Public own who log t) :
    Public own who log' t := by
  induction t with
  | const _ => trivial
  | fresh _ => trivial
  | pair a b iha ihb => exact ⟨iha h.1, ihb h.2⟩
  | point _ => exact h
  | kemPub _ => trivial
  | kemCt _ _ => trivial
  | kemKey _ _ => exact h
  | kdf _ _ ih => exact ih h
  | aead _ _ _ _ _ _ _ ih => exact h.imp ih fun hmem => hsub hmem
  | verKey _ => trivial
  | sig _ _ ih => exact ⟨h.1, ih h.2⟩

/-- No rule leads out of what is public, as long as no key of the log
is. -/
theorem Derives.isPublic (hwho : own who = false)
    (hlog : ∀ x ∈ log, ¬ Public own who log x.key)
    (hknown : ∀ t ∈ known, Public own who log t)
    (h : Derives own known t) : Public own who log t := by
  induction h with
  | seen hmem => exact hknown _ hmem
  | const _ => trivial
  | fresh _ => trivial
  | pair _ _ iha ihb => exact ⟨iha, ihb⟩
  | left _ ih => exact ih.1
  | right _ ih => exact ih.2
  | base => exact Nat.zero_le _
  | power hown _ ih =>
      rw [Public, Multiset.countP_cons_of_neg _ (by simp [hown])]
      exact ih
  | root hown _ ih =>
      rw [Public, Multiset.countP_cons_of_neg _ (by simp [hown])] at ih
      exact ih
  | kemPub _ => trivial
  | kemCt _ _ _ => trivial
  | encapsulated hown _ _ => exact Or.inr hown
  | decapsulated hown _ _ => exact Or.inl hown
  | kdf _ _ ih => exact ih
  | aead _ _ _ _ _ _ _ ih => exact Or.inl ih
  | opened _ _ ihseal ihkey =>
      rcases ihseal with hbody | hmem
      · exact hbody
      · exact absurd ihkey (hlog _ hmem)
  | verKey _ => trivial
  | sig hown _ ih =>
      refine ⟨?_, ih⟩
      rintro rfl
      rw [hown] at hwho
      cases hwho
  | signed _ ih => exact ih.2

/-- A point with a secret of ours on top of one that is not the
attacker's is no public key. -/
theorem not_public_dh {a : N} {m : Multiset N} (ha : own a = false)
    (hm : ∃ n ∈ m, own n = false) :
    ¬ Public own who log ((point m : Term N C).dh a) := by
  intro h
  have hpos : 0 < m.countP fun n => own n = false :=
    Multiset.countP_pos.2 hm
  have hcount := Multiset.countP_cons_of_pos
    (p := fun n => own n = false) m ha
  rw [Term.dh, Public, hcount] at h
  omega

end Public

end StaticNet.DolevYao
