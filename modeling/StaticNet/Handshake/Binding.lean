/-
Which session a peer's identity belongs to: the handshake of
`static-mesh/src/transport.rs` and `wire.rs` on symbolic messages, with
honest nodes that run any number of connections and an attacker between
them.

# The model

A node's side of a connection is a session with a number, and what it
draws carries that number, so no two sessions draw the same. Messages
reach a session only if the attacker can derive them from what has been
sent, which covers delivery, loss, replay and forgery. Terms have no
length, so the checks of sizes are not here; expiry and eviction of the
nonce cache drop whatever they like, and gossip writes what it likes into
the routing table.

# What binds an identity

The signature in an identity covers the node's keys and a nonce of its
own. The session is only in the seal: its key comes from the handshake
secret, its associated data are the two nonces. So an identity is bound
to its session for as long as nobody but the two ends can open the seal,
and not beyond: whoever is shown an identity can seal it again for
another session.
-/
import StaticNet.Handshake.Basic
import StaticNet.Lib.DolevYao

namespace StaticNet.Symbolic

open DolevYao

variable {A : Type}

-- ============= names

/-- What one connection draws. -/
inductive Draw
  | secret
  | kem
  | coins
  | nonce
  | identityNonce
  | aeadNonce
deriving DecidableEq

/-- A session's draws, the identity keys of the honest nodes, and all
that is the attacker's. -/
inductive Name (A : Type)
  | draw (session : Nat) (what : Draw)
  | identity (agent : A)
  | evil (n : Nat)
deriving DecidableEq

def Name.own : Name A → Bool
  | evil _ => true
  | _ => false

abbrev Msg (A : Type) := Term (Name A) (List UInt8)

-- ========== messages

structure Hello (A : Type) where
  ephPubKey : Msg A
  ephKemPubKey : Msg A
  nonce : Msg A

def Hello.term (hello : Hello A) : Msg A :=
  .pair hello.ephPubKey (.pair hello.ephKemPubKey hello.nonce)

structure Welcome (A : Type) where
  ephPubKey : Msg A
  ephKemPubKey : Msg A
  nonce : Msg A
  kemCiphertext : Msg A

def Welcome.term (welcome : Welcome A) : Msg A :=
  .pair welcome.ephPubKey (.pair welcome.ephKemPubKey
    (.pair welcome.nonce welcome.kemCiphertext))

structure Handshake (A : Type) where
  nodeId : Msg A
  publicKey : Msg A
  kemPublicKey : Msg A
  computeEnabled : Msg A
  computeCapacity : Msg A
  identityPublicKey : Msg A
  nonce : Msg A
  signature : Msg A

namespace Handshake

/-- `signing_bytes`. -/
def signingTerm (hs : Handshake A) : Msg A :=
  .pair hs.nodeId (.pair hs.publicKey (.pair hs.kemPublicKey
    (.pair hs.computeEnabled (.pair hs.computeCapacity
      (.pair hs.identityPublicKey hs.nonce)))))

/-- `serialize_handshake`. -/
def term (hs : Handshake A) : Msg A := .pair hs.signingTerm hs.signature

/-- `deserialize_handshake`. -/
def ofTerm : Msg A → Option (Handshake A)
  | .pair (.pair nodeId (.pair publicKey (.pair kemPublicKey
      (.pair computeEnabled (.pair computeCapacity
        (.pair identityPublicKey nonce)))))) signature =>
      some ⟨nodeId, publicKey, kemPublicKey, computeEnabled,
        computeCapacity, identityPublicKey, nonce, signature⟩
  | _ => none

/-- A handshake is read back from its term, -/
theorem ofTerm_term (hs : Handshake A) : ofTerm hs.term = some hs := rfl

/-- and only from that. -/
theorem ofTerm_eq_some {t : Msg A} {hs : Handshake A}
    (h : ofTerm t = some hs) : t = hs.term := by
  unfold ofTerm at h
  split at h
  · obtain rfl := Option.some.inj h
    rfl
  · cases h

/-- Handshakes with one term are one. -/
theorem term_injective {hs hs' : Handshake A} (h : hs.term = hs'.term) :
    hs = hs' := by
  have hread := congrArg ofTerm h
  rw [ofTerm_term, ofTerm_term] at hread
  exact Option.some.inj hread

def verify [DecidableEq A] (hs : Handshake A) : Bool :=
  match hs.identityPublicKey with
  | .verKey k => hs.signature = .sig k hs.signingTerm
  | _ => false

/-- A verified handshake has its key's signature. -/
theorem signature_of_verify [DecidableEq A] {hs : Handshake A}
    {k : Name A} (h : hs.verify = true)
    (hkey : hs.identityPublicKey = .verKey k) :
    hs.signature = .sig k hs.signingTerm := by
  unfold verify at h
  rw [hkey] at h
  exact of_decide_eq_true h

end Handshake

structure EncryptedIdentity (A : Type) where
  aeadNonce : Msg A
  ciphertext : Msg A

def EncryptedIdentity.term (enc : EncryptedIdentity A) : Msg A :=
  .pair enc.aeadNonce enc.ciphertext

def deriveHandshakeSecret (dh kem : Msg A) : Msg A :=
  .kdf HANDSHAKE_CONTEXT (.pair dh kem)

/-- What a session's messages are sealed with. -/
structure Exchange (A : Type) where
  helloNonce : Msg A
  welcomeNonce : Msg A
  secret : Msg A

/-- `handshake_session_aad`. -/
def Exchange.aad (x : Exchange A) : Msg A :=
  .pair x.helloNonce x.welcomeNonce

/-- The key of the seal. -/
def Exchange.authKey (x : Exchange A) : Msg A :=
  .kdf HANDSHAKE_AUTH_CONTEXT x.secret

def encryptIdentity (x : Exchange A) (nonce : Msg A)
    (hs : Handshake A) : EncryptedIdentity A where
  aeadNonce := nonce
  ciphertext := .aead x.authKey nonce x.aad hs.term

def decryptIdentity [DecidableEq A] (x : Exchange A)
    (enc : EncryptedIdentity A) : Option (Handshake A) :=
  (Term.aeadOpen x.authKey enc.aeadNonce x.aad enc.ciphertext).bind
    Handshake.ofTerm

/-- An identity that opens was sealed for this exchange. -/
theorem decryptIdentity_eq_some [DecidableEq A] {x : Exchange A}
    {enc : EncryptedIdentity A} {hs : Handshake A}
    (h : decryptIdentity x enc = some hs) :
    enc.ciphertext = .aead x.authKey enc.aeadNonce x.aad hs.term := by
  obtain ⟨body, hopen, hread⟩ := Option.bind_eq_some_iff.1 h
  rw [Term.aeadOpen_eq_some hopen, Handshake.ofTerm_eq_some hread]

-- ============= state

/-- What a node says of itself; all of it is public. -/
structure Profile where
  nodeId : List UInt8
  publicKey : List UInt8
  kemPublicKey : List UInt8
  computeEnabled : Bool
  computeCapacity : UInt8

/-- Where a session is. A failed one may have sent its identity
before. -/
inductive Phase (A : Type)
  /-- a client that has sent its hello -/
  | dialed
  /-- a client that has sent its identity -/
  | presented (x : Exchange A)
  /-- a server that has sent its welcome -/
  | welcomed (hello : Hello A) (x : Exchange A)
  | accepted (x : Exchange A) (hs : Handshake A)
  | failed (sent : Option (Exchange A))

/-- The exchange that the session has sent its identity in. -/
def Phase.sentIn : Phase A → Option (Exchange A)
  | dialed => none
  | presented x => some x
  | welcomed _ _ => none
  | accepted x _ => some x
  | failed sent => sent

structure Session (A : Type) where
  agent : A
  phase : Phase A

/-- A routing-table entry, as far as key continuity reads it. -/
structure Pin (A : Type) where
  publicKey : Msg A
  identityPublicKey : Option (Msg A)

/-- The nodes, and everything that was ever sent. -/
structure Net (A : Type) where
  sessions : FMap Nat (Session A)
  sent : List (Msg A)
  /-- the nonce caches of all nodes -/
  handshakeNonces : List (A × Msg A)
  /-- the routing tables of all nodes -/
  routingTables : FMap (A × Msg A) (Pin A)

def Net.new : Net A := ⟨∅, [], [], ∅⟩

-- ========= functions

section functions

variable [DecidableEq A]

namespace Net

def checkHandshakeNonce (s : Net A) (a : A) (nonce : Msg A) :
    Bool × Net A :=
  if (a, nonce) ∈ s.handshakeNonces then (false, s)
  else (true, { s with handshakeNonces := (a, nonce) :: s.handshakeNonces })

/-- Key continuity. -/
def continues (s : Net A) (a : A) (hs : Handshake A) : Bool :=
  match s.routingTables.get (a, hs.nodeId) with
  | none => true
  | some known =>
      known.publicKey == hs.publicKey
        && match known.identityPublicKey with
          | none => true
          | some stored => stored == hs.identityPublicKey

def verifyHandshake (s : Net A) (a : A) (hs : Handshake A) :
    Bool × Net A :=
  if hs.verify = false then (false, s)
  else
    let fresh := s.checkHandshakeNonce a hs.nonce
    if fresh.1 = false then fresh
    else (fresh.2.continues a hs, fresh.2)

/-- A session moves on, with these messages sent. -/
def put (s : Net A) (i : Nat) (session : Session A)
    (out : List (Msg A)) : Net A :=
  { s with
    sessions := s.sessions.insert i session
    sent := out ++ s.sent }

/-- The insert into the routing table. -/
def addNode (s : Net A) (a : A) (hs : Handshake A) : Net A :=
  { s with
    routingTables := s.routingTables.insert (a, hs.nodeId)
      ⟨hs.publicKey, some hs.identityPublicKey⟩ }

end Net

/-- `signed_handshake`, with what session `i` draws for it. -/
def signedHandshake (profile : A → Profile) (a : A) (i : Nat) :
    Handshake A :=
  let p := profile a
  let hs : Handshake A :=
    { nodeId := .const p.nodeId
      publicKey := .const p.publicKey
      kemPublicKey := .const p.kemPublicKey
      computeEnabled := .const [if p.computeEnabled then 1 else 0]
      computeCapacity := .const [p.computeCapacity]
      identityPublicKey := .verKey (.identity a)
      nonce := .fresh (.draw i .identityNonce)
      signature := .const [] }
  { hs with signature := .sig (.identity a) hs.signingTerm }

/-- The identity that node `a` sends in session `i`. -/
def ownIdentity (profile : A → Profile) (a : A) (i : Nat)
    (x : Exchange A) : EncryptedIdentity A :=
  encryptIdentity x (.fresh (.draw i .aeadNonce))
    (signedHandshake profile a i)

/-- `connect_to_peer` up to its first message. -/
def sendHello (s : Net A) (i : Nat) (a : A) : Net A :=
  let hello : Hello A :=
    { ephPubKey := .point {.draw i .secret}
      ephKemPubKey := .kemPub (.draw i .kem)
      nonce := .fresh (.draw i .nonce) }
  if s.sessions.contains i then s
  else s.put i ⟨a, .dialed⟩ [hello.term]

/-- `handle_incoming_connection` on the hello. -/
def receiveHello (s : Net A) (i : Nat) (a : A) (hello : Hello A) :
    Net A :=
  if s.sessions.contains i then s
  else
    let fresh := s.checkHandshakeNonce a hello.nonce
    if fresh.1 = false then fresh.2.put i ⟨a, .failed none⟩ []
    else
      match hello.ephKemPubKey.encapsulate (.draw i .coins) with
      | none => fresh.2.put i ⟨a, .failed none⟩ []
      | some (kemShared, kemCiphertext) =>
          let secret := deriveHandshakeSecret
            (hello.ephPubKey.dh (.draw i .secret)) kemShared
          let welcome : Welcome A :=
            { ephPubKey := .point {.draw i .secret}
              ephKemPubKey := .kemPub (.draw i .kem)
              nonce := .fresh (.draw i .nonce)
              kemCiphertext := kemCiphertext }
          fresh.2.put i
            ⟨a, .welcomed hello ⟨hello.nonce, welcome.nonce, secret⟩⟩
            [welcome.term]

/-- `connect_to_peer` on the welcome. -/
def receiveWelcome (profile : A → Profile) (s : Net A) (i : Nat)
    (welcome : Welcome A) : Net A :=
  match s.sessions.get i with
  | some ⟨a, .dialed⟩ =>
      let fresh := s.checkHandshakeNonce a welcome.nonce
      if fresh.1 = false then fresh.2.put i ⟨a, .failed none⟩ []
      else
        let kemShared := welcome.kemCiphertext.decapsulate (.draw i .kem)
        let secret := deriveHandshakeSecret
          (welcome.ephPubKey.dh (.draw i .secret)) kemShared
        let x : Exchange A :=
          ⟨.fresh (.draw i .nonce), welcome.nonce, secret⟩
        fresh.2.put i ⟨a, .presented x⟩ [(ownIdentity profile a i x).term]
  | _ => s

/-- Either side on the other's identity: the server answers with its own
before it accepts. -/
def receiveIdentity (profile : A → Profile) (s : Net A) (i : Nat)
    (enc : EncryptedIdentity A) : Net A :=
  match s.sessions.get i with
  | some ⟨a, .presented x⟩ =>
      match decryptIdentity x enc with
      | none => s.put i ⟨a, .failed (some x)⟩ []
      | some hs =>
          let verified := s.verifyHandshake a hs
          if verified.1 = false then
            verified.2.put i ⟨a, .failed (some x)⟩ []
          else (verified.2.put i ⟨a, .accepted x hs⟩ []).addNode a hs
  | some ⟨a, .welcomed _ x⟩ =>
      match decryptIdentity x enc with
      | none => s.put i ⟨a, .failed none⟩ []
      | some hs =>
          let verified := s.verifyHandshake a hs
          if verified.1 = false then
            verified.2.put i ⟨a, .failed none⟩ []
          else
            (verified.2.put i ⟨a, .accepted x hs⟩
              [(ownIdentity profile a i x).term]).addNode a hs
  | _ => s

-- ============== runs

inductive Event (A : Type)
  | dial (i : Nat) (a : A)
  | hello (i : Nat) (a : A) (msg : Hello A)
  | welcome (i : Nat) (msg : Welcome A)
  | identity (i : Nat) (msg : EncryptedIdentity A)
  /-- expiry and eviction in the nonce caches -/
  | forget (keep : A × Msg A → Bool)
  /-- gossip, whatever it brings -/
  | gossip (tables : FMap (A × Msg A) (Pin A))

/-- The message an event delivers. -/
def Event.message : Event A → Option (Msg A)
  | hello _ _ msg => some msg.term
  | welcome _ msg => some msg.term
  | identity _ msg => some msg.term
  | _ => none

def step (profile : A → Profile) (s : Net A) : Event A → Net A
  | .dial i a => sendHello s i a
  | .hello i a msg => receiveHello s i a msg
  | .welcome i msg => receiveWelcome profile s i msg
  | .identity i msg => receiveIdentity profile s i msg
  | .forget keep =>
      { s with handshakeNonces := s.handshakeNonces.filter keep }
  | .gossip tables => { s with routingTables := tables }

/-- The attacker can deliver what it can derive. -/
def Delivered (s : Net A) (e : Event A) : Prop :=
  ∀ t, e.message = some t → Derives Name.own s.sent t

/-- The states that runs lead to whose events all are `ok`. -/
inductive Reach (profile : A → Profile) (ok : Net A → Event A → Prop) :
    Net A → Prop
  | init : Reach profile ok .new
  | step {s e} : Reach profile ok s → Delivered s e → ok s e →
      Reach profile ok (step profile s e)

end functions

-- ===== the condition

/-- An ephemeral key with a secret in it that is not the attacker's. -/
def HonestPoint (t : Msg A) : Prop :=
  ∃ exponents, t = .point exponents ∧ ∃ n ∈ exponents, n.own = false

/-- One half of the hello is of an honest node. -/
def HonestHello (hello : Hello A) : Prop :=
  HonestPoint hello.ephPubKey
    ∨ ∃ k, hello.ephKemPubKey = .kemPub k ∧ k.own = false

/-- One half of the welcome to session `i` is of an honest node. -/
def HonestWelcome (i : Nat) (welcome : Welcome A) : Prop :=
  HonestPoint welcome.ephPubKey
    ∨ ∃ coins, welcome.kemCiphertext = .kemCt (.draw i .kem) coins
      ∧ coins.own = false

/-- Node `c` shows its identity to honest peers only. -/
def Discreet (c : A) (s : Net A) : Event A → Prop
  | .welcome i msg => s.sessions.get i = some ⟨c, .dialed⟩ →
      HonestWelcome i msg
  | .identity i _ => ∀ hello x,
      s.sessions.get i = some ⟨c, .welcomed hello x⟩ → HonestHello hello
  | _ => True

-- ===== the invariant

/-- Node `c` has sent its identity in session `j`, under exchange `x`. -/
def Presents (c : A) (s : Net A) (j : Nat) (x : Exchange A) : Prop :=
  ∃ phase, s.sessions.get j = some ⟨c, phase⟩ ∧ phase.sentIn = some x

/-- The identities of `c` under way. -/
def presentedLog (profile : A → Profile) (c : A) (s : Net A) :
    Set (Envelope (Name A) (List UInt8)) :=
  {y | ∃ j x, Presents c s j x ∧ y = ⟨x.authKey,
    .fresh (.draw j .aeadNonce), x.aad, (signedHandshake profile c j).term⟩}

/-- A key that is public under no log. -/
def Hidden (c : A) (t : Msg A) : Prop :=
  ∀ log, ¬ Public Name.own (.identity c) log t

/-- What holds in every state while `c` is discreet. -/
structure Bound (profile : A → Profile) (c : A) (s : Net A) : Prop where
  /-- no signature of `c` is in the open -/
  sent : ∀ t ∈ s.sent,
    Public Name.own (.identity c) (presentedLog profile c s) t
  hidden : ∀ j x, Presents c s j x → Hidden c x.secret
  on_wire : ∀ j x, Presents c s j x →
    (ownIdentity profile c j x).term ∈ s.sent
  welcomed : ∀ i a hello x,
    s.sessions.get i = some ⟨a, .welcomed hello x⟩ →
    ∃ k, hello.ephKemPubKey = .kemPub k
      ∧ x.secret = deriveHandshakeSecret
        (hello.ephPubKey.dh (.draw i .secret)) (.kemKey k (.draw i .coins))
  accepted : ∀ i v x hs,
    s.sessions.get i = some ⟨v, .accepted x hs⟩ →
    hs.identityPublicKey = .verKey (.identity c) →
    ∃ j, Presents c s j x ∧ hs = signedHandshake profile c j

section Bound

variable {profile : A → Profile} {c : A} {s s' : Net A}

/-- The invariant reads the sessions and what was sent. -/
theorem Bound.congr (h : Bound profile c s)
    (hsessions : s'.sessions = s.sessions) (hsent : s'.sent = s.sent) :
    Bound profile c s' := by
  have hpresents : Presents c s' = Presents c s := by
    unfold Presents
    rw [hsessions]
  have hlog : presentedLog profile c s' = presentedLog profile c s := by
    unfold presentedLog
    rw [hpresents]
  refine ⟨?_, ?_, ?_, ?_, ?_⟩
  · rw [hsent, hlog]
    exact h.sent
  · rw [hpresents]
    exact h.hidden
  · rw [hpresents, hsent]
    exact h.on_wire
  · rw [hsessions]
    exact h.welcomed
  · rw [hsessions, hpresents]
    exact h.accepted

/-- At first nobody has a session. -/
theorem Bound.new : Bound profile c Net.new := by
  have hnone : ∀ j x, ¬ Presents c Net.new j x := by
    rintro j x ⟨phase, hget, -⟩
    cases hget
  refine ⟨by rintro t ⟨⟩, ?_, ?_, ?_, ?_⟩
  · intro j x h
    exact absurd h (hnone j x)
  · intro j x h
    exact absurd h (hnone j x)
  · rintro i a hello x ⟨⟩
  · rintro i v x hs ⟨⟩

/-- A session that moves on forgets no identity it has sent. -/
def Remembers (s : Net A) (i : Nat) (session : Session A) : Prop :=
  ∀ old, s.sessions.get i = some old → old.agent = session.agent
    ∧ (old.phase.sentIn = none ∨ old.phase.sentIn = session.phase.sentIn)

variable {i : Nat} {session : Session A} {out : List (Msg A)}

/-- What was presented stays so. -/
theorem Presents.put (hmem : Remembers s i session) {j : Nat}
    {x : Exchange A} (h : Presents c s j x) :
    Presents c (s.put i session out) j x := by
  obtain ⟨phase, hget, hsent⟩ := h
  by_cases hj : j = i
  · subst hj
    obtain ⟨hagent, hphase⟩ := hmem _ hget
    refine ⟨session.phase, ?_, ?_⟩
    · rw [Net.put, FMap.get_insert_self, ← show session.agent = c from
        hagent.symm]
    · rcases hphase with hnone | heq
      · rw [hnone] at hsent
        cases hsent
      · rw [← heq, hsent]
  · exact ⟨phase, by rw [Net.put, FMap.get_insert_ne _ _ hj, hget], hsent⟩

/-- What a session that moved on has sent, it had sent or sends now. -/
theorem Presents.of_put {j : Nat} {x : Exchange A}
    (h : Presents c (s.put i session out) j x) :
    Presents c s j x
      ∨ (j = i ∧ session.agent = c ∧ session.phase.sentIn = some x) := by
  obtain ⟨phase, hget, hsent⟩ := h
  by_cases hj : j = i
  · subst hj
    rw [Net.put, FMap.get_insert_self] at hget
    obtain rfl := Option.some.inj hget
    exact Or.inr ⟨rfl, rfl, hsent⟩
  · rw [Net.put, FMap.get_insert_ne _ _ hj] at hget
    exact Or.inl ⟨phase, hget, hsent⟩

/-- One session moves on: what is left to show is about that session and
its messages. -/
theorem Bound.put (h : Bound profile c s)
    (hremembers : Remembers s i session)
    (hout : ∀ t ∈ out, Public Name.own (.identity c)
      (presentedLog profile c (s.put i session out)) t)
    (hsent : ∀ x, session.agent = c → session.phase.sentIn = some x →
      Presents c s i x ∨ (Hidden c x.secret
        ∧ (ownIdentity profile c i x).term ∈ out))
    (hwelcomed : ∀ hello x, session.phase = .welcomed hello x →
      ∃ k, hello.ephKemPubKey = .kemPub k
        ∧ x.secret = deriveHandshakeSecret
          (hello.ephPubKey.dh (.draw i .secret))
          (.kemKey k (.draw i .coins)))
    (haccepted : ∀ x hs, session.phase = .accepted x hs →
      hs.identityPublicKey = .verKey (.identity c) →
      ∃ j, Presents c s j x ∧ hs = signedHandshake profile c j) :
    Bound profile c (s.put i session out) := by
  have hsplit : ∀ j x, Presents c (s.put i session out) j x →
      Presents c s j x ∨ (j = i ∧ Hidden c x.secret
        ∧ (ownIdentity profile c i x).term ∈ out) := by
    intro j x hp
    rcases hp.of_put with hold | ⟨rfl, hagent, hphase⟩
    · exact Or.inl hold
    · rcases hsent x hagent hphase with hold | hnew
      · exact Or.inl hold
      · exact Or.inr ⟨rfl, hnew⟩
  refine ⟨?_, ?_, ?_, ?_, ?_⟩
  · intro t ht
    rcases List.mem_append.1 ht with hnew | hold
    · exact hout t hnew
    · refine (h.sent t hold).mono ?_
      rintro y ⟨j, x, hp, rfl⟩
      exact ⟨j, x, hp.put hremembers, rfl⟩
  · intro j x hp
    rcases hsplit j x hp with hold | ⟨-, hhidden, -⟩
    · exact h.hidden j x hold
    · exact hhidden
  · intro j x hp
    rcases hsplit j x hp with hold | ⟨rfl, -, hmem⟩
    · exact List.mem_append_right _ (h.on_wire j x hold)
    · exact List.mem_append_left _ hmem
  · intro j a hello x hget
    by_cases hj : j = i
    · subst hj
      rw [Net.put, FMap.get_insert_self] at hget
      obtain rfl := Option.some.inj hget
      exact hwelcomed hello x rfl
    · rw [Net.put, FMap.get_insert_ne _ _ hj] at hget
      exact h.welcomed j a hello x hget
  · intro j v x hs hget hkey
    have hold : ∃ j, Presents c s j x
        ∧ hs = signedHandshake profile c j := by
      by_cases hj : j = i
      · subst hj
        rw [Net.put, FMap.get_insert_self] at hget
        obtain rfl := Option.some.inj hget
        exact haccepted x hs rfl hkey
      · rw [Net.put, FMap.get_insert_ne _ _ hj] at hget
        exact h.accepted j v x hs hget hkey
    obtain ⟨k, hp, heq⟩ := hold
    exact ⟨k, hp.put hremembers, heq⟩

end Bound

-- =========== secrets

section Secrets

variable {c : A} {i : Nat} {dh kem t : Msg A}

theorem hidden_secret (h : Hidden c dh ∨ Hidden c kem) :
    Hidden c (deriveHandshakeSecret dh kem) := by
  rintro log ⟨hdh, hkem⟩
  rcases h with h | h
  · exact h log hdh
  · exact h log hkem

theorem HonestPoint.hidden (h : HonestPoint t) :
    Hidden c (t.dh (.draw i .secret)) := by
  obtain ⟨exponents, rfl, hhonest⟩ := h
  exact fun log => not_public_dh rfl hhonest

theorem hidden_kemKey {k coins : Name A} (hk : k.own = false)
    (hcoins : coins.own = false) : Hidden c (.kemKey k coins) := by
  rintro log (h | h)
  · rw [hk] at h
    cases h
  · rw [hcoins] at h
    cases h

theorem HonestHello.hidden {hello : Hello A} {k : Name A}
    (h : HonestHello hello) (hkem : hello.ephKemPubKey = .kemPub k) :
    Hidden c (deriveHandshakeSecret
      (hello.ephPubKey.dh (.draw i .secret))
      (.kemKey k (.draw i .coins))) := by
  apply hidden_secret
  rcases h with h | ⟨k', heq, hk⟩
  · exact Or.inl h.hidden
  · rw [hkem] at heq
    obtain rfl := Term.kemPub.inj heq
    exact Or.inr (hidden_kemKey hk rfl)

theorem HonestWelcome.hidden [DecidableEq A] {welcome : Welcome A}
    (h : HonestWelcome i welcome) :
    Hidden c (deriveHandshakeSecret
      (welcome.ephPubKey.dh (.draw i .secret))
      (welcome.kemCiphertext.decapsulate (.draw i .kem))) := by
  apply hidden_secret
  rcases h with h | ⟨coins, heq, hcoins⟩
  · exact Or.inl h.hidden
  · rw [heq, Term.decapsulate, if_pos rfl]
    exact Or.inr (hidden_kemKey rfl hcoins)

end Secrets

-- ============= steps

section Steps

variable {profile : A → Profile} {c : A} {s : Net A} {i : Nat} {a : A}

theorem public_ephemeral {log : Set (Envelope (Name A) (List UInt8))}
    (n : Name A) :
    Public Name.own (.identity c) log (.point {n}) :=
  (Multiset.countP_le_card _ _).trans
    (Nat.le_of_eq (Multiset.card_singleton n))

/-- An identity on its way shows nothing of `c`'s that is not in the
log. -/
theorem public_ownIdentity {x : Exchange A}
    (h : a = c → Presents c s i x) :
    Public Name.own (.identity c) (presentedLog profile c s)
      (ownIdentity profile a i x).term := by
  refine ⟨trivial, ?_⟩
  by_cases ha : a = c
  · subst ha
    exact Or.inr ⟨i, x, h rfl, rfl⟩
  · refine Or.inl ⟨⟨trivial, trivial, trivial, trivial, trivial, trivial,
      trivial⟩, ?_, ⟨trivial, trivial, trivial, trivial, trivial, trivial,
      trivial⟩⟩
    rintro ⟨⟩
    exact ha rfl

/-- A session that is new, or has sent nothing, has nothing to
remember. -/
theorem remembers_of_none (session : Session A)
    (h : s.sessions.get i = none) : Remembers s i session := by
  intro old hget
  rw [h] at hget
  cases hget

theorem remembers_of_phase {old phase : Phase A}
    (hget : s.sessions.get i = some ⟨a, old⟩)
    (hsent : old.sentIn = none ∨ old.sentIn = phase.sentIn) :
    Remembers s i ⟨a, phase⟩ := by
  intro old' hget'
  rw [hget] at hget'
  obtain rfl := Option.some.inj hget'
  exact ⟨rfl, hsent⟩

/-- A session that fails sends nothing. -/
theorem Bound.fail (h : Bound profile c s) {sent : Option (Exchange A)}
    (hremembers : Remembers s i ⟨a, .failed sent⟩)
    (hsent : ∀ x, a = c → sent = some x → Presents c s i x) :
    Bound profile c (s.put i ⟨a, .failed sent⟩ []) := by
  refine h.put hremembers (by simp) ?_ (by simp) (by simp)
  intro x hagent hphase
  exact Or.inl (hsent x hagent hphase)

/-- A dial binds nothing. -/
theorem Bound.sendHello (h : Bound profile c s) :
    Bound profile c (sendHello s i a) := by
  unfold Symbolic.sendHello
  cases hget : s.sessions.get i with
  | some old =>
      rw [FMap.contains, hget]
      exact h
  | none =>
      rw [FMap.contains, hget]
      refine h.put (remembers_of_none _ hget) ?_
        (by simp [Phase.sentIn]) (by simp) (by simp)
      intro t ht
      obtain rfl := List.mem_singleton.1 ht
      exact ⟨public_ephemeral _, trivial, trivial⟩

variable [DecidableEq A]

theorem checkHandshakeNonce_frame (s : Net A) (a : A) (nonce : Msg A) :
    (s.checkHandshakeNonce a nonce).2.sessions = s.sessions
      ∧ (s.checkHandshakeNonce a nonce).2.sent = s.sent := by
  unfold Net.checkHandshakeNonce
  split <;> exact ⟨rfl, rfl⟩

theorem verifyHandshake_frame (s : Net A) (a : A) (hs : Handshake A) :
    (s.verifyHandshake a hs).2.sessions = s.sessions
      ∧ (s.verifyHandshake a hs).2.sent = s.sent := by
  unfold Net.verifyHandshake
  have hnonce := checkHandshakeNonce_frame s a hs.nonce
  split
  · exact ⟨rfl, rfl⟩
  · dsimp only
    split <;> exact hnonce

theorem verify_of_verifyHandshake {hs : Handshake A}
    (h : (s.verifyHandshake a hs).1 = true) : hs.verify = true := by
  by_contra hbad
  rw [Net.verifyHandshake, if_pos (Bool.eq_false_iff.2 hbad)] at h
  cases h

/-- The heart of it: an identity of `c` that opens in a session was sent
by `c` in that session. -/
theorem Bound.presented (h : Bound profile c s) {x : Exchange A}
    {enc : EncryptedIdentity A} {hs : Handshake A}
    (hdelivered : Derives Name.own s.sent enc.term)
    (hopen : decryptIdentity x enc = some hs) (hverify : hs.verify = true)
    (hkey : hs.identityPublicKey = .verKey (.identity c)) :
    ∃ j, Presents c s j x ∧ hs = signedHandshake profile c j := by
  have hlog : ∀ y ∈ presentedLog profile c s,
      ¬ Public Name.own (.identity c) (presentedLog profile c s) y.key := by
    rintro y ⟨j, x', hp, rfl⟩
    exact h.hidden j x' hp _
  have hpublic := (hdelivered.isPublic rfl hlog h.sent).2
  rw [decryptIdentity_eq_some hopen] at hpublic
  rcases hpublic with hbody | ⟨j, x', hp, heq⟩
  · have hsig := hbody.2
    rw [Handshake.signature_of_verify hverify hkey] at hsig
    exact absurd rfl hsig.1
  · obtain ⟨hauth, -, haad, hterm⟩ := Envelope.mk.inj heq
    obtain ⟨-, hsecret⟩ := Term.kdf.inj hauth
    obtain ⟨hhello, hwelcome⟩ := Term.pair.inj haad
    have hx : x = x' := by
      cases x
      cases x'
      cases hsecret
      cases hhello
      cases hwelcome
      rfl
    exact ⟨j, hx ▸ hp, Handshake.term_injective hterm⟩

/-- A greeting binds nothing. -/
theorem Bound.receiveHello (h : Bound profile c s) (hello : Hello A) :
    Bound profile c (receiveHello s i a hello) := by
  unfold Symbolic.receiveHello
  obtain ⟨hsessions, hsent⟩ := checkHandshakeNonce_frame s a hello.nonce
  cases hget : s.sessions.get i with
  | some old =>
      rw [FMap.contains, hget]
      exact h
  | none =>
      rw [FMap.contains, hget]
      have hnonce := h.congr hsessions hsent
      rw [← hsessions] at hget
      generalize s.checkHandshakeNonce a hello.nonce = fresh at hnonce hget
      have hfail := hnonce.fail (a := a)
        (remembers_of_none ⟨a, .failed none⟩ hget) (by simp)
      dsimp only
      rw [if_neg (by simp)]
      by_cases hok : fresh.1 = false
      · rw [if_pos hok]
        exact hfail
      rw [if_neg hok]
      cases hkem : hello.ephKemPubKey with
      | kemPub k =>
          refine hnonce.put (remembers_of_none _ hget) ?_
            (by simp [Phase.sentIn]) ?_ (by simp)
          · intro t ht
            obtain rfl := List.mem_singleton.1 ht
            exact ⟨public_ephemeral _, trivial, trivial, trivial⟩
          · rintro hello' x ⟨⟩
            exact ⟨k, hkem, rfl⟩
      | _ => exact hfail

/-- The dialer presents itself in its exchange. -/
theorem Bound.receiveWelcome (h : Bound profile c s)
    {welcome : Welcome A}
    (hok : Discreet c s (.welcome i welcome)) :
    Bound profile c (receiveWelcome profile s i welcome) := by
  unfold Symbolic.receiveWelcome
  cases hget : s.sessions.get i with
  | none => exact h
  | some session =>
      obtain ⟨a, phase⟩ := session
      cases phase with
      | dialed =>
          obtain ⟨hsessions, hsent⟩ :=
            checkHandshakeNonce_frame s a welcome.nonce
          have hnonce := h.congr hsessions hsent
          have hdialed : a = c → HonestWelcome i welcome := by
            rintro rfl
            exact hok hget
          rw [← hsessions] at hget
          dsimp only
          generalize s.checkHandshakeNonce a welcome.nonce = fresh
            at hnonce hget ⊢
          by_cases hfresh : fresh.1 = false
          · rw [if_pos hfresh]
            exact hnonce.fail (remembers_of_phase hget (Or.inl rfl)) (by simp)
          rw [if_neg hfresh]
          refine hnonce.put (remembers_of_phase hget (Or.inl rfl)) ?_ ?_
            (by simp) (by simp)
          · intro t ht
            obtain rfl := List.mem_singleton.1 ht
            apply public_ownIdentity
            rintro rfl
            exact ⟨_, by rw [Net.put, FMap.get_insert_self], rfl⟩
          · rintro x rfl ⟨⟩
            exact Or.inr ⟨(hdialed rfl).hidden, List.mem_singleton_self _⟩
      | presented x => exact h
      | welcomed hello x => exact h
      | accepted x hs => exact h
      | failed sent => exact h

/-- An identity that opens is judged: a client has sent its own before,
a server sends it now. -/
theorem Bound.judge (h : Bound profile c s) {old : Phase A}
    {x : Exchange A} {enc : EncryptedIdentity A} {hs : Handshake A}
    {out : List (Msg A)} (hget : s.sessions.get i = some ⟨a, old⟩)
    (hdelivered : Derives Name.own s.sent enc.term)
    (hopen : decryptIdentity x enc = some hs)
    (hout : (old.sentIn = some x ∧ out = [])
      ∨ (old.sentIn = none ∧ out = [(ownIdentity profile a i x).term]
        ∧ (a = c → Hidden c x.secret))) :
    Bound profile c
      (if (s.verifyHandshake a hs).1 = false then
        (s.verifyHandshake a hs).2.put i ⟨a, .failed old.sentIn⟩ []
      else
        ((s.verifyHandshake a hs).2.put i ⟨a, .accepted x hs⟩
          out).addNode a hs) := by
  obtain ⟨hsessions, hsent⟩ := verifyHandshake_frame s a hs
  have hverified := h.congr hsessions hsent
  have hpresents : Presents c (s.verifyHandshake a hs).2
      = Presents c s := by
    unfold Presents
    rw [hsessions]
  have hbefore : ∀ x', a = c → old.sentIn = some x' →
      Presents c s i x' := by
    rintro x' rfl heq
    exact ⟨old, hget, heq⟩
  have hget' := hget
  rw [← hsessions] at hget'
  by_cases hbad : (s.verifyHandshake a hs).1 = false
  · rw [if_pos hbad]
    refine hverified.fail (remembers_of_phase hget' (Or.inr rfl)) ?_
    rw [hpresents]
    exact hbefore
  rw [if_neg hbad]
  have hput : Bound profile c ((s.verifyHandshake a hs).2.put i
      ⟨a, .accepted x hs⟩ out) := by
    refine hverified.put (remembers_of_phase hget' ?_) ?_ ?_ (by simp) ?_
    · rcases hout with ⟨hx, -⟩ | ⟨hnone, -⟩
      · exact Or.inr hx
      · exact Or.inl hnone
    · intro t ht
      rcases hout with ⟨-, rfl⟩ | ⟨-, rfl, -⟩
      · cases ht
      · obtain rfl := List.mem_singleton.1 ht
        apply public_ownIdentity
        rintro rfl
        exact ⟨_, by rw [Net.put, FMap.get_insert_self], rfl⟩
    · rintro x' rfl ⟨⟩
      rw [hpresents]
      rcases hout with ⟨hx, -⟩ | ⟨-, rfl, hhidden⟩
      · exact Or.inl (hbefore x rfl hx)
      · exact Or.inr ⟨hhidden rfl, List.mem_singleton_self _⟩
    · rintro x' hs' ⟨⟩ hkey
      rw [hpresents]
      exact h.presented hdelivered hopen (verify_of_verifyHandshake
        (Bool.eq_true_of_not_eq_false hbad)) hkey
  exact hput.congr rfl rfl

/-- A session is accepted with the peer of its exchange. -/
theorem Bound.receiveIdentity (h : Bound profile c s)
    {enc : EncryptedIdentity A}
    (hdelivered : Derives Name.own s.sent enc.term)
    (hok : Discreet c s (.identity i enc)) :
    Bound profile c (receiveIdentity profile s i enc) := by
  unfold Symbolic.receiveIdentity
  cases hget : s.sessions.get i with
  | none => exact h
  | some session =>
      obtain ⟨a, phase⟩ := session
      cases phase with
      | presented x =>
          dsimp only
          cases hopen : decryptIdentity x enc with
          | none =>
              refine h.fail (remembers_of_phase hget (Or.inr rfl)) ?_
              rintro x' rfl heq
              exact ⟨_, hget, heq⟩
          | some hs =>
              exact h.judge hget hdelivered hopen (Or.inl ⟨rfl, rfl⟩)
      | welcomed hello x =>
          dsimp only
          cases hopen : decryptIdentity x enc with
          | none =>
              exact h.fail (remembers_of_phase hget (Or.inl rfl)) (by simp)
          | some hs =>
              refine h.judge hget hdelivered hopen
                (Or.inr ⟨rfl, rfl, ?_⟩)
              rintro rfl
              obtain ⟨k, hkem, hsecret⟩ := h.welcomed i a hello x hget
              rw [hsecret]
              exact (hok hello x hget).hidden hkem
      | dialed => exact h
      | accepted x hs => exact h
      | failed sent => exact h

/-- One event keeps the binding, -/
theorem Bound.step (h : Bound profile c s) {e : Event A}
    (hdelivered : Delivered s e) (hok : Discreet c s e) :
    Bound profile c (step profile s e) := by
  cases e with
  | dial i a => exact h.sendHello
  | hello i a msg => exact h.receiveHello msg
  | welcome i msg => exact h.receiveWelcome hok
  | identity i msg => exact h.receiveIdentity (hdelivered _ rfl) hok
  | forget keep => exact h.congr rfl rfl
  | gossip tables => exact h.congr rfl rfl

/-- and so does every run. -/
theorem Reach.bound (h : Reach profile (Discreet c) s) :
    Bound profile c s := by
  induction h with
  | init => exact Bound.new
  | step _ hdelivered hok ih => exact ih.step hdelivered hok

end Steps

-- ======= the binding

/-- In every run in which node `c` shows its identity to honest peers
only: whoever accepts `c`'s key shares the session with `c`, which has
sent just this identity in it, under the same nonces and secret. -/
theorem identity_session_bound [DecidableEq A] (profile : A → Profile)
    (c : A) (s : Net A) (hrun : Reach profile (Discreet c) s) (i : Nat)
    (v : A) (x : Exchange A) (hs : Handshake A)
    (haccepted : s.sessions.get i = some ⟨v, .accepted x hs⟩)
    (hkey : hs.identityPublicKey = .verKey (.identity c)) :
    ∃ j phase, s.sessions.get j = some ⟨c, phase⟩
      ∧ phase.sentIn = some x
      ∧ hs = signedHandshake profile c j
      ∧ (encryptIdentity x (.fresh (.draw j .aeadNonce)) hs).term
        ∈ s.sent := by
  obtain ⟨j, hpresents, rfl⟩ := hrun.bound.accepted i v x hs haccepted hkey
  have hwire := hrun.bound.on_wire j x hpresents
  obtain ⟨phase, hget, hsent⟩ := hpresents
  exact ⟨j, phase, hget, hsent, rfl, hwire⟩

/-- Two nodes. -/
def twoNodes (a : Bool) : Profile where
  nodeId := [if a then 1 else 0]
  publicKey := [2]
  kemPublicKey := [3]
  computeEnabled := false
  computeCapacity := 0

/-- The net after the first `n` events. -/
def netAfter (es : List (Event Bool)) (n : Nat) : Net Bool :=
  (es.take n).foldl (step twoNodes) .new

/-- The caller's hello, in session 0. -/
def callerHello : Hello Bool where
  ephPubKey := .point {.draw 0 .secret}
  ephKemPubKey := .kemPub (.draw 0 .kem)
  nonce := .fresh (.draw 0 .nonce)

/-- The other node's answer to it, in session 1. -/
def honestWelcome : Welcome Bool where
  ephPubKey := .point {.draw 1 .secret}
  ephKemPubKey := .kemPub (.draw 1 .kem)
  nonce := .fresh (.draw 1 .nonce)
  kemCiphertext := .kemCt (.draw 0 .kem) (.draw 1 .coins)

/-- The exchange of the two, by the point they agree on. -/
def honestExchange (shared : Multiset (Name Bool)) : Exchange Bool where
  helloNonce := .fresh (.draw 0 .nonce)
  welcomeNonce := .fresh (.draw 1 .nonce)
  secret := deriveHandshakeSecret (.point shared)
    (.kemKey (.draw 0 .kem) (.draw 1 .coins))

/-- The caller's identity in it. -/
def honestIdentity : EncryptedIdentity Bool :=
  ownIdentity twoNodes false 0
    (honestExchange {.draw 1 .secret, .draw 0 .secret})

/-- The attacker passes everything on. -/
def directEvents : List (Event Bool) :=
  [.dial 0 false, .hello 1 true callerHello, .welcome 0 honestWelcome,
    .identity 1 honestIdentity]

theorem identity_session_bound_direct :
    ∃ s : Net Bool, Reach twoNodes (Discreet false) s
      ∧ s.sessions.get 1 = some ⟨true, .accepted
        (honestExchange {.draw 1 .secret, .draw 0 .secret})
        (signedHandshake twoNodes false 0)⟩
      ∧ ∃ j phase, s.sessions.get j = some ⟨false, phase⟩
        ∧ phase.sentIn = some
          (honestExchange {.draw 1 .secret, .draw 0 .secret}) := by
  have h₁ : Reach twoNodes (Discreet false) (netAfter directEvents 1) :=
    .step (e := .dial 0 false) .init nofun trivial
  have h₂ : Reach twoNodes (Discreet false) (netAfter directEvents 2) := by
    refine .step (e := .hello 1 true callerHello) h₁ ?_ trivial
    rintro t ⟨⟩
    exact .seen List.mem_cons_self
  have h₃ : Reach twoNodes (Discreet false) (netAfter directEvents 3) := by
    refine .step (e := .welcome 0 honestWelcome) h₂ ?_ ?_
    · rintro t ⟨⟩
      exact .seen List.mem_cons_self
    · intro _
      exact Or.inl ⟨_, rfl, _, Multiset.mem_singleton_self _, rfl⟩
  have h₄ : Reach twoNodes (Discreet false) (netAfter directEvents 4) := by
    refine .step (e := .identity 1 honestIdentity) h₃ ?_ ?_
    · rintro t ⟨⟩
      -- the caller has raised the other's point, and the other the caller's
      have hsame : honestIdentity = ownIdentity twoNodes false 0
          (honestExchange {.draw 0 .secret, .draw 1 .secret}) := by
        rw [honestIdentity, Multiset.pair_comm]
      rw [hsame]
      exact .seen List.mem_cons_self
    · rintro hello x ⟨⟩
  have haccepted : (netAfter directEvents 4).sessions.get 1
      = some ⟨true, .accepted
        (honestExchange {.draw 1 .secret, .draw 0 .secret})
        (signedHandshake twoNodes false 0)⟩ := rfl
  obtain ⟨j, phase, hget, hsent, -⟩ :=
    identity_session_bound twoNodes false _ h₄ 1 true _ _ haccepted rfl
  exact ⟨_, h₄, haccepted, j, phase, hget, hsent⟩

-- ========= the relay

/-- What the attacker answers it with. -/
def evilWelcome : Welcome Bool where
  ephPubKey := .point {.evil 0}
  ephKemPubKey := .kemPub (.evil 0)
  nonce := .fresh (.evil 0)
  kemCiphertext := .kemCt (.draw 0 .kem) (.evil 0)

def callerExchange : Exchange Bool where
  helloNonce := .fresh (.draw 0 .nonce)
  welcomeNonce := .fresh (.evil 0)
  secret := deriveHandshakeSecret
    (.point (.draw 0 .secret ::ₘ {.evil 0}))
    (.kemKey (.draw 0 .kem) (.evil 0))

/-- What the attacker calls the other node with. -/
def evilHello : Hello Bool where
  ephPubKey := .point {.evil 1}
  ephKemPubKey := .kemPub (.evil 1)
  nonce := .fresh (.evil 1)

/-- The other node's answer, in session 1. -/
def victimWelcome : Welcome Bool where
  ephPubKey := .point {.draw 1 .secret}
  ephKemPubKey := .kemPub (.draw 1 .kem)
  nonce := .fresh (.draw 1 .nonce)
  kemCiphertext := .kemCt (.evil 1) (.draw 1 .coins)

def victimExchange : Exchange Bool where
  helloNonce := .fresh (.evil 1)
  welcomeNonce := .fresh (.draw 1 .nonce)
  secret := deriveHandshakeSecret
    (.point (.draw 1 .secret ::ₘ {.evil 1}))
    (.kemKey (.evil 1) (.draw 1 .coins))

/-- The caller's identity, sealed again for session 1. -/
def relayedIdentity : EncryptedIdentity Bool :=
  encryptIdentity victimExchange (.fresh (.evil 2))
    (signedHandshake twoNodes false 0)

def relayEvents : List (Event Bool) :=
  [.dial 0 false, .welcome 0 evilWelcome, .hello 1 true evilHello,
    .identity 1 relayedIdentity]

section Relay

variable {known : List (Msg Bool)}

/-- Half of the caller's session is the attacker's. -/
theorem derives_callerKey (h : callerHello.term ∈ known) :
    Derives Name.own known callerExchange.authKey := by
  have hpoint : Derives Name.own known (.point {.draw 0 .secret}) :=
    .left (.seen h)
  have hkem : Derives Name.own known (.kemPub (.draw 0 .kem)) :=
    .left (.right (.seen h))
  exact .kdf _ (.kdf _ (.pair (.shared rfl hpoint)
    (.encapsulated rfl hkem)))

/-- So the attacker reads the identity that the caller sends. -/
theorem derives_callerIdentity (h : callerHello.term ∈ known)
    (henc : (ownIdentity twoNodes false 0 callerExchange).term ∈ known) :
    Derives Name.own known (signedHandshake twoNodes false 0).term :=
  .opened (.right (.seen henc)) (derives_callerKey h)

/-- Half of the other session is the attacker's too. -/
theorem derives_victimKey (h : victimWelcome.term ∈ known) :
    Derives Name.own known victimExchange.authKey := by
  have hpoint : Derives Name.own known (.point {.draw 1 .secret}) :=
    .left (.seen h)
  have hct : Derives Name.own known (.kemCt (.evil 1) (.draw 1 .coins)) :=
    .right (.right (.right (.seen h)))
  exact .kdf _ (.kdf _ (.pair (.shared rfl hpoint)
    (.decapsulated rfl hct)))

theorem derives_relayedIdentity (hhello : callerHello.term ∈ known)
    (henc : (ownIdentity twoNodes false 0 callerExchange).term ∈ known)
    (hwelcome : victimWelcome.term ∈ known) :
    Derives Name.own known relayedIdentity.term := by
  have hnonce : Derives Name.own known (.fresh (.draw 1 .nonce)) :=
    .left (.right (.right (.seen hwelcome)))
  have haad : Derives Name.own known victimExchange.aad :=
    .pair (.fresh rfl) hnonce
  exact .pair (.fresh rfl) (.aead (derives_victimKey hwelcome) (.fresh rfl)
    haad (derives_callerIdentity hhello henc))

end Relay

/-- What is sent on the way. -/
theorem relayed_sent : (netAfter relayEvents 3).sent
    = [victimWelcome.term,
      (ownIdentity twoNodes false 0 callerExchange).term,
      callerHello.term] := rfl

theorem relayed_sessions : (netAfter relayEvents 4).sessions
    = ((((∅ : FMap Nat (Session Bool)).insert 0
      ⟨false, .dialed⟩).insert 0
      ⟨false, .presented callerExchange⟩).insert 1
      ⟨true, .welcomed evilHello victimExchange⟩).insert 1
      ⟨true, .accepted victimExchange
        (signedHandshake twoNodes false 0)⟩ := rfl

/-- The relay is a run. -/
theorem reach_relayed :
    Reach twoNodes (fun _ _ => True) (netAfter relayEvents 4) := by
  have h₁ : Reach twoNodes (fun _ _ => True) (netAfter relayEvents 1) :=
    .step (e := .dial 0 false) .init nofun trivial
  have h₂ : Reach twoNodes (fun _ _ => True) (netAfter relayEvents 2) := by
    refine .step (e := .welcome 0 evilWelcome) h₁ ?_ trivial
    rintro t ⟨⟩
    have hkem : Derives Name.own (netAfter relayEvents 1).sent
        (.kemPub (.draw 0 .kem)) :=
      .left (.right (.seen List.mem_cons_self))
    exact .pair (.power rfl .base) (.pair (.kemPub rfl)
      (.pair (.fresh rfl) (.kemCt rfl hkem)))
  have h₃ : Reach twoNodes (fun _ _ => True) (netAfter relayEvents 3) := by
    refine .step (e := .hello 1 true evilHello) h₂ ?_ trivial
    rintro t ⟨⟩
    exact .pair (.power rfl .base) (.pair (.kemPub rfl) (.fresh rfl))
  refine .step (e := .identity 1 relayedIdentity) h₃ ?_ trivial
  rintro t ⟨⟩
  apply derives_relayedIdentity <;> rw [relayed_sent] <;> simp

/-- The caller has shown its identity to the attacker and to nobody else,
and the other node has accepted it in a session of the attacker's. -/
theorem identity_relayed :
    ∃ (s : Net Bool) (x : Exchange Bool) (hs : Handshake Bool),
      Reach twoNodes (fun _ _ => True) s
      ∧ s.sessions.get 1 = some ⟨true, .accepted x hs⟩
      ∧ hs.identityPublicKey = .verKey (.identity false)
      ∧ ¬ ∃ j phase, s.sessions.get j = some ⟨false, phase⟩
        ∧ phase.sentIn = some x := by
  refine ⟨netAfter relayEvents 4, victimExchange,
    signedHandshake twoNodes false 0, reach_relayed, rfl, rfl, ?_⟩
  rintro ⟨j, phase, hget, hsent⟩
  rw [relayed_sessions] at hget
  by_cases hvictim : j = 1
  · rw [hvictim, FMap.get_insert_self] at hget
    cases hget
  rw [FMap.get_insert_ne _ _ hvictim, FMap.get_insert_ne _ _ hvictim] at hget
  by_cases hcaller : j = 0
  · rw [hcaller, FMap.get_insert_self] at hget
    cases hget
    cases hsent
  · rw [FMap.get_insert_ne _ _ hcaller, FMap.get_insert_ne _ _ hcaller]
      at hget
    cases hget

-- ========== on bytes

/-- The last step of the relay on the transport's own programs, for any
primitives that work: a node takes an identity, whoever's it is, from a
caller that has sealed it with its own half of the secret. -/
theorem relay_on_bytes {P : Prims} (hdh : P.DhCommutes)
    (haead : P.AeadCorrect) {d : LinkDraws} {s : LinkState}
    {hs : StaticNet.Handshake} {kem : List UInt8}
    {hello : StaticNet.Hello} {m : Scalar} {kemSecret : List UInt8}
    {recvs between rest : List (List UInt8)}
    {cache : FMap (Bytes 32) Nat} (aeadNonce : NonceBytes)
    (hpoint : hello.ephPubKey = P.pointMul BASE_POINT m)
    (hpair : P.KemPair hello.ephKemPubKey kemSecret)
    (hsent : ∀ i, d.sendError i = none)
    (hhello : readWireMessage recvs = (some (.hello hello), between))
    (hopening : TransportState.checkNonceCache d.openingEnv hello.nonce
      s.handshakeNonces = (true, cache))
    (hverify : hs.verify P = true) (hkem : hs.kemPublicKey = some kem)
    (hlen : kem.length = KEM_PUBLIC_KEY_SIZE)
    (hsig : hs.signature.length = 64)
    (hfresh : (TransportState.checkNonceCache d.identityEnv hs.nonce
      cache).1 = true)
    (hknown : s.routingTable.continues hs = true) :
    ∃ kemShared ciphertext,
      P.encapsulateTo hello.ephKemPubKey d.coins
        = some (kemShared, ciphertext)
      ∧ P.decapsulateWith kemSecret ciphertext = some kemShared
      ∧ (readWireMessage between = (some (.authIdentity
          (StaticNet.encryptIdentity P
            (StaticNet.deriveHandshakeSecret P
              (P.pointMul (P.pointMul BASE_POINT d.secret) m) kemShared)
            aeadNonce hs (handshakeSessionAad hello.nonce d.nonce))), rest) →
        (authenticateClient P d recvs).out s = some (hs, rest)) := by
  obtain ⟨kemShared, ciphertext, hencaps, hdecaps⟩ :=
    hpair.inverts d.coins
  refine ⟨kemShared, ciphertext, hencaps, hdecaps, ?_⟩
  intro hanswer
  refine authenticateClient_alone hsent hhello hopening hencaps hanswer ?_
    hverify (by rw [hkem]; exact hlen) hfresh hknown
  rw [hpoint, dh_agrees hdh m d.secret]
  exact decryptIdentity_encryptIdentity haead hkem hlen hsig _ _ _

end StaticNet.Symbolic
