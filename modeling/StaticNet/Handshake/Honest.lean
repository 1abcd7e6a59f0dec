/-
Two honest nodes and a connection between them: the handshake completes.

# What each hears

Each side reads what the other one sent, in whatever pieces. A node sends
its identity only after it has the other's greeting, so nothing comes
together with a greeting; what comes together with an identity is another
matter.

# What may go on

The programs are taken section by section, and anything can happen to the
two nodes between two sections, within what is expected of it
(`Undisturbed`): a node's own keys do not change, nobody else has used the
nonces of this handshake, and the routing table does not have the other
node under other keys when it is looked at.

# The end

Whatever the two make of it is what they make of it when everything goes
well: by the messages that each has sent so far, the other one gets on.
-/
import StaticNet.Handshake.Pins
import StaticNet.Swap.Proofs.Standing
import StaticNet.Sphinx.Layers
import StaticNet.Lib.Window

namespace StaticNet

open Proc Framing

-- ========= two nodes

/-- Who a node is to others. -/
structure Persona where
  nodeId : NodeId
  identityKey : SigningKey
  mixPublicKey : Bytes 32
  kemPublicKey : List UInt8
  computeEnabled : Bool
  computeCapacity : UInt8

section Personas

variable (P : Prims) (me : Persona)

/-- The handshake that it signs, under this nonce. -/
def Persona.handshake (nonce : Bytes 32) : Handshake :=
  let hs : Handshake :=
    { nodeId := me.nodeId
      publicKey := me.mixPublicKey
      kemPublicKey := some me.kemPublicKey
      computeEnabled := me.computeEnabled
      computeCapacity := me.computeCapacity
      identityPublicKey := P.edPublic me.identityKey
      nonce := nonce
      signature := [] }
  { hs with signature := (P.edSign me.identityKey hs.signingBytes).toList }

/-- The node has these keys. -/
structure LinkState.Is (s : LinkState) : Prop where
  nodeId : s.nodeId = me.nodeId
  identityKey : s.identityKey = me.identityKey
  mixPublicKey : s.mixPublicKey = me.mixPublicKey
  kemPublicKey : s.kemPublicKey = me.kemPublicKey
  computeEnabled : s.computeEnabled = me.computeEnabled
  computeCapacity : s.computeCapacity = me.computeCapacity
  identityPublicKey : s.identityPublicKey = P.edPublic me.identityKey

end Personas

def LinkAct.isNonces : LinkAct → Bool
  | .nonces => true
  | _ => false

/-- What a program has sent. -/
def sends (tr : LinkTrace) : List WireMessage :=
  tr.filterMap fun x =>
    match x.1 with
    | .send msg => some msg
    | _ => none

@[simp] theorem sends_append (tr tr' : LinkTrace) :
    sends (tr ++ tr') = sends tr ++ sends tr' :=
  List.filterMap_append

/-- What a handshake expects of what goes on meanwhile: `opening` is the
nonce of the other's greeting, `peer` its handshake. -/
structure Undisturbed (P : Prims) (me : Persona) (opening : Bytes 32)
    (peer : Handshake) (tr : LinkTrace) : Prop where
  self : ∀ x ∈ tr, x.2.Is P me
  /-- the first check of a nonce does not find that of the greeting -/
  opening : ∀ x, tr.find? (fun x => x.1.isNonces) = some x →
    x.2.handshakeNonces.contains opening = false
  identity : ∀ x ∈ tr, x.1 = .nonces →
    x.2.handshakeNonces.contains peer.nonce = false
  known : ∀ x ∈ tr, x.1 = .check peer →
    x.2.routingTable.continues peer = true

section Disturbance

variable {P : Prims} {me : Persona} {opening : Bytes 32} {peer : Handshake}
  {tr tr' : LinkTrace}

/-- A later part of a trace, for what is not about the first check. -/
structure Calm (P : Prims) (me : Persona) (peer : Handshake)
    (tr : LinkTrace) : Prop where
  self : ∀ x ∈ tr, x.2.Is P me
  identity : ∀ x ∈ tr, x.1 = .nonces →
    x.2.handshakeNonces.contains peer.nonce = false
  known : ∀ x ∈ tr, x.1 = .check peer →
    x.2.routingTable.continues peer = true

theorem Undisturbed.calm (h : Undisturbed P me opening peer tr) :
    Calm P me peer tr :=
  ⟨h.self, h.identity, h.known⟩

theorem Calm.left (h : Calm P me peer (tr ++ tr')) : Calm P me peer tr :=
  ⟨fun x hx => h.self x (List.mem_append_left _ hx),
    fun x hx => h.identity x (List.mem_append_left _ hx),
    fun x hx => h.known x (List.mem_append_left _ hx)⟩

theorem Calm.right (h : Calm P me peer (tr ++ tr')) : Calm P me peer tr' :=
  ⟨fun x hx => h.self x (List.mem_append_right _ hx),
    fun x hx => h.identity x (List.mem_append_right _ hx),
    fun x hx => h.known x (List.mem_append_right _ hx)⟩

theorem Undisturbed.left (h : Undisturbed P me opening peer (tr ++ tr')) :
    Undisturbed P me opening peer tr where
  self := h.calm.left.self
  opening := fun x hx => h.opening x (by rw [List.find?_append, hx]; rfl)
  identity := h.calm.left.identity
  known := h.calm.left.known

/-- Behind a part without a check, the first check is still the first. -/
theorem Undisturbed.right (h : Undisturbed P me opening peer (tr ++ tr'))
    (hnone : ∀ x ∈ tr, x.1.isNonces = false) :
    Undisturbed P me opening peer tr' where
  self := h.calm.right.self
  opening := fun x hx => by
    refine h.opening x ?_
    rw [List.find?_append, List.find?_eq_none.2 fun y hy => by
      rw [hnone y hy]
      exact Bool.false_ne_true]
    exact hx
  identity := h.calm.right.identity
  known := h.calm.right.known

end Disturbance

-- ====== the sections

section Sections

variable {P : Prims} {me : Persona} {opening : Bytes 32} {peer : Handshake}
  {d : LinkDraws} {tr : LinkTrace}

/-- A nonce that is not in the cache is accepted. -/
theorem checkNonceCache_unseen {env : Env} {nonce : Bytes 32}
    {cache : FMap (Bytes 32) Nat} (h : cache.contains nonce = false) :
    (TransportState.checkNonceCache env nonce cache).1 = true := by
  have hnone : cache.get nonce = none := by
    unfold FMap.contains at h
    exact Option.not_isSome_iff_eq_none.1
      (by rw [h]; exact Bool.false_ne_true)
  have hforgot : (cache.retain fun _ ts =>
      env.now - ts ≤ HANDSHAKE_NONCE_TTL_SECS).contains nonce = false := by
    unfold FMap.contains
    rw [FMap.get_retain, hnone]
    rfl
  unfold TransportState.checkNonceCache
  dsimp only
  rw [hforgot]
  rfl

theorem checkHandshakeNonce_ends {env : Env} {nonce : Bytes 32} {b : Bool}
    (h : Ends (checkHandshakeNonce env nonce) tr b) :
    ∃ s, tr = [(.nonces, s)]
      ∧ (s.handshakeNonces.contains nonce = false → b = true) := by
  obtain ⟨s, rfl, rfl⟩ := ends_atom h
  exact ⟨s, rfl, checkNonceCache_unseen⟩

theorem sendWireMessage_ends {i : Nat} {msg : WireMessage}
    {e : Option String} (h : Ends (sendWireMessage d i msg) tr e) :
    (∃ s, tr = [(.send msg, s)]) ∧ e = d.sendError i := by
  unfold sendWireMessage at h
  obtain ⟨u, tr₁, tr₂, rfl, hsend, hend⟩ := ends_bind h
  obtain ⟨s, rfl⟩ := ends_write hsend
  have herror := ends_pure hend
  cases hend
  exact ⟨⟨s, rfl⟩, herror⟩

/-- A node signs its own keys. -/
theorem signedHandshake_ends {nonce : Bytes 32} {hs : Handshake}
    (h : Ends (signedHandshake P nonce) tr hs)
    (hself : ∀ x ∈ tr, x.2.Is P me) :
    hs = me.handshake P nonce ∧ sends tr = [] := by
  unfold signedHandshake at h
  obtain ⟨publicKey, tr₁, tr₂, rfl, hkey, h⟩ := ends_bind h
  obtain ⟨s₁, rfl, rfl⟩ := ends_read hkey
  obtain ⟨kem, tr₃, tr₄, rfl, hkem, h⟩ := ends_bind h
  obtain ⟨s₂, rfl, rfl⟩ := ends_read hkem
  obtain ⟨s₃, rfl, rfl⟩ := ends_read h
  have h₁ := hself (.keys, s₁) (by simp)
  have h₂ := hself (.keys, s₂) (by simp)
  have h₃ := hself (.keys, s₃) (by simp)
  refine ⟨?_, rfl⟩
  unfold Persona.handshake
  dsimp only
  rw [h₁.mixPublicKey, h₂.kemPublicKey, h₃.nodeId, h₃.identityKey,
    h₃.computeEnabled, h₃.computeCapacity, h₃.identityPublicKey]

/-- What an honest node signs verifies. -/
theorem Persona.handshake_verify (hsigns : P.Signs)
    (hkem : me.kemPublicKey.length = KEM_PUBLIC_KEY_SIZE)
    (nonce : Bytes 32) : (me.handshake P nonce).verify P = true := by
  let bare : Handshake := { me.handshake P nonce with signature := [] }
  have hcheck := hsigns me.identityKey bare.signingBytes
  unfold Prims.edCheck at hcheck
  rw [Bool.and_eq_true, Bool.and_eq_true] at hcheck
  obtain ⟨⟨hlen, hkey⟩, hsig⟩ := hcheck
  have hsize : (me.handshake P nonce).kemPublicKey.all
      (fun kem => kem.length = KEM_PUBLIC_KEY_SIZE) = true :=
    decide_eq_true hkem
  unfold Handshake.verify
  rw [hsize, Bool.and_true, Bool.and_eq_true, Bool.and_eq_true]
  exact ⟨⟨hlen, hkey⟩, hsig⟩

/-- An honest identity is verified, where its nonce is new and the table
does not have its node under other keys. -/
theorem verifyHandshake_honest {env : Env} {b : Bool}
    (h : Ends (verifyHandshake P env peer) tr b)
    (hverify : peer.verify P = true)
    (hkem : (peer.kemPublicKey.map List.length).getD 0
      = KEM_PUBLIC_KEY_SIZE)
    (hcalm : Calm P me peer tr) : b = true ∧ sends tr = [] := by
  unfold verifyHandshake at h
  rw [if_neg (by rw [hverify]; decide), if_neg (not_not.2 hkem)] at h
  obtain ⟨fresh, tr₁, tr₂, rfl, hnonce, h⟩ := ends_bind h
  obtain ⟨s, rfl, hfresh⟩ := checkHandshakeNonce_ends hnonce
  obtain rfl := hfresh (hcalm.identity (.nonces, s) List.mem_cons_self rfl)
  obtain ⟨s', rfl, rfl⟩ := ends_read h
  exact ⟨hcalm.known (.check peer, s') (by simp) rfl, rfl⟩

end Sections

-- ===== what is heard

/-- The bytes of a message, under this padding. -/
def frameBytes (pad : Nat → UInt8) (msg : WireMessage) : List UInt8 :=
  ((serializeMessage pad msg).toOption).getD []

/-- What is received of these messages and of what is sent behind them, in
any pieces but that nothing comes together with the first. -/
structure Hearing (pad : Nat → Nat → UInt8) (msgs : List WireMessage)
    (recvs : List (List UInt8)) : Prop where
  stream : ∃ later, recvs.flatten
    = (msgs.mapIdx fun i msg => frameBytes (pad i) msg).flatten ++ later
  alone : ∀ msg ∈ msgs.head?,
    Boundary recvs (frameBytes (pad 0) msg).length

theorem Hearing.reads {pad : Nat → Nat → UInt8} {msg : WireMessage}
    {msgs : List WireMessage} {recvs : List (List UInt8)}
    (h : Hearing pad (msg :: msgs) recvs) (hfits : msg.Fits) :
    ∃ between, readWireMessage recvs = (some msg, between)
      ∧ ∀ msg' msgs', msgs = msg' :: msgs' → msg'.Fits →
        ∃ rest, readWireMessage between = (some msg', rest) := by
  obtain ⟨later, hstream⟩ := h.stream
  rw [List.mapIdx_cons, List.flatten_cons, List.append_assoc] at hstream
  obtain ⟨taken, between, left, rfl, -, hleft, hread, hiff⟩ :=
    readWireMessage_frame (Frame.ofMessage (pad 0) msg hfits) hstream
  obtain rfl := hiff.2 (h.alone msg rfl)
  refine ⟨between, hread, ?_⟩
  rintro msg' msgs' rfl hfits'
  rw [List.nil_append, List.mapIdx_cons, List.flatten_cons,
    List.append_assoc] at hleft
  obtain ⟨-, rest, -, -, -, -, hread', -⟩ :=
    readWireMessage_frame (Frame.ofMessage (pad (0 + 1)) msg' hfits') hleft
  exact ⟨rest, hread'⟩

-- ===== the two sides

section Sides

variable (P : Prims)

def helloOf (d : LinkDraws) : Hello where
  ephPubKey := P.pointMul BASE_POINT d.secret
  ephKemPubKey := d.kemPublic
  nonce := d.nonce

def welcomeOf (d : LinkDraws) (kemCiphertext : List UInt8) : Welcome where
  ephPubKey := P.pointMul BASE_POINT d.secret
  ephKemPubKey := d.kemPublic
  nonce := d.nonce
  kemCiphertext := kemCiphertext

/-- The secret that a side derives. -/
def secretOf (d : LinkDraws) (ephPubKey : Bytes 32)
    (kemShared : SymmetricKey) : SymmetricKey :=
  deriveHandshakeSecret P (P.pointMul ephPubKey d.secret) kemShared

/-- Its identity, under that secret. -/
def sealedOf (me : Persona) (d : LinkDraws) (secret : SymmetricKey)
    (aad : List UInt8) : EncryptedIdentity :=
  encryptIdentity P secret d.aeadNonce (me.handshake P d.identityNonce) aad

variable {P} {me : Persona} {peer : Handshake} {d : LinkDraws}
  {tr : LinkTrace} {recvs between : List (List UInt8)}

/-- A server that hears a greeting answers it, and one that then hears the
client's identity sends its own. -/
theorem authenticateClient_hears {hello : Hello} {kemShared : SymmetricKey}
    {ct : List UInt8} {r : Option (Handshake × List (List UInt8))}
    (hverify : peer.verify P = true)
    (hlen : (peer.kemPublicKey.map List.length).getD 0
      = KEM_PUBLIC_KEY_SIZE)
    (hsent : ∀ i, d.sendError i = none)
    (hund : Undisturbed P me hello.nonce peer tr)
    (hhello : readWireMessage recvs = (some (.hello hello), between))
    (hkem : P.encapsulateTo hello.ephKemPubKey d.coins
      = some (kemShared, ct))
    (h : Ends (authenticateClient P d recvs) tr r) :
    (∃ later, sends tr = .welcome (welcomeOf P d ct) :: later)
      ∧ ∀ enc rest,
        readWireMessage between = (some (.authIdentity enc), rest) →
        decryptIdentity P (secretOf P d hello.ephPubKey kemShared) enc
          (handshakeSessionAad hello.nonce d.nonce) = some peer →
        r = some (peer, rest)
          ∧ sends tr = [.welcome (welcomeOf P d ct),
            .authIdentity (sealedOf P me d
              (secretOf P d hello.ephPubKey kemShared)
              (handshakeSessionAad hello.nonce d.nonce))] := by
  unfold authenticateClient at h
  rw [hhello] at h
  dsimp only at h
  obtain ⟨fresh, tr₁, tr₂, rfl, hcheck, hrest⟩ := ends_bind h
  obtain ⟨s, rfl, hfresh⟩ := checkHandshakeNonce_ends hcheck
  obtain rfl := hfresh (hund.opening (.nonces, s) rfl)
  have hcalm := hund.calm.right
  rw [if_neg Bool.noConfusion, hkem] at hrest
  dsimp only at hrest
  obtain ⟨failed, tr₃, tr₄, rfl, hsend, hrest'⟩ := ends_bind hrest
  obtain ⟨⟨s', rfl⟩, rfl⟩ := sendWireMessage_ends hsend
  rw [hsent] at hrest'
  refine ⟨⟨sends tr₄, rfl⟩, fun enc rest hanswer hopens => ?_⟩
  unfold secretOf at hopens
  rw [hanswer, if_neg (show ¬ (none : Option String).isSome = true from
    Bool.false_ne_true)] at hrest'
  dsimp only at hrest'
  rw [hopens] at hrest'
  dsimp only at hrest'
  obtain ⟨ok, tr₅, tr₆, rfl, hidentity, hrest'⟩ := ends_bind hrest'
  obtain ⟨rfl, hquiet⟩ := verifyHandshake_honest hidentity hverify hlen
    hcalm.right.left
  rw [if_neg Bool.noConfusion] at hrest'
  obtain ⟨ours, tr₇, tr₈, rfl, hsign, hrest'⟩ := ends_bind hrest'
  obtain ⟨rfl, hquiet'⟩ := signedHandshake_ends hsign
    hcalm.right.right.left.self
  obtain ⟨failed, tr₉, tr₁₀, rfl, hsend', hend⟩ := ends_bind hrest'
  obtain ⟨⟨s'', rfl⟩, rfl⟩ := sendWireMessage_ends hsend'
  rw [hsent, if_neg (show ¬ (none : Option String).isSome = true from
    Bool.false_ne_true)] at hend
  have hdone := ends_pure hend
  cases hend
  refine ⟨hdone, ?_⟩
  rw [sends_append, sends_append, sends_append, sends_append, sends_append,
    hquiet, hquiet']
  rfl

/-- A client greets at once; it answers a greeting with its identity, and is
done when it then hears the server's. -/
theorem authenticateServer_hears (me : Persona)
    (between : List (List UInt8))
    {r : Except String (Handshake × List (List UInt8))}
    (hverify : peer.verify P = true)
    (hlen : (peer.kemPublicKey.map List.length).getD 0
      = KEM_PUBLIC_KEY_SIZE)
    (hsent : ∀ i, d.sendError i = none)
    (h : Ends (authenticateServer P d recvs) tr r) :
    (∃ later, sends tr = .hello (helloOf P d) :: later)
      ∧ ∀ welcome kemShared,
        readWireMessage recvs = (some (.welcome welcome), between) →
        Undisturbed P me welcome.nonce peer tr →
        P.decapsulateWith d.kemSecret welcome.kemCiphertext
          = some kemShared →
        (∃ later, sends tr = .hello (helloOf P d)
          :: .authIdentity (sealedOf P me d
            (secretOf P d welcome.ephPubKey kemShared)
            (handshakeSessionAad d.nonce welcome.nonce)) :: later)
        ∧ ∀ enc rest,
          readWireMessage between = (some (.authIdentity enc), rest) →
          decryptIdentity P (secretOf P d welcome.ephPubKey kemShared) enc
            (handshakeSessionAad d.nonce welcome.nonce) = some peer →
          r = .ok (peer, rest) ∧ sends tr = [.hello (helloOf P d),
            .authIdentity (sealedOf P me d
              (secretOf P d welcome.ephPubKey kemShared)
              (handshakeSessionAad d.nonce welcome.nonce))] := by
  unfold authenticateServer at h
  obtain ⟨failed, tr₁, tr₂, rfl, hsend, hrest⟩ := ends_bind h
  obtain ⟨⟨s, rfl⟩, rfl⟩ := sendWireMessage_ends hsend
  rw [hsent] at hrest
  dsimp only at hrest
  refine ⟨⟨sends tr₂, rfl⟩, fun welcome kemShared hwelcome hund hkem => ?_⟩
  have hund' := hund.right (by simp [LinkAct.isNonces])
  rw [hwelcome] at hrest
  dsimp only at hrest
  obtain ⟨fresh, tr₃, tr₄, rfl, hcheck, hrest⟩ := ends_bind hrest
  obtain ⟨s', rfl, hfresh⟩ := checkHandshakeNonce_ends hcheck
  obtain rfl := hfresh (hund'.opening (.nonces, s') rfl)
  have hcalm := hund'.calm.right
  rw [if_neg Bool.noConfusion, hkem] at hrest
  dsimp only at hrest
  obtain ⟨ours, tr₅, tr₆, rfl, hsign, hrest⟩ := ends_bind hrest
  obtain ⟨rfl, hquiet⟩ := signedHandshake_ends hsign hcalm.left.self
  obtain ⟨failed, tr₇, tr₈, rfl, hsend', hrest⟩ := ends_bind hrest
  obtain ⟨⟨s'', rfl⟩, rfl⟩ := sendWireMessage_ends hsend'
  rw [hsent] at hrest
  dsimp only at hrest
  constructor
  · refine ⟨sends tr₈, ?_⟩
    rw [sends_append, sends_append, sends_append, sends_append, hquiet]
    rfl
  · intro enc rest hanswer hopens
    unfold secretOf at hopens
    rw [hanswer] at hrest
    dsimp only at hrest
    rw [hopens] at hrest
    dsimp only at hrest
    obtain ⟨ok, tr₉, tr₁₀, rfl, hidentity, hend⟩ := ends_bind hrest
    obtain ⟨rfl, hquiet'⟩ := verifyHandshake_honest hidentity hverify hlen
      hcalm.right.right.left
    have hdone := ends_pure hend
    cases hend
    refine ⟨hdone, ?_⟩
    rw [sends_append, sends_append, sends_append, sends_append, sends_append,
      hquiet, hquiet']
    rfl

/-- An authenticated peer is added to the table, and nothing is sent. -/
theorem registerPeer_ends {address : String} {u : Unit}
    (h : Ends (registerPeer d address peer) tr u) :
    sends tr = [] ∧ ∃ s, (.add peer, s) ∈ tr := by
  unfold registerPeer at h
  obtain ⟨u₁, tr₁, tr₂, rfl, hadd, hrest₁⟩ := ends_bind h
  obtain ⟨s₁, rfl⟩ := ends_write hadd
  obtain ⟨u₂, tr₃, tr₄, rfl, hconn, hrest₂⟩ := ends_bind hrest₁
  obtain ⟨s₂, rfl⟩ := ends_write hconn
  obtain ⟨u₃, tr₅, tr₆, rfl, hact, hrest₃⟩ := ends_bind hrest₂
  obtain ⟨s₃, rfl⟩ := ends_write hact
  obtain ⟨again, tr₇, tr₈, rfl, hagain, hrest₄⟩ := ends_bind hrest₃
  obtain ⟨s₄, rfl, rfl⟩ := ends_atom hagain
  refine ⟨?_, s₁, List.mem_cons_self⟩
  split at hrest₄
  · obtain ⟨s₅, rfl⟩ := ends_write hrest₄
    rfl
  · cases hrest₄
    rfl

/-- A connection is as far as its first part gets; then the peer is
registered. -/
theorem connectToPeer_ends {address : String}
    {r : Except String Established}
    (h : Ends (connectToPeer P d address recvs) tr r) :
    ∃ tr₁ tr₂ r₀, tr = tr₁ ++ tr₂ ∧ sends tr = sends tr₁
      ∧ Ends (authenticateServer P d recvs) tr₁ r₀
      ∧ ∀ hs rest, r₀ = .ok (hs, rest) →
        r = .ok ⟨hs.nodeId, rest⟩ ∧ ∃ s, (.add hs, s) ∈ tr := by
  obtain ⟨r₀, tr₁, tr₂, rfl, hfirst, hrest⟩ := ends_bind h
  cases r₀ with
  | error e =>
      cases hrest
      exact ⟨tr₁, [], _, rfl, by rw [List.append_nil], hfirst, nofun⟩
  | ok out =>
      obtain ⟨u, tr₃, tr₄, rfl, hregister, hend⟩ := ends_bind hrest
      obtain ⟨hquiet, s, hadd⟩ := registerPeer_ends hregister
      have hdone := ends_pure hend
      cases hend
      refine ⟨tr₁, _, _, rfl, ?_, hfirst, ?_⟩
      · rw [sends_append, sends_append, hquiet]
        exact List.append_nil _
      · rintro hs rest ⟨⟩
        exact ⟨hdone, s, by simp [hadd]⟩

theorem handleIncomingConnection_ends {address : String}
    {r : Option Established}
    (h : Ends (handleIncomingConnection P d address recvs) tr r) :
    ∃ tr₁ tr₂ r₀, tr = tr₁ ++ tr₂ ∧ sends tr = sends tr₁
      ∧ Ends (authenticateClient P d recvs) tr₁ r₀
      ∧ ∀ hs rest, r₀ = some (hs, rest) →
        r = some ⟨hs.nodeId, rest⟩ ∧ ∃ s, (.add hs, s) ∈ tr := by
  obtain ⟨r₀, tr₁, tr₂, rfl, hfirst, hrest⟩ := ends_bind h
  cases r₀ with
  | none =>
      cases hrest
      exact ⟨tr₁, [], _, rfl, by rw [List.append_nil], hfirst, nofun⟩
  | some out =>
      obtain ⟨u, tr₃, tr₄, rfl, hregister, hend⟩ := ends_bind hrest
      obtain ⟨hquiet, s, hadd⟩ := registerPeer_ends hregister
      have hdone := ends_pure hend
      cases hend
      refine ⟨tr₁, _, _, rfl, ?_, hfirst, ?_⟩
      · rw [sends_append, sends_append, hquiet]
        exact List.append_nil _
      · rintro hs rest ⟨⟩
        exact ⟨hdone, s, by simp [hadd]⟩

end Sides

-- ========== together

theorem sealedOf_fits {P : Prims} (haead : P.AeadCorrect) {me : Persona}
    (hkem : me.kemPublicKey.length = KEM_PUBLIC_KEY_SIZE) (d : LinkDraws)
    (secret : SymmetricKey) (aad : List UInt8) :
    (WireMessage.authIdentity (sealedOf P me d secret aad)).Fits :=
  encryptIdentity_fits haead rfl hkem

theorem sealedOf_opens {P : Prims} (haead : P.AeadCorrect) {me : Persona}
    (hkem : me.kemPublicKey.length = KEM_PUBLIC_KEY_SIZE) (d : LinkDraws)
    (secret : SymmetricKey) (aad : List UInt8) :
    decryptIdentity P secret (sealedOf P me d secret aad) aad
      = some (me.handshake P d.identityNonce) :=
  decryptIdentity_encryptIdentity haead rfl hkem (Bytes.length_toList _) _ _ _

theorem length_encapsulateTo {P : Prims} {publicKey : List UInt8}
    {coins : Bytes 32} {kem : SymmetricKey} {ct : List UInt8}
    (h : P.encapsulateTo publicKey coins = some (kem, ct)) :
    ct.length = KEM_CIPHERTEXT_SIZE := by
  unfold Prims.encapsulateTo at h
  split at h
  · cases h
  · obtain ⟨r, -, hr⟩ := Option.map_eq_some_iff.1 h
    rw [← (Prod.mk.inj hr).2]
    exact Bytes.length_toList _

/-- Both sides come to one secret. -/
theorem secretOf_agrees {P : Prims} (hdh : P.DhCommutes)
    (dc ds : LinkDraws) (kemShared : SymmetricKey) :
    secretOf P ds (P.pointMul BASE_POINT dc.secret) kemShared
      = secretOf P dc (P.pointMul BASE_POINT ds.secret) kemShared := by
  unfold secretOf
  rw [dh_agrees hdh]

/-- Whatever two honest nodes make of a connection over which each hears
what the other sends, they make a completed handshake of it, and each has
added the other under the keys that the other has. -/
theorem honest_handshake_completes (P : Prims) (haead : P.AeadCorrect)
    (hdh : P.DhCommutes) (hsigns : P.Signs) (client server : Persona)
    (hclient : client.kemPublicKey.length = KEM_PUBLIC_KEY_SIZE)
    (hserver : server.kemPublicKey.length = KEM_PUBLIC_KEY_SIZE)
    (dc ds : LinkDraws) (hkem : P.KemPair dc.kemPublic dc.kemSecret)
    (hserverKem : ds.kemPublic.length = KEM_PUBLIC_KEY_SIZE)
    (hsentc : ∀ i, dc.sendError i = none)
    (hsents : ∀ i, ds.sendError i = none) (toServer toClient : String)
    (pad pad' : Nat → Nat → UInt8) (recvsc recvss : List (List UInt8))
    (trc trs : LinkTrace) (rc : Except String Established)
    (rs : Option Established)
    (hc : Ends (connectToPeer P dc toServer recvsc) trc rc)
    (hs : Ends (handleIncomingConnection P ds toClient recvss) trs rs)
    (hundc : Undisturbed P client ds.nonce
      (server.handshake P ds.identityNonce) trc)
    (hunds : Undisturbed P server dc.nonce
      (client.handshake P dc.identityNonce) trs)
    (hheardc : Hearing pad (sends trs) recvsc)
    (hheards : Hearing pad' (sends trc) recvss) :
    (∃ rest, rc = .ok ⟨server.nodeId, rest⟩)
      ∧ (∃ rest, rs = some ⟨client.nodeId, rest⟩)
      ∧ (∃ s, (.add (server.handshake P ds.identityNonce), s) ∈ trc)
      ∧ ∃ s, (.add (client.handshake P dc.identityNonce), s) ∈ trs := by
  obtain ⟨trc₁, trc₂, rc₀, rfl, hsendsc, hc₁, hdonec⟩ :=
    connectToPeer_ends hc
  obtain ⟨trs₁, trs₂, rs₀, rfl, hsendss, hs₁, hdones⟩ :=
    handleIncomingConnection_ends hs
  rw [hsendss] at hheardc
  rw [hsendsc] at hheards
  have hlen : ∀ me : Persona, ∀ nonce,
      me.kemPublicKey.length = KEM_PUBLIC_KEY_SIZE →
        (((me.handshake P nonce).kemPublicKey.map List.length).getD 0)
          = KEM_PUBLIC_KEY_SIZE := fun me nonce h => h
  obtain ⟨kemShared, ct, henc, hdec⟩ := hkem.inverts ds.coins
  have hct := length_encapsulateTo henc
  -- the greeting is sent, heard and answered
  obtain ⟨later, hgreets⟩ := (authenticateServer_hears client []
    (server.handshake_verify hsigns hserver ds.identityNonce)
    (hlen server _ hserver) hsentc hc₁).1
  have hheards' := hheards
  rw [hgreets] at hheards'
  obtain ⟨betweens, hreads, hnexts⟩ := hheards'.reads hkem.public_length
  have hserverSide := authenticateClient_hears
    (client.handshake_verify hsigns hclient dc.identityNonce)
    (hlen client _ hclient) hsents hunds.left hreads henc hs₁
  obtain ⟨later', hanswers⟩ := hserverSide.1
  have hheardc' := hheardc
  rw [hanswers] at hheardc'
  obtain ⟨betweenc, hreadc, hnextc⟩ := hheardc'.reads ⟨hserverKem, hct⟩
  -- so the client sends its identity
  have hclientSide := (authenticateServer_hears client _
    (server.handshake_verify hsigns hserver ds.identityNonce)
    (hlen server _ hserver) hsentc hc₁).2 _ kemShared hreadc hundc.left hdec
  obtain ⟨later'', hidentifies⟩ := hclientSide.1
  obtain rfl : later = _ :: later'' :=
    (List.cons.inj (hgreets.symm.trans hidentifies)).2
  obtain ⟨rests, hreads'⟩ := hnexts _ _ rfl (sealedOf_fits haead hclient _ _ _)
  -- the server opens it, and sends its own
  have hsecret := secretOf_agrees hdh dc ds kemShared
  obtain ⟨rfl, hidentified⟩ := hserverSide.2 _ rests hreads' (by
    rw [show (helloOf P dc).ephPubKey = P.pointMul BASE_POINT dc.secret
      from rfl, hsecret]
    exact sealedOf_opens haead hclient dc _ _)
  obtain rfl : later' = [_] :=
    (List.cons.inj (hanswers.symm.trans hidentified)).2
  obtain ⟨restc, hreadc'⟩ := hnextc _ _ rfl
    (sealedOf_fits haead hserver _ _ _)
  -- and the client opens that
  obtain ⟨hdone, -⟩ := hclientSide.2 _ restc hreadc' (by
    rw [show (welcomeOf P ds ct).ephPubKey = P.pointMul BASE_POINT ds.secret
      from rfl, ← hsecret]
    exact sealedOf_opens haead hserver ds _ _)
  obtain ⟨hrc, haddc⟩ := hdonec _ _ hdone
  obtain ⟨hrs, hadds⟩ := hdones _ _ rfl
  exact ⟨⟨restc, hrc⟩, ⟨rests, hrs⟩, haddc, hadds⟩

-- ====== a connection

/-- A run in which every section finds the same state. -/
def steadyRun {ℓ σ α : Type} (s : σ) : Proc ℓ σ α → List (Step ℓ σ) × α
  | .ret a => ([], a)
  | .sec l _ next =>
      let later := steadyRun s (next s)
      ((l, s) :: later.1, later.2)

theorem ends_steadyRun {ℓ σ α : Type} (s : σ) (p : Proc ℓ σ α) :
    Ends p (steadyRun s p).1 (steadyRun s p).2 := by
  induction p with
  | ret a => exact .ret a
  | sec l upd next ih => exact .sec s (ih s)

theorem mem_steadyRun {ℓ σ α : Type} {s : σ} {p : Proc ℓ σ α} {x : Step ℓ σ}
    (h : x ∈ (steadyRun s p).1) : x.2 = s := by
  induction p with
  | ret a => cases h
  | sec l upd next ih =>
      rcases List.mem_cons.1 h with rfl | h
      · rfl
      · exact ih s h

/-- A node that has just started. -/
def Persona.link (P : Prims) (me : Persona) : LinkState where
  nodeId := me.nodeId
  identityKey := me.identityKey
  mixPublicKey := me.mixPublicKey
  kemPublicKey := me.kemPublicKey
  computeEnabled := me.computeEnabled
  computeCapacity := me.computeCapacity
  identityPublicKey := P.edPublic me.identityKey
  routingTable := .new me.nodeId
  handshakeNonces := ∅
  connections := ∅
  peerActivity := ∅
  previouslyConnected := ∅
  inbound := []

theorem undisturbed_steadyRun (P : Prims) (me : Persona) (opening : Bytes 32)
    (peer : Handshake) {α : Type} (p : Link α) :
    Undisturbed P me opening peer (steadyRun (me.link P) p).1 where
  self := fun x hx => by
    rw [mem_steadyRun hx]
    exact ⟨rfl, rfl, rfl, rfl, rfl, rfl, rfl⟩
  opening := fun x hx => by
    rw [mem_steadyRun (List.mem_of_find?_eq_some hx)]
    rfl
  identity := fun x hx _ => by
    rw [mem_steadyRun hx]
    rfl
  known := fun x hx _ => by
    rw [mem_steadyRun hx]
    rfl

/-- Two messages, each in a piece of its own. -/
theorem hearing_pair (pad : Nat → Nat → UInt8) (msg msg' : WireMessage) :
    Hearing pad [msg, msg'] [frameBytes (pad 0) msg, frameBytes (pad 1) msg']
    where
  stream := ⟨[], (List.append_nil _).symm⟩
  alone := by
    rintro _ ⟨⟩
    exact ⟨[frameBytes (pad 0) msg], ⟨_, rfl⟩, by
      rw [List.flatten_singleton]⟩

def numberedPersona (k : UInt8) : Persona where
  nodeId := Bytes.fill 16 k
  identityKey := Bytes.fill 32 k
  mixPublicKey := Bytes.fill 32 k
  kemPublicKey := List.replicate 1184 0
  computeEnabled := false
  computeCapacity := 0

def numberedDraws (k : UInt8) : LinkDraws :=
  { quietDial with
    nonce := Bytes.fill 32 k
    identityNonce := Bytes.fill 32 (k + 1) }

theorem readWireMessage_alone (pad : Nat → UInt8) (msg : WireMessage)
    (hfits : msg.Fits) (later : List (List UInt8)) :
    readWireMessage (frameBytes pad msg :: later) = (some msg, later) := by
  have h := readWireMessage_piece (Frame.ofMessage pad msg hfits) [] later
  rw [List.append_nil] at h
  exact h

/-- Two new nodes connect. -/
theorem honest_handshake_completes_new :
    ∃ recvsc recvss trc trs rest rest',
      Ends (connectToPeer .plain (numberedDraws 3) "" recvsc) trc
          (.ok ⟨Bytes.fill 16 2, rest⟩)
        ∧ Ends (handleIncomingConnection .plain (numberedDraws 5) "" recvss)
          trs (some ⟨Bytes.fill 16 1, rest'⟩) := by
  let client := numberedPersona 1
  let server := numberedPersona 2
  let dc := numberedDraws 3
  let ds := numberedDraws 5
  let pad : Nat → Nat → UInt8 := fun _ _ => 0
  have hkey : (List.replicate 1184 (0 : UInt8)).length
      = KEM_PUBLIC_KEY_SIZE := List.length_replicate
  have hpair : Prims.plain.KemPair dc.kemPublic dc.kemSecret :=
    Prims.plain_kemPair hkey List.length_replicate
  have haead := Prims.plain_aeadCorrect
  obtain ⟨kemShared, ct, henc, hdec⟩ := hpair.inverts ds.coins
  have hsecret := secretOf_agrees plain_dhCommutes dc ds kemShared
  let hello := helloOf .plain dc
  let welcome := welcomeOf .plain ds ct
  let aad := handshakeSessionAad dc.nonce ds.nonce
  let ours := sealedOf .plain client dc
    (secretOf .plain dc welcome.ephPubKey kemShared) aad
  let theirs := sealedOf .plain server ds
    (secretOf .plain ds hello.ephPubKey kemShared) aad
  have hours : (WireMessage.authIdentity ours).Fits :=
    sealedOf_fits haead hkey dc _ aad
  have htheirs : (WireMessage.authIdentity theirs).Fits :=
    sealedOf_fits haead hkey ds _ aad
  have hct := length_encapsulateTo henc
  let recvss := [frameBytes (pad 0) (.hello hello),
    frameBytes (pad 1) (.authIdentity ours)]
  let recvsc := [frameBytes (pad 0) (.welcome welcome),
    frameBytes (pad 1) (.authIdentity theirs)]
  let peerc := server.handshake .plain ds.identityNonce
  let peers := client.handshake .plain dc.identityNonce
  have hverifyc : peerc.verify .plain = true :=
    server.handshake_verify plain_signs hkey ds.identityNonce
  have hverifys : peers.verify .plain = true :=
    client.handshake_verify plain_signs hkey dc.identityNonce
  have hc := ends_steadyRun (client.link .plain)
    (connectToPeer .plain dc "" recvsc)
  have hs := ends_steadyRun (server.link .plain)
    (handleIncomingConnection .plain ds "" recvss)
  have hundc := undisturbed_steadyRun .plain client ds.nonce peerc
    (connectToPeer .plain dc "" recvsc)
  have hunds := undisturbed_steadyRun .plain server dc.nonce peers
    (handleIncomingConnection .plain ds "" recvss)
  -- what each of them sends
  have hsendss : sends (steadyRun (server.link .plain)
      (handleIncomingConnection .plain ds "" recvss)).1
      = [.welcome welcome, .authIdentity theirs] := by
    obtain ⟨tr₁, tr₂, r₀, htr, hsends, hfirst, -⟩ :=
      handleIncomingConnection_ends hs
    rw [hsends]
    rw [htr] at hunds
    refine ((authenticateClient_hears hverifys hkey (fun _ => rfl)
      hunds.left (readWireMessage_alone (pad 0) (.hello hello) hkey _)
      henc hfirst).2 ours [] ?_ ?_).2
    · exact readWireMessage_alone (pad 1) _ hours []
    · rw [show hello.ephPubKey = Prims.plain.pointMul BASE_POINT dc.secret
        from rfl, hsecret]
      exact sealedOf_opens haead hkey dc _ _
  have hsendsc : sends (steadyRun (client.link .plain)
      (connectToPeer .plain dc "" recvsc)).1
      = [.hello hello, .authIdentity ours] := by
    obtain ⟨tr₁, tr₂, r₀, htr, hsends, hfirst, -⟩ := connectToPeer_ends hc
    rw [hsends]
    rw [htr] at hundc
    refine (((authenticateServer_hears client _ hverifyc hkey (fun _ => rfl)
      hfirst).2 welcome kemShared
      (readWireMessage_alone (pad 0) (.welcome welcome)
        ⟨hkey, hct⟩ _) hundc.left hdec).2 theirs [] ?_ ?_).2
    · exact readWireMessage_alone (pad 1) _ htheirs []
    · rw [show welcome.ephPubKey = Prims.plain.pointMul BASE_POINT ds.secret
        from rfl, ← hsecret]
      exact sealedOf_opens haead hkey ds _ _
  obtain ⟨⟨rest, hrc⟩, ⟨rest', hrs⟩, -, -⟩ := honest_handshake_completes
    .plain haead plain_dhCommutes plain_signs client server hkey hkey dc ds
    hpair hkey (fun _ => rfl) (fun _ => rfl) "" "" pad pad recvsc recvss _ _
    _ _ hc hs hundc hunds (hsendss ▸ hearing_pair pad _ _)
    (hsendsc ▸ hearing_pair pad _ _)
  rw [hrc] at hc
  rw [hrs] at hs
  exact ⟨_, _, _, _, _, _, hc, hs⟩

end StaticNet
