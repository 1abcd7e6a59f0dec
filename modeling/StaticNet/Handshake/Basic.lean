/-
Opening a connection: the encrypted handshake of
`static-mesh/src/transport.rs`, as programs over the transport state.

# What is a section

The bytes a peer sends and the secrets of a handshake belong to one
connection, so reading and decrypting are not sections. What the
programs share is behind a lock each: the nonce cache, the routing
table, the connection map, our keys. The check of a peer's keys against
the routing table and the insert of the peer are sections of their own,
with the answer to the peer between them.

A connection's bytes come in as the list of the results of `recv_bytes`;
when the list is at its end the peer has disconnected. A random secret
stands for its clamped scalar.
-/
import StaticNet.Swap.Handlers
import StaticNet.Wire.Framing

namespace StaticNet

open Proc

-- ======== identities

namespace Handshake

variable (P : Prims)

def signingBytes (hs : Handshake) : List UInt8 :=
  let kem := hs.kemPublicKey.getD []
  hs.nodeId.toList
    ++ (hs.publicKey.toList
    ++ (beBytes 2 kem.length
    ++ (kem
    ++ ([if hs.computeEnabled then 1 else 0]
    ++ ([hs.computeCapacity]
    ++ (hs.identityPublicKey.toList
    ++ hs.nonce.toList))))))

def verify (hs : Handshake) : Bool :=
  hs.signature.length == 64
    && P.edKeyOk hs.identityPublicKey
    && (hs.kemPublicKey.all fun kem => kem.length = KEM_PUBLIC_KEY_SIZE)
    && P.edVerify hs.identityPublicKey hs.signingBytes
      (Bytes.ofList 64 hs.signature)

/-- The entry a handshake's sender gets in the routing table. -/
def asKnown (hs : Handshake) (address : String) : KnownNode where
  nodeId := hs.nodeId
  publicKey := hs.publicKey
  address := address
  kemPublicKey := hs.kemPublicKey
  computeEnabled := hs.computeEnabled
  computeCapacity := hs.computeCapacity
  identityPublicKey := some hs.identityPublicKey

end Handshake

/-- Key continuity: a known node presents the mix key it is known under,
and the identity key if that is pinned. -/
def RoutingTable.continues (table : RoutingTable) (hs : Handshake) :
    Bool :=
  match table.getNode hs.nodeId with
  | none => true
  | some known =>
      known.publicKey == hs.publicKey
        && match known.identityPublicKey with
          | none => true
          | some stored => stored == hs.identityPublicKey

def HANDSHAKE_CONTEXT : String := "static-handshake-v1"

def deriveHandshakeSecret (P : Prims) (dh kem : SymmetricKey) :
    SymmetricKey := P.hybridSharedSecret dh kem HANDSHAKE_CONTEXT

-- ============= state

/-- The part of `TransportState` that opening a connection reads and
writes. -/
structure LinkState where
  nodeId : NodeId
  identityKey : SigningKey
  mixPublicKey : Bytes 32
  kemPublicKey : List UInt8
  computeEnabled : Bool
  computeCapacity : UInt8
  identityPublicKey : Bytes 32
  routingTable : RoutingTable
  handshakeNonces : FMap (Bytes 32) Nat
  connections : Finset NodeId
  peerActivity : FMap NodeId Nat
  previouslyConnected : Finset NodeId
  /-- the reconnections signalled to the runner -/
  inbound : List Handshake

/-- What a section of an opening connection does. -/
inductive LinkAct
  | nonces
  | keys
  /-- a handshake is checked against the routing table -/
  | check (hs : Handshake)
  /-- a handshake's sender is added to the routing table -/
  | add (hs : Handshake)
  | gossip (g : PeerGossip)
  | connections
  | activity
  | reconnected
  | send (msg : WireMessage)

/-- A program over the state of the links. -/
abbrev Link := Proc LinkAct LinkState

/-- What one connection draws: its ephemeral keys, the coins of its
encapsulation, its nonces; the clock at its nonce checks and at the end;
and the error of each send that fails. -/
structure LinkDraws where
  secret : Scalar
  kemPublic : List UInt8
  kemSecret : List UInt8
  coins : Bytes 32
  nonce : Bytes 32
  identityNonce : Bytes 32
  aeadNonce : NonceBytes
  openingEnv : Env
  identityEnv : Env
  connectedAt : Nat
  sendError : Nat → Option String

-- ===== the functions

variable (P : Prims)

/-- `check_handshake_nonce`. -/
def checkHandshakeNonce (env : Env) (nonce : Bytes 32) : Link Bool :=
  atom .nonces fun s =>
    let r := TransportState.checkNonceCache env nonce s.handshakeNonces
    (r.1, { s with handshakeNonces := r.2 })

/-- `verify_handshake`. -/
def verifyHandshake (env : Env) (hs : Handshake) : Link Bool := do
  if hs.verify P = false then return false
  if (hs.kemPublicKey.map List.length).getD 0 ≠ KEM_PUBLIC_KEY_SIZE then
    return false
  if (← checkHandshakeNonce env hs.nonce) = false then return false
  read (.check hs) fun s => s.routingTable.continues hs

/-- `signed_handshake`, under the nonce drawn for it. -/
def signedHandshake (nonce : Bytes 32) : Link Handshake := do
  let publicKey ← read .keys fun s => s.mixPublicKey
  let kem ← read .keys fun s => s.kemPublicKey
  read .keys fun s =>
    let hs : Handshake :=
      { nodeId := s.nodeId
        publicKey := publicKey
        kemPublicKey := some kem
        computeEnabled := s.computeEnabled
        computeCapacity := s.computeCapacity
        identityPublicKey := s.identityPublicKey
        nonce := nonce
        signature := [] }
    { hs with
      signature := (P.edSign s.identityKey hs.signingBytes).toList }

/-- `send_wire_message`. The handshake messages all serialize. -/
def sendWireMessage (d : LinkDraws) (i : Nat) (msg : WireMessage) :
    Link (Option String) := do
  write (.send msg) id
  return d.sendError i

/-- `read_wire_message`: the message, and the results of `recv_bytes`
that it has not used. -/
def readWireMessage (recvs : List (List UInt8)) :
    Option WireMessage × List (List UInt8) :=
  Framing.nextFrom tryReadMessage [] recvs

/-- What a connection loop is started with. -/
structure Established where
  peer : NodeId
  recvs : List (List UInt8)
deriving DecidableEq

/-- What both sides do with an authenticated peer: routing table,
connection, activity, and the signal of a reconnection. -/
def registerPeer (d : LinkDraws) (address : String) (hs : Handshake) :
    Link Unit := do
  write (.add hs) fun s =>
    { s with routingTable := s.routingTable.addNode (hs.asKnown address) }
  write .connections fun s =>
    { s with connections := insert hs.nodeId s.connections }
  write .activity fun s =>
    { s with peerActivity := s.peerActivity.insert hs.nodeId d.connectedAt }
  let again ← atom .reconnected fun s =>
    (decide (hs.nodeId ∈ s.previouslyConnected),
      { s with previouslyConnected := s.previouslyConnected.erase hs.nodeId })
  if again = true then
    write .reconnected fun s => { s with inbound := s.inbound ++ [hs] }

/-- `handle_incoming_connection` up to its last message: the client's
identity, and what the client's bytes are read on from. -/
def authenticateClient (d : LinkDraws) (recvs : List (List UInt8)) :
    Link (Option (Handshake × List (List UInt8))) := do
  match readWireMessage recvs with
  | (some (.hello hello), recvs) =>
      if (← checkHandshakeNonce d.openingEnv hello.nonce) = false then
        return none
      match P.encapsulateTo hello.ephKemPubKey d.coins with
      | none => return none
      | some (kemShared, kemCiphertext) =>
          let secret := deriveHandshakeSecret P
            (P.pointMul hello.ephPubKey d.secret) kemShared
          let welcome : Welcome :=
            { ephPubKey := P.pointMul BASE_POINT d.secret
              ephKemPubKey := d.kemPublic
              nonce := d.nonce
              kemCiphertext := kemCiphertext }
          if (← sendWireMessage d 0 (.welcome welcome)).isSome then
            return none
          match readWireMessage recvs with
          | (some (.authIdentity enc), recvs) =>
              let aad := handshakeSessionAad hello.nonce d.nonce
              match decryptIdentity P secret enc aad with
              | none => return none
              | some hs =>
                  if (← verifyHandshake P d.identityEnv hs) = false then
                    return none
                  let ours ← signedHandshake P d.identityNonce
                  let enc := encryptIdentity P secret d.aeadNonce ours aad
                  if (← sendWireMessage d 1 (.authIdentity enc)).isSome then
                    return none
                  return some (hs, recvs)
          | _ => return none
  | _ => return none

/-- `handle_incoming_connection` with `finish_inbound_handshake`: what
the connection loop starts with, unless the handshake failed. -/
def handleIncomingConnection (d : LinkDraws) (address : String)
    (recvs : List (List UInt8)) : Link (Option Established) := do
  match ← authenticateClient P d recvs with
  | none => return none
  | some (hs, recvs) =>
      registerPeer d address hs
      return some ⟨hs.nodeId, recvs⟩

/-- `connect_to_peer` up to its last message, on a connection that is
open. -/
def authenticateServer (d : LinkDraws) (recvs : List (List UInt8)) :
    Link (Except String (Handshake × List (List UInt8))) := do
  let hello : Hello :=
    { ephPubKey := P.pointMul BASE_POINT d.secret
      ephKemPubKey := d.kemPublic
      nonce := d.nonce }
  match ← sendWireMessage d 0 (.hello hello) with
  | some e => return .error ("hello send: " ++ e)
  | none =>
  match readWireMessage recvs with
  | (some (.welcome welcome), recvs) =>
      if (← checkHandshakeNonce d.openingEnv welcome.nonce) = false then
        return .error "welcome nonce replay"
      match P.decapsulateWith d.kemSecret welcome.kemCiphertext with
      | none => return .error "KEM decapsulation failed"
      | some kemShared =>
          let secret := deriveHandshakeSecret P
            (P.pointMul welcome.ephPubKey d.secret) kemShared
          let aad := handshakeSessionAad d.nonce welcome.nonce
          let ours ← signedHandshake P d.identityNonce
          let enc := encryptIdentity P secret d.aeadNonce ours aad
          match ← sendWireMessage d 1 (.authIdentity enc) with
          | some e => return .error ("identity send: " ++ e)
          | none =>
          match readWireMessage recvs with
          | (some (.authIdentity enc), recvs) =>
              match decryptIdentity P secret enc aad with
              | none => return .error "server identity decrypt failed"
              | some hs =>
                  if (← verifyHandshake P d.identityEnv hs) = false then
                    return .error "bad server identity/KEM"
                  return .ok (hs, recvs)
          | (some _, _) => return .error "expected server identity"
          | (none, _) => return .error "peer disconnected"
  | (some _, _) => return .error "expected welcome"
  | (none, _) => return .error "peer disconnected"

def connectToPeer (d : LinkDraws) (address : String)
    (recvs : List (List UInt8)) : Link (Except String Established) := do
  match ← authenticateServer P d recvs with
  | .error e => return .error e
  | .ok (hs, recvs) =>
      registerPeer d address hs
      return .ok ⟨hs.nodeId, recvs⟩

/-- The read path of `connection_loop`: the messages handled, each with
the frame it was read from. -/
def connectionLoop (recvs : List (List UInt8)) :
    List (WireMessage × List UInt8) :=
  Framing.serve (Framing.withFrame tryReadMessage) [] recvs

/-- `handle_maintenance_gossip`. -/
def handleMaintenanceGossip (json : List KnownNode → List UInt8)
    (activityAt : Nat) (g : PeerGossip) : Link Unit := do
  write .activity fun s =>
    { s with peerActivity := s.peerActivity.insert g.fromNode activityAt }
  write (.gossip g) fun s =>
    { s with routingTable := s.routingTable.processGossip P json g }

-- ==== how a run ends

section ends

variable {P} {d : LinkDraws} {hs : Handshake}
  {recvs rest : List (List UInt8)}
  {tr : List (Step LinkAct LinkState)}

/-- Among these sections is one that found a table in which a handshake
continues what is known of its sender. -/
def Checked (hs : Handshake) (tr : List (Step LinkAct LinkState)) : Prop :=
  ∃ s, (.check hs, s) ∈ tr ∧ s.routingTable.continues hs = true

theorem Checked.mono {tr' : List (Step LinkAct LinkState)}
    (h : Checked hs tr) (hsub : tr ⊆ tr') : Checked hs tr' := by
  obtain ⟨s, hmem, hok⟩ := h
  exact ⟨s, hsub hmem, hok⟩

/-- Two handshake messages are read, and `rest` has not been received. -/
def ReadsTwo (recvs rest : List (List UInt8)) : Prop :=
  ∃ first second between,
    readWireMessage recvs = (some first, between)
      ∧ readWireMessage between = (some second, rest)

theorem verifyHandshake_ends {env : Env}
    (h : Ends (verifyHandshake P env hs) tr true) : Checked hs tr := by
  unfold verifyHandshake at h
  by_cases hverify : hs.verify P = false
  · rw [if_pos hverify] at h
    cases ends_pure h
  rw [if_neg hverify] at h
  by_cases hkem : (hs.kemPublicKey.map List.length).getD 0
      ≠ KEM_PUBLIC_KEY_SIZE
  · rw [if_pos hkem] at h
    cases ends_pure h
  rw [if_neg hkem] at h
  obtain ⟨fresh, tr₁, tr₂, rfl, -, h⟩ := ends_bind h
  cases fresh with
  | false => cases ends_pure h
  | true =>
      obtain ⟨s, rfl, hok⟩ := ends_read h
      exact ⟨s, List.mem_append_right _ List.mem_cons_self, hok.symm⟩

/-- A client is authenticated after two messages, and its handshake was
checked against the table. -/
theorem authenticateClient_ends
    (h : Ends (authenticateClient P d recvs) tr (some (hs, rest))) :
    ReadsTwo recvs rest ∧ Checked hs tr := by
  unfold authenticateClient at h
  rcases hfirst : readWireMessage recvs with ⟨_ | first, between⟩
  · rw [hfirst] at h
    cases ends_pure h
  rw [hfirst] at h
  cases first with
  | hello hello =>
      obtain ⟨fresh, tr₁, tr₂, rfl, -, h⟩ := ends_bind h
      cases fresh with
      | false => cases ends_pure h
      | true =>
          rcases hkem : P.encapsulateTo hello.ephKemPubKey d.coins with
            _ | ⟨kemShared, kemCiphertext⟩
          · rw [hkem] at h
            cases ends_pure h
          rw [hkem] at h
          obtain ⟨failed, tr₃, tr₄, rfl, -, h⟩ := ends_bind h
          cases failed with
          | some e => cases ends_pure h
          | none =>
              rcases hsecond : readWireMessage between with
                ⟨_ | second, rest'⟩
              · rw [hsecond] at h
                cases ends_pure h
              rw [hsecond] at h
              cases second with
              | authIdentity enc =>
                  dsimp only at h
                  generalize decryptIdentity P _ enc _ = plain at h
                  cases plain with
                  | none => cases ends_pure h
                  | some identity =>
                      obtain ⟨verdict, tr₅, tr₆, rfl, hv, h⟩ := ends_bind h
                      cases verdict with
                      | false => cases ends_pure h
                      | true =>
                          obtain ⟨ours, tr₇, tr₈, rfl, -, h⟩ := ends_bind h
                          obtain ⟨failed, tr₉, tr₁₀, rfl, -, h⟩ :=
                            ends_bind h
                          cases failed with
                          | some e => cases ends_pure h
                          | none =>
                              obtain ⟨rfl, rfl⟩ := Prod.mk.inj
                                (Option.some.inj (ends_pure h))
                              refine ⟨⟨_, _, between, hfirst, hsecond⟩, ?_⟩
                              refine (verifyHandshake_ends hv).mono ?_
                              intro x hx
                              simp [hx]
              | _ => cases ends_pure h
  | _ => cases ends_pure h

theorem authenticateServer_ends
    (h : Ends (authenticateServer P d recvs) tr (.ok (hs, rest))) :
    ReadsTwo recvs rest ∧ Checked hs tr := by
  unfold authenticateServer at h
  obtain ⟨failed, tr₁, tr₂, rfl, -, h⟩ := ends_bind h
  cases failed with
  | some e => cases ends_pure h
  | none =>
      rcases hfirst : readWireMessage recvs with ⟨_ | first, between⟩
      · rw [hfirst] at h
        cases ends_pure h
      rw [hfirst] at h
      cases first with
      | welcome welcome =>
          obtain ⟨fresh, tr₃, tr₄, rfl, -, h⟩ := ends_bind h
          cases fresh with
          | false => cases ends_pure h
          | true =>
              generalize P.decapsulateWith d.kemSecret
                welcome.kemCiphertext = kem at h
              cases kem with
              | none => cases ends_pure h
              | some kemShared =>
                  obtain ⟨ours, tr₅, tr₆, rfl, -, h⟩ := ends_bind h
                  obtain ⟨failed, tr₇, tr₈, rfl, -, h⟩ := ends_bind h
                  cases failed with
                  | some e => cases ends_pure h
                  | none =>
                      rcases hsecond : readWireMessage between with
                        ⟨_ | second, rest'⟩
                      · rw [hsecond] at h
                        cases ends_pure h
                      rw [hsecond] at h
                      cases second with
                      | authIdentity enc =>
                          dsimp only at h
                          generalize decryptIdentity P _ enc _ = plain at h
                          cases plain with
                          | none => cases ends_pure h
                          | some identity =>
                              obtain ⟨verdict, tr₉, tr₁₀, rfl, hv, h⟩ :=
                                ends_bind h
                              cases verdict with
                              | false => cases ends_pure h
                              | true =>
                                  obtain ⟨rfl, rfl⟩ := Prod.mk.inj
                                    (Except.ok.inj (ends_pure h))
                                  refine ⟨⟨_, _, between, hfirst, hsecond⟩,
                                    ?_⟩
                                  refine (verifyHandshake_ends hv).mono ?_
                                  intro x hx
                                  simp [hx]
                      | _ => cases ends_pure h
      | _ => cases ends_pure h

end ends

-- ===== run by itself

section alone

variable {P} {d : LinkDraws} {s : LinkState} {hs : Handshake}

/-- A signed handshake with a KEM key, a fresh nonce and the keys the
table knows is verified. -/
theorem verifyHandshake_alone {env : Env} (hverify : hs.verify P = true)
    (hkem : (hs.kemPublicKey.map List.length).getD 0
      = KEM_PUBLIC_KEY_SIZE)
    (hfresh : (TransportState.checkNonceCache env hs.nonce
      s.handshakeNonces).1 = true)
    (hknown : s.routingTable.continues hs = true) :
    (verifyHandshake P env hs).out s = true
      ∧ (verifyHandshake P env hs).post s
        = { s with handshakeNonces := (TransportState.checkNonceCache env
            hs.nonce s.handshakeNonces).2 } := by
  simp [verifyHandshake, checkHandshakeNonce, hverify, hkem, hfresh, hknown]

/-- Whoever has the secret can seal any handshake, and it opens. -/
theorem decryptIdentity_encryptIdentity (haead : P.AeadCorrect)
    {kem : List UInt8} (hkem : hs.kemPublicKey = some kem)
    (hlen : kem.length = KEM_PUBLIC_KEY_SIZE)
    (hsig : hs.signature.length = 64) (secret : SymmetricKey)
    (nonce : NonceBytes) (aad : List UInt8) :
    decryptIdentity P secret (encryptIdentity P secret nonce hs aad) aad
      = some hs := by
  rw [decryptIdentity, encryptIdentity, Prims.decryptAad, Prims.encryptAad,
    haead.open_seal]
  dsimp only
  rw [deserializeHandshake_serialize hkem hlen hsig]
  rfl

/-- A server that is sent a hello and an identity in order gets the
client's. -/
theorem authenticateClient_alone {recvs between rest : List (List UInt8)}
    {hello : Hello} {kemShared : SymmetricKey} {ciphertext : List UInt8}
    {enc : EncryptedIdentity} {cache : FMap (Bytes 32) Nat}
    (hsent : ∀ i, d.sendError i = none)
    (hhello : readWireMessage recvs = (some (.hello hello), between))
    (hopening : TransportState.checkNonceCache d.openingEnv hello.nonce
      s.handshakeNonces = (true, cache))
    (hkem : P.encapsulateTo hello.ephKemPubKey d.coins
      = some (kemShared, ciphertext))
    (hanswer : readWireMessage between = (some (.authIdentity enc), rest))
    (hplain : decryptIdentity P (deriveHandshakeSecret P
        (P.pointMul hello.ephPubKey d.secret) kemShared) enc
      (handshakeSessionAad hello.nonce d.nonce) = some hs)
    (hverify : hs.verify P = true)
    (hlen : (hs.kemPublicKey.map List.length).getD 0
      = KEM_PUBLIC_KEY_SIZE)
    (hfresh : (TransportState.checkNonceCache d.identityEnv hs.nonce
      cache).1 = true)
    (hknown : s.routingTable.continues hs = true) :
    (authenticateClient P d recvs).out s = some (hs, rest) := by
  have hidentity := @verifyHandshake_alone P
    { s with handshakeNonces := cache } hs d.identityEnv hverify hlen
    hfresh hknown
  simp [authenticateClient, sendWireMessage, checkHandshakeNonce,
    signedHandshake, hsent, hhello, hopening, hkem, hanswer, hplain,
    hidentity]

/-- A dial whose two answers are in order gets the server's identity. -/
theorem authenticateServer_alone {recvs between rest : List (List UInt8)}
    {welcome : Welcome} {kemShared : SymmetricKey}
    {enc : EncryptedIdentity} {cache : FMap (Bytes 32) Nat}
    (hsent : ∀ i, d.sendError i = none)
    (hwelcome : readWireMessage recvs = (some (.welcome welcome), between))
    (hopening : TransportState.checkNonceCache d.openingEnv welcome.nonce
      s.handshakeNonces = (true, cache))
    (hkem : P.decapsulateWith d.kemSecret welcome.kemCiphertext
      = some kemShared)
    (hanswer : readWireMessage between = (some (.authIdentity enc), rest))
    (hplain : decryptIdentity P (deriveHandshakeSecret P
        (P.pointMul welcome.ephPubKey d.secret) kemShared) enc
      (handshakeSessionAad d.nonce welcome.nonce) = some hs)
    (hverify : hs.verify P = true)
    (hlen : (hs.kemPublicKey.map List.length).getD 0
      = KEM_PUBLIC_KEY_SIZE)
    (hfresh : (TransportState.checkNonceCache d.identityEnv hs.nonce
      cache).1 = true)
    (hknown : s.routingTable.continues hs = true) :
    (authenticateServer P d recvs).out s = .ok (hs, rest)
      ∧ (authenticateServer P d recvs).post s
        = { s with handshakeNonces := (TransportState.checkNonceCache
            d.identityEnv hs.nonce cache).2 } := by
  have hidentity := @verifyHandshake_alone P
    { s with handshakeNonces := cache } hs d.identityEnv hverify hlen
    hfresh hknown
  simp [authenticateServer, sendWireMessage, checkHandshakeNonce,
    signedHandshake, hsent, hwelcome, hopening, hkem, hanswer, hplain,
    hidentity]

end alone

end StaticNet
