/-
The primitives the node is built on, as parameters.

Hashing, key derivation, authenticated encryption, Ed25519, the
Montgomery ladder and ML-KEM come from third-party crates; the model
takes each as a function of the type the source calls it at and never
assumes more about it than a theorem's hypotheses say. What the
repository itself adds on top (subkeys, AAD-free encryption, the
size checks around ML-KEM, the hybrid combination) is defined here as
`static-crypto/src/lib.rs` has it.
-/
import StaticNet.Lib.Bytes
import Mathlib.Data.ZMod.Basic

namespace StaticNet

-- ======= identifiers

abbrev NodeId := Bytes 16

abbrev ChunkId := Bytes 32

abbrev ContentId := Bytes 32

/-- `SymmetricKey`: 32 raw bytes. -/
abbrev SymmetricKey := Bytes 32

/-- `NonceBytes`: a 12-byte ChaCha20-Poly1305 nonce. -/
abbrev NonceBytes := Bytes 12

/-- An Ed25519 signing key, as its 32-byte seed. -/
abbrev SigningKey := Bytes 32

def KEM_PUBLIC_KEY_SIZE : Nat := 1184

def KEM_CIPHERTEXT_SIZE : Nat := 1088

def KEM_SECRET_KEY_SIZE : Nat := 2400

/-- The order of the Curve25519 base point. -/
def groupOrder : Nat :=
  2 ^ 252 + 27742317777372353535851937790883648493

instance : NeZero groupOrder := ⟨by decide⟩

/-- A Curve25519 scalar, reduced modulo the group order. -/
abbrev Scalar := ZMod groupOrder

-- ======== primitives

/-- The third-party functions the node calls. -/
structure Prims where
  /-- `blake3::hash` -/
  blake3 : List UInt8 → Bytes 32
  /-- `blake3::keyed_hash` -/
  blake3Keyed : Bytes 32 → List UInt8 → Bytes 32
  /-- HKDF-SHA256 expansion of a key under a context string -/
  hkdf : Bytes 32 → String → Bytes 32
  /-- HKDF-SHA256 of salted key material (the hybrid combination) -/
  hkdfSalted : String → List UInt8 → String → Bytes 32
  /-- ChaCha20-Poly1305 encryption: key, nonce, plaintext, AAD -/
  aeadSeal : Bytes 32 → Bytes 12 → List UInt8 → List UInt8 → List UInt8
  /-- ChaCha20-Poly1305 decryption; `none` when the tag fails -/
  aeadOpen : Bytes 32 → Bytes 12 → List UInt8 → List UInt8 →
    Option (List UInt8)
  /-- `VerifyingKey::from_bytes` succeeds -/
  edKeyOk : Bytes 32 → Bool
  /-- Ed25519 verification of a 64-byte signature -/
  edVerify : Bytes 32 → List UInt8 → Bytes 64 → Bool
  /-- The public key of a signing key -/
  edPublic : SigningKey → Bytes 32
  /-- Ed25519 signing -/
  edSign : SigningKey → List UInt8 → Bytes 64
  /-- Montgomery point times scalar, without clamping -/
  pointMul : Bytes 32 → Scalar → Bytes 32
  /-- ML-KEM-768 encapsulation: public key and coins to ciphertext and
  shared secret -/
  kyberEncapsulate : Bytes 1184 → Bytes 32 →
    Option (Bytes 1088 × Bytes 32)
  /-- ML-KEM-768 decapsulation: ciphertext and secret key -/
  kyberDecapsulate : Bytes 1088 → Bytes 2400 → Option (Bytes 32)

namespace Prims

variable (P : Prims)

/-- `SymmetricKey::derive`. -/
def derive (k : SymmetricKey) (context : String) : SymmetricKey :=
  P.hkdf k context

/-- `encrypt_aad`. -/
def encryptAad (key : SymmetricKey) (nonce : NonceBytes)
    (plaintext aad : List UInt8) : List UInt8 :=
  P.aeadSeal key nonce plaintext aad

/-- `decrypt_aad`. -/
def decryptAad (key : SymmetricKey) (nonce : NonceBytes)
    (ciphertext aad : List UInt8) : Option (List UInt8) :=
  P.aeadOpen key nonce ciphertext aad

/-- `encrypt`: no associated data. -/
def encrypt (key : SymmetricKey) (nonce : NonceBytes)
    (plaintext : List UInt8) : List UInt8 :=
  P.aeadSeal key nonce plaintext []

/-- `decrypt`: no associated data. -/
def decrypt (key : SymmetricKey) (nonce : NonceBytes)
    (ciphertext : List UInt8) : Option (List UInt8) :=
  P.aeadOpen key nonce ciphertext []

/-- `Ed25519` verification the way every message type does it: the
signature has 64 bytes, the key parses, the signature verifies. -/
def edCheck (pk : Bytes 32) (msg sig : List UInt8) : Bool :=
  sig.length == 64 && P.edKeyOk pk && P.edVerify pk msg (Bytes.ofList 64 sig)

/-- `KemKeypair::encapsulate_to`: the shared secret and the ciphertext,
or nothing when the key has the wrong size or is refused. -/
def encapsulateTo (publicKey : List UInt8) (coins : Bytes 32) :
    Option (SymmetricKey × List UInt8) :=
  if publicKey.length ≠ KEM_PUBLIC_KEY_SIZE then none
  else
    (P.kyberEncapsulate (Bytes.ofList 1184 publicKey) coins).map
      fun r => (r.2, r.1.toList)

/-- `KemKeypair::decapsulate_with`. -/
def decapsulateWith (secret ciphertext : List UInt8) :
    Option SymmetricKey :=
  if secret.length ≠ KEM_SECRET_KEY_SIZE then none
  else if ciphertext.length ≠ KEM_CIPHERTEXT_SIZE then none
  else
    P.kyberDecapsulate (Bytes.ofList 1088 ciphertext)
      (Bytes.ofList 2400 secret)

/-- `derive_hybrid_shared_secret`: both secrets under one HKDF. -/
def hybridSharedSecret (classical kem : SymmetricKey) (context : String) :
    SymmetricKey :=
  P.hkdfSalted context (classical.toList ++ kem.toList) "static-hybrid-v1"

-- ============== laws

/-- What the AEAD promises: opening inverts sealing, and the tag is 16
bytes. -/
structure AeadCorrect : Prop where
  open_seal : ∀ key nonce plaintext aad,
    P.aeadOpen key nonce (P.aeadSeal key nonce plaintext aad) aad
      = some plaintext
  length_seal : ∀ key nonce plaintext aad,
    (P.aeadSeal key nonce plaintext aad).length = 16 + plaintext.length

/-- A KEM key pair: whatever is encapsulated to the public key, the
secret key decapsulates. -/
structure KemPair (publicKey secret : List UInt8) : Prop where
  public_length : publicKey.length = KEM_PUBLIC_KEY_SIZE
  inverts : ∀ coins, ∃ kem ciphertext,
    P.encapsulateTo publicKey coins = some (kem, ciphertext)
      ∧ P.decapsulateWith secret ciphertext = some kem

-- ==== a concrete instance

/-- The scalar a little-endian point encoding stands for. -/
def pointScalar (p : Bytes 32) : Scalar := (ofBeBytes p.toList.reverse : Nat)

/-- A point in the transparent instance: its discrete logarithm. -/
def scalarPoint (x : Scalar) : Bytes 32 := Bytes.ofList 32 (leBytes 32 x.val)

/-- The tag of the transparent AEAD: the nonce and a piece of the key. -/
def plainTag (k : Bytes 32) (n : Bytes 12) : List UInt8 :=
  n.toList ++ k.toList.take 4

/-- A transparent instance of the primitives, to run the model on fixed
inputs: every function has the sizes and the inverses of the real one
and hides nothing. -/
def plain : Prims where
  blake3 l := Bytes.ofList 32 l
  blake3Keyed k _ := k
  hkdf k _ := k
  hkdfSalted _ ikm _ := Bytes.ofList 32 ikm
  aeadSeal k n pt _ := pt ++ plainTag k n
  aeadOpen k n ct _ :=
    if ct.drop (ct.length - 16) = plainTag k n then
      some (ct.take (ct.length - 16))
    else none
  edKeyOk _ := true
  edVerify pk msg sig :=
    sig = Bytes.ofList 64 (pk.toList ++ (Bytes.ofList 32 msg).toList)
  edPublic sk := sk
  edSign sk msg :=
    Bytes.ofList 64 (sk.toList ++ (Bytes.ofList 32 msg).toList)
  pointMul p a := scalarPoint (pointScalar p * a)
  kyberEncapsulate _ coins := some (Bytes.ofList 1088 coins.toList, coins)
  kyberDecapsulate ct _ := some (Bytes.ofList 32 ct.toList)

/-- A private key of the instance. -/
def someKey : Scalar := ((3 : Nat) : Scalar)

theorem plain_aeadCorrect : plain.AeadCorrect := by
  have htag : ∀ k n, (plainTag k n).length = 16 := by
    intro k n
    simp [plainTag]
  refine ⟨?_, ?_⟩
  · intro key nonce plaintext aad
    have hcut : (plaintext ++ plainTag key nonce).length - 16
        = plaintext.length := by
      rw [List.length_append, htag, Nat.add_sub_cancel]
    simp only [plain, hcut, List.drop_left, if_true, List.take_left]
  · intro key nonce plaintext aad
    rw [plain, List.length_append, htag, Nat.add_comm]

/-- Every key verifies its own signatures. -/
theorem plain_edVerify (key : SigningKey) (msg : List UInt8) :
    plain.edVerify (plain.edPublic key) msg (plain.edSign key msg) = true :=
  decide_eq_true rfl

theorem plain_kemPair {publicKey secret : List UInt8}
    (hpublic : publicKey.length = KEM_PUBLIC_KEY_SIZE)
    (hsecret : secret.length = KEM_SECRET_KEY_SIZE) :
    plain.KemPair publicKey secret := by
  refine ⟨hpublic, fun coins => ⟨coins,
    (Bytes.ofList 1088 coins.toList).toList, ?_, ?_⟩⟩
  · simp only [encapsulateTo, hpublic, ne_eq, not_true_eq_false, if_false]
    rfl
  · have hct : (Bytes.ofList 1088 coins.toList).toList.length
        = KEM_CIPHERTEXT_SIZE := Bytes.length_toList _
    have hread : Bytes.ofList 32 (Bytes.ofList 1088 coins.toList).toList
        = coins := Bytes.ofList_ofList (by decide) coins
    simp only [decapsulateWith, hsecret, hct, ne_eq, not_true_eq_false,
      if_false, plain, Bytes.ofList_toList, hread]

/-- A point's encoding determines its scalar. -/
theorem pointScalar_scalarPoint (x : Scalar) :
    pointScalar (scalarPoint x) = x := by
  have hval : x.val < 256 ^ 32 :=
    Nat.lt_trans (ZMod.val_lt x) (by decide)
  have hle : (leBytes 32 x.val).reverse = beBytes 32 x.val := by
    rw [leBytes, List.reverse_reverse]
  rw [pointScalar, scalarPoint, Bytes.toList_ofList (length_leBytes _ _),
    hle, ofBeBytes_beBytes_of_lt hval, ZMod.natCast_zmod_val]

end Prims

end StaticNet
