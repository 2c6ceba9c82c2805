import Boson.Message.Json
import Boson.Value

/-!
# Keys and boxes (`src/core/crypto/crypto_box.cc`, `src/core/crypto/signature.cc`)

A key pair for signatures gives one for boxes (`KeyPair.fromSignatureKeyPair`), and the id of its
owner the public key of it (`Id.toEncryptionKey`). Two parties that have each other's public key can
seal and open boxes for each other. The functions of libsodium are a parameter (`NaCl`);
`NaCl.Lawful` is what its documentation says of them.

* `CryptoBox.decrypt_encrypt`: what one party seals for the other, the other opens.
-/

namespace Boson

/-- What keys, boxes and signatures take from libsodium. A function that does not return 0 gives
`none`. -/
structure NaCl where
  /-- `crypto_sign_seed_keypair`: the private key. -/
  seedKeypair : Bytes 32 → PrivateKey
  /-- `crypto_sign_ed25519_sk_to_pk`. -/
  skToPk : PrivateKey → Id
  /-- `crypto_sign_ed25519_sk_to_curve25519`. -/
  skToCurve25519 : PrivateKey → Bytes 32
  /-- `crypto_sign_ed25519_pk_to_curve25519`. -/
  pkToCurve25519 : Id → Option (Bytes 32)
  /-- `crypto_scalarmult_base`. -/
  scalarmultBase : Bytes 32 → Bytes 32
  /-- `crypto_box_beforenm(pk, sk)`. -/
  beforenm : Bytes 32 → Bytes 32 → Option (Bytes 32)
  /-- `crypto_box_easy_afternm(plain, nonce, key)`. -/
  easyAfternm : List UInt8 → Nonce → Bytes 32 → Option (List UInt8)
  /-- `crypto_box_open_easy_afternm(cipher, nonce, key)`. -/
  openEasyAfternm : List UInt8 → Nonce → Bytes 32 → Option (List UInt8)
  /-- `crypto_sign_detached(data, sk)`. -/
  signDetached : List UInt8 → PrivateKey → Bytes 64

namespace CryptoBox

/-- `CryptoBox::MAC_BYTES`. -/
def MAC_BYTES : Nat := 16

end CryptoBox

/-- What is documented of boxes: the keys of a generated key pair are converted to a key pair, both
parties compute the same key, and what is sealed is opened with the same nonce and key. -/
structure NaCl.Lawful (S : NaCl) : Prop where
  converts : ∀ seed, S.pkToCurve25519 (S.skToPk (S.seedKeypair seed)) =
    some (S.scalarmultBase (S.skToCurve25519 (S.seedKeypair seed)))
  agrees : ∀ a b, S.beforenm (S.scalarmultBase a) b = S.beforenm (S.scalarmultBase b) a
  opens : ∀ plain nonce key cipher, S.easyAfternm plain nonce key = some cipher →
    cipher.length = plain.length + CryptoBox.MAC_BYTES ∧
      S.openEasyAfternm cipher nonce key = some plain

/-- What is documented of signatures: the one that is made with a generated key pair verifies. -/
def NaCl.Signs (S : NaCl) (C : Crypto) : Prop :=
  ∀ data seed, C.verify data (S.signDetached data (S.seedKeypair seed)).data
    (S.skToPk (S.seedKeypair seed)) = true

/-- Functions that are lawful, with the private key in clear and the symmetric key a sum. -/
def clearNaCl : NaCl where
  seedKeypair seed := ⟨seed.data ++ seed.data, by simp [seed.size_eq]⟩
  skToPk sk := ⟨sk.data.drop 32, by simp [sk.size_eq]⟩
  skToCurve25519 sk := ⟨sk.data.take 32, by simp [sk.size_eq]⟩
  pkToCurve25519 pk := some ⟨pk.bytes, pk.size_eq⟩
  scalarmultBase sk := sk
  beforenm pk sk := some ⟨List.zipWith (· + ·) pk.data sk.data, by simp [pk.size_eq, sk.size_eq]⟩
  easyAfternm plain _ key := some (key.data.take 16 ++ plain)
  openEasyAfternm cipher _ key :=
    if cipher.take 16 = key.data.take 16 then some (cipher.drop 16) else none
  signDetached _ sk := sk

theorem lawful_clearNaCl : clearNaCl.Lawful where
  converts seed := by simp [clearNaCl, seed.size_eq]
  agrees a b := by simp [clearNaCl, List.zipWith_comm_of_comm UInt8.add_comm]
  opens plain nonce key cipher h := by
    cases h
    simp [clearNaCl, CryptoBox.MAC_BYTES, key.size_eq, Nat.add_comm]

variable (S : NaCl)

/-- `optional`, with the exception that is thrown where there is none. -/
def orThrow {α : Type} (what : String) : Option α → Except Fault α
  | some a => .ok a
  | none => .error (.exception what)

@[simp] theorem orThrow_eq_ok_iff {α : Type} {what : String} {o : Option α} {a : α} :
    orThrow what o = .ok a ↔ o = some a := by
  cases o <;> simp [orThrow]

/-- `Id::toEncryptionKey`. -/
def Id.toEncryptionKey (self : Id) : Except Fault (Bytes 32) :=
  orThrow "converts Ed25519 key to x25519 key failed." (S.pkToCurve25519 self)

namespace CryptoBox

/-- `CryptoBox::KeyPair`. -/
structure KeyPair where
  sk : Bytes 32
  pk : Bytes 32

/-- `CryptoBox::KeyPair` from a private key. -/
def KeyPair.ofPrivateKey (sk : Bytes 32) : KeyPair := ⟨sk, S.scalarmultBase sk⟩

/-- `CryptoBox::KeyPair::fromSignatureKeyPair`. -/
def KeyPair.fromSignatureKeyPair (signSk : PrivateKey) : KeyPair :=
  KeyPair.ofPrivateKey S (S.skToCurve25519 signSk)

/-- The constructor of `CryptoBox`: the symmetric key. -/
def new (pk sk : Bytes 32) : Except Fault (Bytes 32) :=
  orThrow "Compute symmetric key failed." (S.beforenm pk sk)

/-- `CryptoBox::encrypt` with the symmetric key. -/
def encryptWith (key : Bytes 32) (plain : List UInt8) (nonce : Nonce) : Except Fault (List UInt8) :=
  orThrow "Encrypt data failed." (S.easyAfternm plain nonce key)

/-- `CryptoBox::decrypt` with the symmetric key. The vector for the plain text has no length if
there is no room for the tag in the cipher text. -/
def decryptWith (key : Bytes 32) (cipher : List UInt8) (nonce : Nonce) :
    Except Fault (List UInt8) :=
  if cipher.length < MAC_BYTES then
    .error (.exception "cannot create std::vector larger than max_size()")
  else orThrow "Decrypt data failed." (S.openEasyAfternm cipher nonce key)

/-- `CryptoBox::encrypt` with the keys. `crypto_box_easy` computes the symmetric key itself. -/
def encrypt (plain : List UInt8) (nonce : Nonce) (pk sk : Bytes 32) : Except Fault (List UInt8) :=
  orThrow "Encrypt data failed." do S.easyAfternm plain nonce (← S.beforenm pk sk)

/-- `CryptoBox::decrypt` with the keys. -/
def decrypt (cipher : List UInt8) (pk sk : Bytes 32) (nonce : Nonce) : Except Fault (List UInt8) :=
  if cipher.length < MAC_BYTES then
    .error (.exception "cannot create std::vector larger than max_size()")
  else orThrow "Decrypt data failed." do S.openEasyAfternm cipher nonce (← S.beforenm pk sk)

variable {S : NaCl} {plain cipher : List UInt8} {nonce : Nonce} {key a b : Bytes 32}

theorem decryptWith_encryptWith (hS : S.Lawful) (h : encryptWith S key plain nonce = .ok cipher) :
    decryptWith S key cipher nonce = .ok plain := by
  obtain ⟨hlen, hopen⟩ := hS.opens plain nonce key cipher (orThrow_eq_ok_iff.mp h)
  rw [decryptWith, if_neg (by omega), orThrow_eq_ok_iff]
  exact hopen

/-- What is sealed for the owner of `a` with the key `b` is opened by the owner of `a`. -/
theorem decrypt_encrypt (hS : S.Lawful)
    (h : encrypt S plain nonce (S.scalarmultBase a) b = .ok cipher) :
    decrypt S cipher (S.scalarmultBase b) a nonce = .ok plain := by
  obtain ⟨key, hkey, hseal⟩ := Option.bind_eq_some_iff.mp (orThrow_eq_ok_iff.mp h)
  obtain ⟨hlen, hopen⟩ := hS.opens plain nonce key cipher hseal
  rw [decrypt, if_neg (by omega), orThrow_eq_ok_iff]
  exact Option.bind_eq_some_iff.mpr ⟨key, (hS.agrees b a).trans hkey, hopen⟩

end CryptoBox

end Boson
