import Boson.Crypto.Box
import Boson.Lib.LoadingCache

/-!
# The crypto contexts of a node (`src/core/crypto_context.*`, `src/core/crypto_cache.h`)

A node encrypts for another node, and decrypts from it, with a `CryptoContext`: the symmetric key of
the two and a nonce. The contexts are kept in a `CryptoCache` and made again when they have not been
used for a while.

* `CryptoCache.get_run`: whatever was done with the cache, a node gets the context that its keys
  make.
* `CryptoContext.of_symm`: the two nodes make the same context, with the same nonce, for each other.
* `Keys.decrypt_encrypt`: what one encrypts for the other, the other decrypts, whatever the caches
  of both went through.
* `Keys.encrypt_symm`: the nonce never changes, so equal packets look equal, also those that go the
  other way.
-/

namespace Boson

theorem Id.distance_comm (a b : Id) : a.distance b = b.distance a := by
  simp only [distance, UInt8.xor_comm]

/-- `Constants::KBUCKET_OLD_AND_STALE_TIME`, for which a context is kept. -/
def CryptoCache.TTL : Nat := 15 * 60 * 1000

/-- `CryptoContext`. -/
structure CryptoContext where
  box : Bytes 32
  nonce : Nonce
  deriving DecidableEq

namespace CryptoContext

variable (S : NaCl)

/-- The nonce of a context: the first bytes of the distance of the two public keys. -/
def nonceOf (sender receiver : Bytes 32) : Nonce :=
  ⟨(Id.distance ⟨sender.data, sender.size_eq⟩ ⟨receiver.data, receiver.size_eq⟩).bytes.take 24, by
    rw [List.length_take, Id.size_eq]
    rfl⟩

/-- `CryptoContext::CryptoContext`. -/
def of (pk : Bytes 32) (keypair : CryptoBox.KeyPair) : Except Fault CryptoContext := do
  let box ← CryptoBox.new S pk keypair.sk
  return { box, nonce := nonceOf keypair.pk pk }

/-- `CryptoContext::encrypt`. -/
def encrypt (self : CryptoContext) (plain : List UInt8) : Except Fault (List UInt8) :=
  CryptoBox.encryptWith S self.box plain self.nonce

/-- `CryptoContext::decrypt`. -/
def decrypt (self : CryptoContext) (cipher : List UInt8) : Except Fault (List UInt8) :=
  CryptoBox.decryptWith S self.box cipher self.nonce

theorem nonceOf_comm (a b : Bytes 32) : nonceOf a b = nonceOf b a := by
  ext1
  simp only [nonceOf, Id.distance_comm ⟨a.data, a.size_eq⟩]

variable {S : NaCl}

/-- Two parties make the same context for each other. -/
theorem of_symm (hS : S.Lawful) (a b : Bytes 32) :
    of S (S.scalarmultBase a) (.ofPrivateKey S b) = of S (S.scalarmultBase b)
      (.ofPrivateKey S a) := by
  simp only [of, CryptoBox.new, CryptoBox.KeyPair.ofPrivateKey, hS.agrees a b,
    nonceOf_comm (S.scalarmultBase a)]

end CryptoContext

/-- `CryptoCache`: the contexts by the ids of the nodes. -/
abbrev CryptoCache := LoadingCache.Cache Id CryptoContext Nat

namespace CryptoCache

variable (S : NaCl) (keypair : CryptoBox.KeyPair)

/-- `CryptoCache::load`. -/
def load (key : Id) : Except Fault CryptoContext := do
  let encryptedPublicKey ← key.toEncryptionKey S
  CryptoContext.of S encryptedPublicKey keypair

/-- The time at which a context that is used now is due. -/
def due (now : Nat) : Nat := now + TTL

/-- `LocadingCache::get`. -/
def get (self : CryptoCache) (key : Id) (now : Nat) : Option CryptoContext × CryptoCache :=
  LoadingCache.get (fun key => (load S keypair key).toOption) due self key now

/-- The cache after operations on it. -/
def run (ops : List (LoadingCache.Op Id Nat)) : CryptoCache :=
  LoadingCache.run (fun key => (load S keypair key).toOption) due ops

theorem get_run (ops : List (LoadingCache.Op Id Nat)) (key : Id) (now : Nat) :
    (get S keypair (run S keypair ops) key now).1 = (load S keypair key).toOption :=
  LoadingCache.get_run ops key now

end CryptoCache

theorem toOption_eq_some_iff {α : Type} {x : Except Fault α} {a : α} :
    x.toOption = some a ↔ x = .ok a := by
  cases x <;> simp [Except.toOption]

/-- The keys of a node, from the seed that its key pair was generated with. -/
structure Keys (S : NaCl) where
  seed : Bytes 32

namespace Keys

variable {S : NaCl}

/-- `Node::keyPair`. -/
def privateKey (self : Keys S) : PrivateKey := S.seedKeypair self.seed

/-- `Node::id`. -/
def id (self : Keys S) : Id := S.skToPk self.privateKey

/-- `Node::encryptionKeyPair`. -/
def encryptionKeyPair (self : Keys S) : CryptoBox.KeyPair := .fromSignatureKeyPair S self.privateKey

/-- `Node::encrypt` after operations on the cache of the node. `none` is an exception. -/
def encrypt (self : Keys S) (ops : List (LoadingCache.Op Id Nat)) (now : Nat) (recipient : Id)
    (plain : List UInt8) : Option (List UInt8) := do
  let ctx ← (CryptoCache.get S self.encryptionKeyPair (CryptoCache.run S self.encryptionKeyPair ops)
      recipient now).1
  (ctx.encrypt S plain).toOption

/-- `Node::decrypt` after operations on the cache of the node. -/
def decrypt (self : Keys S) (ops : List (LoadingCache.Op Id Nat)) (now : Nat) (sender : Id)
    (cipher : List UInt8) : Option (List UInt8) := do
  let ctx ← (CryptoCache.get S self.encryptionKeyPair (CryptoCache.run S self.encryptionKeyPair ops)
      sender now).1
  (ctx.decrypt S cipher).toOption

variable {a b : Keys S}

/-- The public key that others take from the id of a node is that of its key pair for boxes. -/
theorem toEncryptionKey_id (hS : S.Lawful) (a : Keys S) : a.id.toEncryptionKey S =
    .ok a.encryptionKeyPair.pk :=
  orThrow_eq_ok_iff.mpr (hS.converts a.seed)

theorem load_id (hS : S.Lawful) (a b : Keys S) :
    CryptoCache.load S a.encryptionKeyPair b.id = CryptoContext.of S b.encryptionKeyPair.pk
      a.encryptionKeyPair := by
  rw [CryptoCache.load, toEncryptionKey_id hS]
  rfl

/-- Two nodes have the same context for each other, or neither has one. -/
theorem load_symm (hS : S.Lawful) (a b : Keys S) :
    CryptoCache.load S a.encryptionKeyPair b.id = CryptoCache.load S b.encryptionKeyPair a.id := by
  rw [load_id hS, load_id hS]
  exact CryptoContext.of_symm hS _ _

theorem encrypt_eq_some_iff {ops : List (LoadingCache.Op Id Nat)} {now : Nat} {recipient : Id}
    {plain cipher : List UInt8} :
    a.encrypt ops now recipient plain = some cipher ↔
      ∃ ctx, CryptoCache.load S a.encryptionKeyPair recipient = .ok ctx ∧
        ctx.encrypt S plain = .ok cipher := by
  simp only [encrypt, CryptoCache.get_run, Option.bind_eq_bind, Option.bind_eq_some_iff,
    toOption_eq_some_iff]

theorem decrypt_eq_some_iff {ops : List (LoadingCache.Op Id Nat)} {now : Nat} {sender : Id}
    {plain cipher : List UInt8} :
    a.decrypt ops now sender cipher = some plain ↔
      ∃ ctx, CryptoCache.load S a.encryptionKeyPair sender = .ok ctx ∧
        ctx.decrypt S cipher = .ok plain := by
  simp only [decrypt, CryptoCache.get_run, Option.bind_eq_bind, Option.bind_eq_some_iff,
    toOption_eq_some_iff]

/-- What a node encrypts for another one is decrypted there, whatever the caches of both went
through. -/
theorem decrypt_encrypt (hS : S.Lawful) (ops ops' : List (LoadingCache.Op Id Nat)) (now now' : Nat)
    {plain cipher : List UInt8} (h : a.encrypt ops now b.id plain = some cipher) :
    b.decrypt ops' now' a.id cipher = some plain := by
  obtain ⟨ctx, hctx, hcipher⟩ := encrypt_eq_some_iff.mp h
  refine decrypt_eq_some_iff.mpr ⟨ctx, ?_, CryptoBox.decryptWith_encryptWith hS hcipher⟩
  rw [← load_symm hS, hctx]

/-- What a node encrypts for another one is what that would encrypt for it, at any time. -/
theorem encrypt_symm (hS : S.Lawful) (a b : Keys S) (ops ops' : List (LoadingCache.Op Id Nat))
    (now now' : Nat)
    (plain : List UInt8) : a.encrypt ops now b.id plain = b.encrypt ops' now' a.id plain := by
  simp only [encrypt, CryptoCache.get_run, load_symm hS a b]

end Keys

/-- The keys of a node, from a seed of equal bytes. -/
def clearKeys (x : UInt8) : Keys clearNaCl := ⟨Bytes.fill 32 x⟩

end Boson
