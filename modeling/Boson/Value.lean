import Boson.SocketAddress
import Boson.Id

/-!
# Values (`include/boson/value.h`, `src/core/value.cc`)

A value is immutable (plain data) or mutable: it has an owner (`publicKey`), a nonce, a sequence
number and a signature of the owner, and it may have a recipient and, where the owner stores it, the
owner's private key.

The constructors of the class establish an invariant that is part of the type here: a value with a
public key has a nonce, a signature of 64 bytes and a sequence number that is not negative; a value
without one has only its data. `of` is the constructor from the fields; `of_toBlobs` says that it
gives a value back from its own fields.

The hash and the signature check come from libsodium and are parameters (`Crypto`).
-/

namespace Boson

/-- What the code takes from libsodium and utf8proc. -/
structure Crypto where
  /-- `SHA256`, as an id. -/
  sha256 : List UInt8 → Id
  /-- `Signature::verify(data, signature, publicKey)`. -/
  verify : List UInt8 → List UInt8 → Id → Bool
  /-- `utf8NFC`. -/
  utf8NFC : List UInt8 → List UInt8 := id

/-- `Signature::BYTES`. -/
def SIGNATURE_BYTES : Nat := 64

/-- `Signature::PrivateKey`. -/
abbrev PrivateKey := Bytes 64

/-- `CryptoBox::Nonce`. -/
abbrev Nonce := Bytes 24

/-- `Value`. -/
structure Value where
  publicKey : Option Id := none
  recipient : Option Id := none
  privateKey : Option PrivateKey := none
  nonce : Option Nonce := none
  signature : Option (List UInt8) := none
  data : List UInt8 := []
  sequenceNumber : Int32 := 0
  /-- A value of an owner. -/
  mutable_ok : publicKey ≠ none →
    nonce ≠ none ∧ (∃ s, signature = some s ∧ s.length = SIGNATURE_BYTES) ∧ 0 ≤ sequenceNumber.toInt
  /-- A value of nobody. -/
  immutable_ok : publicKey = none → recipient = none ∧ privateKey = none ∧ nonce = none ∧
    signature = none ∧ sequenceNumber = 0
  deriving DecidableEq

namespace Value

/-- `Value::isMutable`. -/
def isMutable (self : Value) : Bool := self.publicKey.isSome

/-- `Value::isEncrypted`. -/
def isEncrypted (self : Value) : Bool := self.recipient.isSome

/-- `Value::isSigned`. -/
def isSigned (self : Value) : Bool := self.signature.isSome

/-- `Value::hasPrivateKey`. -/
def hasPrivateKey (self : Value) : Bool := self.privateKey.isSome

/-- A value without an owner, such as `Value::createValue` gives. -/
def immutable (data : List UInt8) : Value where
  data := data
  mutable_ok h := absurd rfl h
  immutable_ok _ := ⟨rfl, rfl, rfl, rfl, rfl⟩

/-- `Value::Value` from fields, after its checks of the owner's fields. -/
def ofOwner (publicKey : Id) (privateKey : Option PrivateKey) (recipient : Option Id)
    (nonce : Nonce) (sequenceNumber : Int32) (hseq : 0 ≤ sequenceNumber.toInt)
    (signature : List UInt8)
    (hsig : signature.length = SIGNATURE_BYTES) (data : List UInt8) : Value where
  publicKey := some publicKey
  privateKey := privateKey
  recipient := recipient
  nonce := some nonce
  sequenceNumber := sequenceNumber
  signature := some signature
  data := data
  mutable_ok _ := ⟨Option.some_ne_none _, ⟨signature, rfl, hsig⟩, hseq⟩
  immutable_ok h := absurd h (Option.some_ne_none _)

/-- The message of `Id(const Blob&)`. -/
def ID_SIZE_ERROR : String := "The binary id should be 32 bytes long."

/-- An optional id: an empty blob stands for none. -/
def optionalId (blob : List UInt8) : Except String (Option Id) :=
  if blob = [] then .ok none
  else match Id.ofBlob? blob with
    | some id => .ok (some id)
    | none => .error ID_SIZE_ERROR

/-- `Value::of`: the constructor from fields. An empty blob stands for an absent field. -/
def of (publicKey privateKey recipient nonce : List UInt8) (sequenceNumber : Int32)
    (signature data : List UInt8) : Except String Value :=
  if publicKey = [] then
    if data = [] then .error "Invalid data" else .ok (immutable data)
  else if privateKey ≠ [] ∧ privateKey.length ≠ 64 then .error "Invalid private key"
  else match Bytes.ofList? 24 nonce with
    | none => .error "Invalid nonce"
    | some nonce =>
      if hseq : 0 ≤ sequenceNumber.toInt then
        if hsig : signature.length = SIGNATURE_BYTES then
          match Id.ofBlob? publicKey with
          | none => .error ID_SIZE_ERROR
          | some publicKey =>
            match optionalId recipient with
            | .error e => .error e
            | .ok recipient =>
              if data = [] then .error "Invalid data"
              else
                .ok (ofOwner publicKey (Bytes.ofList? 64 privateKey) recipient nonce
                  sequenceNumber hseq signature hsig data)
        else .error "Invalid signature"
      else .error "Invalid sequence number"

/-- `Value::calculateId`. -/
def calculateId (C : Crypto) (publicKey : Option Id) (nonce : Option Nonce)
    (data : List UInt8) : Id :=
  match publicKey with
  | some publicKey => C.sha256 (publicKey.bytes ++ (nonce.map (·.data)).getD [])
  | none => C.sha256 data

/-- `Value::getId`. -/
def getId (self : Value) (C : Crypto) : Id := calculateId C self.publicKey self.nonce self.data

/-- `Value::getSignData`: the sequence number in host order. -/
def getSignData (self : Value) : List UInt8 :=
  (self.recipient.map (·.bytes)).getD [] ++ (self.nonce.map (·.data)).getD [] ++
    SocketAddress.le32 self.sequenceNumber.toUInt32 ++ self.data

/-- `Value::isValid`. -/
def isValid (self : Value) (C : Crypto) : Bool :=
  if self.data = [] then false
  else match self.publicKey with
    | some publicKey => C.verify self.getSignData (self.signature.getD []) publicKey
    | none => true

theorem data_ne_nil_of_isValid {C : Crypto} {v : Value} (h : v.isValid C = true) : v.data ≠ [] := by
  intro hd
  simp [isValid, hd] at h

theorem sequenceNumber_nonneg (v : Value) : 0 ≤ v.sequenceNumber.toInt := by
  by_cases hp : v.publicKey = none
  · simp [(v.immutable_ok hp).2.2.2.2]
  · exact (v.mutable_ok hp).2.2

theorem immutable_seq {v : Value} (h : v.isMutable = false) : v.sequenceNumber = 0 :=
  (v.immutable_ok (by simpa [isMutable] using h)).2.2.2.2

theorem immutable_hasPrivateKey {v : Value} (h : v.isMutable = false) :
    v.hasPrivateKey = false := by
  have := (v.immutable_ok (by simpa [isMutable] using h)).2.1
  simp [hasPrivateKey, this]

/-- The constructor rejects empty data. -/
theorem data_ne_nil_of_eq_ok {publicKey privateKey recipient nonce signature data : List UInt8}
    {seq : Int32} {v : Value}
    (h : of publicKey privateKey recipient nonce seq signature data = .ok v) : v.data ≠ [] := by
  unfold of at h
  repeat' split at h
  all_goals try cases h
  all_goals assumption

/-- An optional field as a blob: an absent one is empty. -/
def blobOf (o : Option (List UInt8)) : List UInt8 := o.getD []

/-- The constructor gives a value back from its fields. -/
theorem of_toBlobs (v : Value) (hd : v.data ≠ []) :
    of (blobOf (v.publicKey.map (·.bytes))) (blobOf (v.privateKey.map (·.data)))
      (blobOf (v.recipient.map (·.bytes))) (blobOf (v.nonce.map (·.data))) v.sequenceNumber
      (blobOf v.signature) v.data = .ok v := by
  obtain ⟨publicKey, recipient, privateKey, nonce, signature, data, seq, hmut, himm⟩ := v
  cases publicKey with
  | none =>
    obtain ⟨h1, h2, h3, h4, h5⟩ := himm rfl
    dsimp only at h1 h2 h3 h4 h5 hd
    subst h1 h2 h3 h4 h5
    simp [of, blobOf, hd, immutable]
  | some publicKey =>
    obtain ⟨hn, ⟨s, hs, hlen⟩, hseq⟩ := hmut (Option.some_ne_none _)
    obtain ⟨n, hn⟩ := Option.ne_none_iff_exists'.mp hn
    dsimp only at hn hs hlen hseq hd
    subst hn hs
    have hpk := publicKey.bytes_ne_nil
    have hsk : Bytes.ofList? 64 (blobOf (privateKey.map (·.data))) = privateKey := by
      cases privateKey with
      | none => rfl
      | some sk => simp [blobOf]
    have hsk' : ¬ (blobOf (privateKey.map (·.data)) ≠ [] ∧
        (blobOf (privateKey.map (·.data))).length ≠ 64) := by
      cases privateKey with
      | none => simp [blobOf]
      | some sk => simp [blobOf, sk.size_eq]
    have hrec : optionalId (blobOf (recipient.map (·.bytes))) = .ok recipient := by
      cases recipient with
      | none => simp [optionalId, blobOf]
      | some r => simp [optionalId, blobOf, r.bytes_ne_nil]
    simp only [of, hsk, hsk', hrec, if_false]
    simp [blobOf, hpk, hseq, hlen, hd, ofOwner]

end Value

end Boson
