import Boson.Crypto.Contexts
import Boson.Id.Text
import Boson.Message.Print
import Boson.ValueStorage
import Mathlib.Data.List.Basic

/-!
# What the owner of a value makes (`Value::Value`, `Value::update`, `Value::decryptData`)

The owner signs a value and, if it is for somebody, encrypts its data. `update` makes the next
version: new data, the sequence number one higher, and the owner, the recipient and the nonce as
they were.

* `create_version`, `update_eq`: the constructor, and an update in terms of it.
* `updates_authored`: however often a value is updated, the version that results is valid, has the
  id of the first one and the last data, and takes the place of any earlier version in a table,
  where no earlier one takes its place.
-/

namespace Boson

open FoldM

namespace Value

variable (S : NaCl) (C : Crypto) (B : Build)

/-- The data of a value as `Value::Value` keeps it: encrypted, if it is for somebody. -/
def sealData (sk : PrivateKey) (recipient : Option Id) (nonce : Nonce) (data : List UInt8) :
    Except Fault (List UInt8) :=
  match recipient with
  | none => .ok data
  | some recipient => do
    let recipientPk ← recipient.toEncryptionKey S
    CryptoBox.encrypt S data nonce recipientPk (S.skToCurve25519 sk)

/-- A value of an owner with its signature. -/
def signed (sk : PrivateKey) (recipient : Option Id) (nonce : Nonce) (sequenceNumber : Int32)
    (hseq : 0 ≤ sequenceNumber.toInt) (data : List UInt8) : Value :=
  let unsigned := ofOwner (S.skToPk sk) (some sk) recipient nonce sequenceNumber hseq
    (List.replicate SIGNATURE_BYTES 0) (List.length_replicate ..) data
  let signature := S.signDetached unsigned.getSignData sk
  ofOwner (S.skToPk sk) (some sk) recipient nonce sequenceNumber hseq signature.data
    signature.size_eq data

/-- `Value::Value` from the key pair of the owner. -/
def create (sk : PrivateKey) (recipient : Option Id) (nonce : Nonce) (sequenceNumber : Int32)
    (data : List UInt8) : Except Fault Value :=
  if hseq : 0 ≤ sequenceNumber.toInt then
    if data = [] then .error (.exception "Invalid data")
    else signed S sk recipient nonce sequenceNumber hseq <$> sealData S sk recipient nonce data
  else .error (.exception "Invalid sequence number")

/-- `StateError`: a text with the id of the value. -/
def stateError {α : Type} (self : Value) (what : String) : Except Fault α := do
  let id ← (self.getId C).toBase58String B
  throw (.exception (what ++ String.ofList (id.map fun c => Char.ofNat c.toNat)))

/-- `Value::update`. An addition past the largest sequence number is taken to wrap around. -/
def update (self : Value) (data : List UInt8) : Except Fault Value :=
  if !self.isMutable then self.stateError C B "Immutable value "
  else match self.privateKey with
    | none => self.stateError C B "Not the owner of the value "
    | some sk => do
      let nonce ← valueOr self.nonce
      create S sk self.recipient nonce (self.sequenceNumber + 1) data

/-- `Value::decryptData`. -/
def decryptData (self : Value) (recipientSk : PrivateKey) : Except Fault (List UInt8) :=
  if !self.isValid C then .ok []
  else match self.recipient, self.publicKey, self.nonce with
    | some _, some publicKey, some nonce => do
      let pk ← publicKey.toEncryptionKey S
      CryptoBox.decrypt S self.data pk (S.skToCurve25519 recipientSk) nonce
    | _, _, _ => .ok []

/-- Updates one after the other. -/
def updates (self : Value) (datas : List (List UInt8)) : Except Fault Value :=
  datas.foldlM (update S C B) self

variable {S C B} {owner : Keys S} {recipient : Option Id} {nonce : Nonce} {seq : Int32}
  {plain : List UInt8} {v w : Value}

/-- A value of the owner with this recipient, nonce and (before it is encrypted) data. -/
structure Version (S : NaCl) (C : Crypto) (owner : Keys S) (recipient : Option Id) (nonce : Nonce)
    (plain : List UInt8) (v : Value) : Prop where
  hasPrivateKey : v.privateKey = some owner.privateKey
  hasPublicKey : v.publicKey = some owner.id
  hasRecipient : v.recipient = recipient
  hasNonce : v.nonce = some nonce
  valid : v.isValid C = true
  sealed : sealData S owner.privateKey recipient nonce plain = .ok v.data

/-- Something that is sealed is not empty. -/
theorem sealData_ne_nil (hS : S.Lawful) {sk : PrivateKey} {data : List UInt8}
    (h : sealData S sk recipient nonce plain = .ok data) (hplain : plain ≠ []) : data ≠ [] := by
  cases recipient with
  | none =>
    cases h
    exact hplain
  | some r =>
    obtain ⟨pk, -, hpk⟩ := bind_eq_ok_iff.mp h
    obtain ⟨key, -, hseal⟩ := Option.bind_eq_some_iff.mp (orThrow_eq_ok_iff.mp hpk)
    obtain ⟨hlen, -⟩ := hS.opens _ _ _ _ hseal
    rintro rfl
    simp [CryptoBox.MAC_BYTES] at hlen

/-- What the constructor makes, and when. -/
theorem create_eq_ok_iff {sk : PrivateKey} :
    create S sk recipient nonce seq plain = .ok v ↔
      ∃ hseq, plain ≠ [] ∧ ∃ data, sealData S sk recipient nonce plain = .ok data ∧
        signed S sk recipient nonce seq hseq data = v := by
  unfold create
  split_ifs with hseq hplain
  · simp [hplain]
  · rw [map_eq_ok_iff]
    exact ⟨fun h => ⟨hseq, hplain, h⟩, fun ⟨_, _, h⟩ => h⟩
  · simp [hseq]

theorem isValid_signed (hC : S.Signs C) (owner : Keys S) (hseq : 0 ≤ seq.toInt) {data : List UInt8}
    (hdata : data ≠ []) :
    (signed S owner.privateKey recipient nonce seq hseq data).isValid C = true := by
  have h : (signed S owner.privateKey recipient nonce seq hseq data).data = data := rfl
  rw [isValid, if_neg (h ▸ hdata)]
  exact hC _ owner.seed

/-- What the constructor makes is a version with the sequence number. -/
theorem create_version (hS : S.Lawful) (hC : S.Signs C)
    (h : create S owner.privateKey recipient nonce seq plain = .ok v) :
    Version S C owner recipient nonce plain v ∧ v.sequenceNumber = seq := by
  obtain ⟨hseq, hplain, data, hdata, rfl⟩ := create_eq_ok_iff.mp h
  exact ⟨⟨rfl, rfl, rfl, rfl,
    isValid_signed hC owner hseq (sealData_ne_nil hS hdata hplain), hdata⟩, rfl⟩

namespace Version

variable (h : Version S C owner recipient nonce plain v)

include h

theorem isMutable : v.isMutable = true := by rw [Value.isMutable, h.hasPublicKey]; rfl

theorem hasPrivateKey_eq : v.hasPrivateKey = true := by
    rw [Value.hasPrivateKey, h.hasPrivateKey]; rfl

/-- The id is that of the owner and the nonce. -/
theorem getId : v.getId C = calculateId C (some owner.id) (some nonce) [] := by
  rw [Value.getId, h.hasPublicKey, h.hasNonce]
  rfl

/-- An update makes what the constructor makes with the next sequence number. -/
theorem update_eq (data : List UInt8) :
    v.update S C B data = create S owner.privateKey recipient nonce
      (v.sequenceNumber + 1) data := by
  rw [update, h.isMutable, h.hasPrivateKey, h.hasNonce, h.hasRecipient]
  rfl

/-- The recipient reads the data. -/
theorem decryptData (hS : S.Lawful) (reader : Keys S) (hreader : recipient = some reader.id) :
    v.decryptData S C reader.privateKey = .ok plain := by
  have hdata := h.sealed
  rw [hreader, sealData, Keys.toEncryptionKey_id hS] at hdata
  have hrec := h.hasRecipient
  rw [hreader] at hrec
  rw [Value.decryptData, h.valid, hrec, h.hasPublicKey, h.hasNonce]
  simp only [Bool.not_true, Bool.false_eq_true, if_false, Keys.toEncryptionKey_id hS]
  exact CryptoBox.decrypt_encrypt hS hdata

/-- Everybody reads the data of a value for nobody. -/
theorem data_eq (hnone : recipient = none) : v.data = plain := by
  have hdata := h.sealed
  rw [hnone] at hdata
  cases hdata
  rfl

end Version

/-! ## Versions in a table -/

section Table

variable {plain' : List UInt8} (h : Version S C owner recipient nonce plain v)
  (h' : Version S C owner recipient nonce plain' w)

include h h'

theorem Version.getId_eq : w.getId C = v.getId C := h'.getId.trans h.getId.symm

/-- What is checked when one version is stored over another. -/
theorem Version.checkPut {T : ValueTable} {now : Nat} {e : Int32}
    (hT : T.getValue now (v.getId C) = .ok (some v)) :
    T.checkPut C now w e = (ValueTable.checkOld w e v).map fun _ => some v := by
  rw [ValueTable.checkPut, h'.isMutable, h'.valid, Version.getId_eq h h', hT]
  simp only [Bool.not_true, Bool.and_false, Bool.false_eq_true, if_false, h.isMutable, if_true]

/-- A later version takes the place of an earlier one. -/
theorem Version.replaces {T : ValueTable} {now : Nat} {e : Int32}
    (hT : T.getValue now (v.getId C) = .ok (some v)) (hle : v.sequenceNumber ≤ w.sequenceNumber)
    (he : e < 0 ∨ e = v.sequenceNumber) (p u : Bool) : (T.putValue C now w e p u).1 =
      .ok (some v) := by
  have hcas : (e ≥ 0 && v.sequenceNumber ≥ 0 && v.sequenceNumber != e) = false := by
    rcases he with he | rfl
    · simp [Int32.not_le.mpr he]
    · simp
  have hcheck := Version.checkPut h h' (e := e) hT
  rw [ValueTable.checkOld, h'.isMutable, h'.hasPrivateKey_eq, if_neg (by simp), if_neg (by simp),
    if_neg (Int32.not_lt.mpr hle), hcas] at hcheck
  rw [ValueTable.putValue, hcheck]
  rfl

/-- An earlier version does not take the place of a later one. -/
theorem Version.not_replaces {T : ValueTable} {now : Nat} {e : Int32}
    (hT : T.getValue now (v.getId C) = .ok (some v)) (hlt : w.sequenceNumber < v.sequenceNumber)
    (p u : Bool) :
    T.putValue C now w e p u = (.error "Sequence number less than current", T) := by
  have hcheck := Version.checkPut h h' (e := e) hT
  rw [ValueTable.checkOld, h'.isMutable, h'.hasPrivateKey_eq, if_neg (by simp), if_neg (by simp),
    if_pos hlt] at hcheck
  rw [ValueTable.putValue, hcheck]
  rfl

end Table

/-! ## Updates -/

theorem toInt_succ (hseq : 0 ≤ seq.toInt) : 0 ≤ (seq + 1).toInt ↔
    (seq + 1).toInt = seq.toInt + 1 := by
  have hlt := seq.toInt_lt
  have h1 : (1 : Int32).toInt = 1 := rfl
  rw [Int32.toInt_add, h1, Int.bmod_def]
  omega

theorem toInt_succ_nonneg (hseq : 0 ≤ seq.toInt) : 0 ≤ (seq + 1).toInt ↔
    seq.toInt + 1 < 2 ^ 31 := by
  have hlt := seq.toInt_lt
  have h1 : (1 : Int32).toInt = 1 := rfl
  rw [Int32.toInt_add, h1, Int.bmod_def]
  omega

/-- The data that a version can be updated to. -/
def Updatable (S : NaCl) (owner : Keys S) (recipient : Option Id) (nonce : Nonce)
    (plain : List UInt8) : Prop :=
  plain ≠ [] ∧ ∃ data, sealData S owner.privateKey recipient nonce plain = .ok data

/-- Updates lead from version to version. -/
theorem updates_version (hS : S.Lawful) (hC : S.Signs C)
    (h : Version S C owner recipient nonce plain v) (plains : List (List UInt8))
    (hw : v.updates S C B plains = .ok w) :
    Version S C owner recipient nonce (plains.getLastD plain) w ∧
      w.sequenceNumber.toInt = v.sequenceNumber.toInt + plains.length := by
  induction plains generalizing v plain with
  | nil =>
    cases hw
    exact ⟨h, by simp⟩
  | cons p plains ih =>
    obtain ⟨v', hv', hw⟩ := bind_eq_ok_iff.mp hw
    rw [h.update_eq] at hv'
    obtain ⟨hversion, hseq⟩ := create_version hS hC hv'
    obtain ⟨hlast, hlen⟩ := ih hversion hw
    refine ⟨by rwa [List.getLastD_cons], ?_⟩
    have hsucc := (toInt_succ v.sequenceNumber_nonneg).mp (hseq ▸ v'.sequenceNumber_nonneg)
    rw [hlen, hseq, hsucc, List.length_cons]
    omega

/-- A version can be updated as long as its sequence number does not overflow. -/
theorem updates_ok_iff (hS : S.Lawful) (hC : S.Signs C)
    (h : Version S C owner recipient nonce plain v) (plains : List (List UInt8)) :
    (∃ w, v.updates S C B plains = .ok w) ↔
      v.sequenceNumber.toInt + plains.length < 2 ^ 31 ∧ ∀ p ∈ plains,
        Updatable S owner recipient nonce p := by
  induction plains generalizing v plain with
  | nil =>
    have hlt := v.sequenceNumber.toInt_lt
    exact iff_of_true ⟨v, rfl⟩ ⟨by simpa using hlt, by simp⟩
  | cons p plains ih =>
    have hstep (w : Value) : v.updates S C B (p :: plains) = .ok w ↔
        ∃ v', v.update S C B p = .ok v' ∧ v'.updates S C B plains = .ok w := bind_eq_ok_iff
    simp only [hstep, List.length_cons, List.forall_mem_cons]
    constructor
    · rintro ⟨w, v', hv', hw⟩
      rw [h.update_eq] at hv'
      obtain ⟨hversion, hseq⟩ := create_version hS hC hv'
      obtain ⟨hlt, hall⟩ := (ih hversion).mp ⟨w, hw⟩
      obtain ⟨hnonneg, hp, data, hdata, -⟩ := create_eq_ok_iff.mp hv'
      have hsucc := (toInt_succ v.sequenceNumber_nonneg).mp hnonneg
      rw [hseq, hsucc] at hlt
      exact ⟨by push_cast; omega, ⟨hp, data, hdata⟩, hall⟩
    · rintro ⟨hlt, ⟨hp, data, hdata⟩, hall⟩
      have hnonneg : 0 ≤ (v.sequenceNumber + 1).toInt :=
        (toInt_succ_nonneg v.sequenceNumber_nonneg).mpr (by push_cast at hlt; omega)
      have hv' := create_eq_ok_iff.mpr ⟨hnonneg, hp, data, hdata, rfl⟩
      obtain ⟨hversion, hseq⟩ := create_version hS hC hv'
      have hsucc := (toInt_succ v.sequenceNumber_nonneg).mp hnonneg
      obtain ⟨w, hw⟩ := (ih hversion).mpr ⟨by rw [hseq, hsucc]; push_cast at hlt; omega, hall⟩
      exact ⟨w, _, (h.update_eq p).trans hv', hw⟩

/-- However often the owner updates a value: it goes on as long as the sequence number does not
overflow; the version that results is valid and has the id of the first one; its recipient, or
everybody if it is for nobody, reads the last data; and a table that has one of the two versions
takes the later one for the earlier, and never the other way around. -/
theorem updates_authored (hS : S.Lawful) (hC : S.Signs C) (B : Build) (owner : Keys S)
    (recipient : Option Id) (nonce : Nonce) (seq : Int32) (plain : List UInt8) (v : Value)
    (hv : create S owner.privateKey recipient nonce seq plain = .ok v)
    (plains : List (List UInt8)) :
    ((∃ w, v.updates S C B plains = .ok w) ↔
      seq.toInt + plains.length < 2 ^ 31 ∧ ∀ p ∈ plains, Updatable S owner recipient nonce p) ∧
    ∀ w, v.updates S C B plains = .ok w →
      w.isValid C = true ∧ w.getId C = v.getId C ∧
        w.sequenceNumber.toInt = seq.toInt + plains.length ∧
      (∀ reader : Keys S, recipient = some reader.id →
        w.decryptData S C reader.privateKey = .ok (plains.getLastD plain)) ∧
      (recipient = none → w.data = plains.getLastD plain) ∧
      ∀ (T : ValueTable) (now : Nat) (e : Int32) (p u : Bool),
        (T.getValue now (v.getId C) = .ok (some v) → (e < 0 ∨ e = seq) →
          (T.putValue C now w e p u).1 = .ok (some v)) ∧
        (T.getValue now (v.getId C) = .ok (some w) → plains ≠ [] →
          T.putValue C now v e p u = (.error "Sequence number less than current", T)) := by
  obtain ⟨hversion, rfl⟩ := create_version hS hC hv
  refine ⟨updates_ok_iff hS hC hversion plains, fun w hw => ?_⟩
  obtain ⟨hlast, hseq⟩ := updates_version hS hC hversion plains hw
  have hid := Version.getId_eq hversion hlast
  refine ⟨hlast.valid, hid, hseq, hlast.decryptData hS, hlast.data_eq,
    fun T now e p u => ⟨fun hT he => ?_, fun hT hne => ?_⟩⟩
  · exact Version.replaces hversion hlast hT (Int32.le_iff_toInt_le.mpr (by omega)) he p u
  · have hpos := List.length_pos_iff.mpr hne
    exact Version.not_replaces hlast hversion (hid ▸ hT) (Int32.lt_iff_toInt_lt.mpr (by omega)) p u

/-- A value for another node, updated twice. -/
theorem updates_authored_twice :
    let C : Crypto := ⟨fun _ => Id.zero, fun _ sig pk => sig = pk.bytes ++ pk.bytes, fun s => s⟩
    ∃ v w, create clearNaCl (clearKeys 1).privateKey (some (clearKeys 2).id)
      (Bytes.fill 24 9) 5 [1] = .ok v ∧
      v.updates clearNaCl C ⟨true⟩ [[2], [3]] = .ok w ∧ w.sequenceNumber.toInt = 7 ∧
      w.decryptData clearNaCl C (clearKeys 2).privateKey = .ok [3] := by
  intro C
  have hC : clearNaCl.Signs C := by
    intro data seed
    simp [C, clearNaCl, seed.size_eq]
  have hseal (x : UInt8) : Updatable clearNaCl (clearKeys 1) (some (clearKeys 2).id)
      (Bytes.fill 24 9) [x] :=
    ⟨List.cons_ne_nil _ _, _, rfl⟩
  obtain ⟨-, data, hdata⟩ := hseal 1
  have hv :=
    create_eq_ok_iff.mpr ⟨show 0 ≤ (5 : Int32).toInt by decide, List.cons_ne_nil 1 [],
      data, hdata, rfl⟩
  obtain ⟨hok, hall⟩ :=
    updates_authored lawful_clearNaCl hC ⟨true⟩ (clearKeys 1) (some (clearKeys 2).id)
    (Bytes.fill 24 9) 5 [1] _ hv [[2], [3]]
  obtain ⟨w, hw⟩ := hok.mpr ⟨by decide, fun p hp => by
    rcases List.mem_cons.mp hp with rfl | hp
    · exact hseal 2
    · rw [List.mem_singleton.mp hp]
      exact hseal 3⟩
  obtain ⟨-, -, hseq, hread, -⟩ := hall w hw
  exact ⟨_, w, hv, hw, hseq, hread (clearKeys 2) rfl⟩

end Value

end Boson
