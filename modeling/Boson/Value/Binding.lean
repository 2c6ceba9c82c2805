import Boson.Value
import Mathlib.Data.Set.Function

/-!
# What the signature and the id of a value bind

`getSignData` writes the recipient, the nonce, the sequence number and the data one after the other.
All but the data have a fixed size, but nothing tells whether there is a recipient. `calculateId`
hashes the public key and the nonce of an owned value, and the data of any other, and nothing tells
which.

* `signData_binds_iff`: the signed bytes of two values of an owner tell their fields, unless one
  value has a recipient and the other is cut out of its bytes.
* `getId_binds_iff`: where the hash does not collide, the id of two values tells what it names,
  unless the data of an immutable value is the public key and the nonce of the other.
-/

namespace Boson

namespace Value

open SocketAddress

variable {v w : Value}

/-- The values have the same signed fields. -/
structure SameSigned (v w : Value) : Prop where
  recipient : v.recipient = w.recipient
  nonce : v.nonce = w.nonce
  sequenceNumber : v.sequenceNumber = w.sequenceNumber
  data : v.data = w.data

/-- The signed bytes after the recipient. -/
def plainSignData (nonce : Nonce) (sequenceNumber : Int32) (data : List UInt8) : List UInt8 :=
  nonce.data ++ (le32 sequenceNumber.toUInt32 ++ data)

/-- The value `w`, which has no recipient, is cut out of the signed bytes of `v`, which has one. -/
def CutOut (v w : Value) : Prop :=
  ∃ r n m, v.recipient = some r ∧ w.recipient = none ∧ v.nonce = some n ∧ w.nonce = some m ∧
    m.data = r.bytes.take 24 ∧ le32 w.sequenceNumber.toUInt32 = (r.bytes.drop 24).take 4 ∧
    w.data = r.bytes.drop 28 ++ plainSignData n v.sequenceNumber v.data

theorem plainSignData_inj {n m : Nonce} {s t : Int32} {d e : List UInt8}
    (h : plainSignData n s d = plainSignData m t e) : n = m ∧ s = t ∧ d = e := by
  obtain ⟨hnonce, h⟩ := List.append_inj h (n.size_eq.trans m.size_eq.symm)
  obtain ⟨hseq, hdata⟩ := List.append_inj h rfl
  exact ⟨Bytes.ext hnonce, congrArg UInt32.toInt32 (le32_injective hseq), hdata⟩

theorem getSignData_eq (h : v.isMutable = true) :
    ∃ n, v.nonce = some n ∧ v.getSignData =
      (v.recipient.map (·.bytes)).getD [] ++ plainSignData n v.sequenceNumber v.data := by
  obtain ⟨hnonce, -⟩ := v.mutable_ok (Option.isSome_iff_ne_none.mp h)
  obtain ⟨n, hn⟩ := Option.ne_none_iff_exists'.mp hnonce
  exact ⟨n, hn, by simp [getSignData, plainSignData, hn]⟩

/-- Where the bytes after a recipient begin, when they are read without one. -/
theorem recipient_append_eq_iff (r : Id) (rest : List UInt8) (m : Nonce) (t : Int32)
    (e : List UInt8) :
    r.bytes ++ rest = plainSignData m t e ↔
      m.data = r.bytes.take 24 ∧ le32 t.toUInt32 = (r.bytes.drop 24).take 4 ∧
        e = r.bytes.drop 28 ++ rest := by
  have hsplit : r.bytes ++ rest =
      r.bytes.take 24 ++ ((r.bytes.drop 24).take 4 ++ (r.bytes.drop 28 ++ rest)) := by
    have h28 : r.bytes.drop 28 = (r.bytes.drop 24).drop 4 := by rw [List.drop_drop]
    rw [h28, ← List.append_assoc, ← List.append_assoc, List.append_assoc (r.bytes.take 24),
      List.take_append_drop, List.take_append_drop]
  have hlen := r.size_eq
  rw [hsplit, plainSignData]
  constructor
  · intro h
    obtain ⟨hnonce, h⟩ := List.append_inj h (by simp [hlen, m.size_eq])
    obtain ⟨hseq, hdata⟩ := List.append_inj h (by simp [hlen, le32])
    exact ⟨hnonce.symm, hseq.symm, hdata.symm⟩
  · rintro ⟨hnonce, hseq, hdata⟩
    rw [hnonce, hseq, hdata]

/-- If only `v` has a recipient, the signed bytes are the same exactly if `w` is cut out of them. -/
theorem signData_eq_iff_cutOut (hv : v.isMutable = true) (hw : w.isMutable = true)
    (hr : v.recipient.isSome = true) (hn : w.recipient = none) :
    v.getSignData = w.getSignData ↔ CutOut v w := by
  obtain ⟨r, hr⟩ := Option.isSome_iff_exists.mp hr
  obtain ⟨n, hnv, hdv⟩ := getSignData_eq hv
  obtain ⟨m, hmw, hdw⟩ := getSignData_eq hw
  rw [hdv, hdw, hr, hn]
  refine (recipient_append_eq_iff r _ m w.sequenceNumber w.data).trans ⟨fun h => ?_, ?_⟩
  · exact ⟨r, n, m, hr, hn, hnv, hmw, h⟩
  · rintro ⟨r', n', m', hr', -, hn', hm', h⟩
    rw [hr] at hr'
    rw [hnv] at hn'
    rw [hmw] at hm'
    cases hr'
    cases hn'
    cases hm'
    exact h

theorem not_sameSigned (hr : v.recipient.isSome = true) (hn : w.recipient = none) :
    ¬ SameSigned v w ∧ ¬ SameSigned w v ∧ ¬ CutOut w v := by
  refine ⟨fun h => ?_, fun h => ?_, ?_⟩
  · rw [h.recipient, hn] at hr
    cases hr
  · rw [← h.recipient, hn] at hr
    cases hr
  · rintro ⟨r, n, m, hr', -⟩
    rw [hn] at hr'
    cases hr'

/-- If both have a recipient or none has, the signed bytes tell the fields. -/
theorem sameSigned_of_eq (hv : v.isMutable = true) (hw : w.isMutable = true)
    (hr : v.recipient.isSome = w.recipient.isSome) (h : v.getSignData = w.getSignData) :
    SameSigned v w := by
  obtain ⟨n, hnv, hdv⟩ := getSignData_eq hv
  obtain ⟨m, hmw, hdw⟩ := getSignData_eq hw
  rw [hdv, hdw] at h
  have hrec : v.recipient = w.recipient ∧ plainSignData n v.sequenceNumber v.data =
      plainSignData m w.sequenceNumber w.data := by
    cases hv : v.recipient with
    | none =>
      cases hw : w.recipient with
      | none =>
        rw [hv, hw] at h
        exact ⟨rfl, h⟩
      | some s => simp [hv, hw] at hr
    | some r =>
      cases hw : w.recipient with
      | none => simp [hv, hw] at hr
      | some s =>
        rw [hv, hw] at h
        obtain ⟨hbytes, h⟩ := List.append_inj h (r.size_eq.trans s.size_eq.symm)
        exact ⟨congrArg some (Id.ext_bytes hbytes), h⟩
  obtain ⟨hnonce, hseq, hdata⟩ := plainSignData_inj hrec.2
  exact ⟨hrec.1, by rw [hnv, hmw, hnonce], hseq, hdata⟩

/-- The signed bytes of two values of an owner tell their fields, unless one of them is cut out of
the other. -/
theorem signData_binds_iff (v w : Value) (hv : v.isMutable = true) (hw : w.isMutable = true) :
    (v.getSignData = w.getSignData → SameSigned v w) ↔ ¬ CutOut v w ∧ ¬ CutOut w v := by
  by_cases hsame : v.recipient.isSome = w.recipient.isSome
  · have hcut {v w : Value} (hsame : v.recipient.isSome = w.recipient.isSome) : ¬ CutOut v w := by
      rintro ⟨r, n, m, hr, hn, -⟩
      simp [hr, hn] at hsame
    exact iff_of_true (sameSigned_of_eq hv hw hsame) ⟨hcut hsame, hcut hsame.symm⟩
  · cases hrv : v.recipient with
    | some r =>
      have hrv : v.recipient.isSome = true := by rw [hrv]; rfl
      have hrw : w.recipient = none := by
        rw [hrv] at hsame
        exact Option.not_isSome_iff_eq_none.mp fun h => hsame h.symm
      obtain ⟨hno, -, hcut⟩ := not_sameSigned hrv hrw
      rw [← signData_eq_iff_cutOut hv hw hrv hrw]
      exact ⟨fun h => ⟨fun heq => hno (h heq), hcut⟩, fun h heq => absurd heq h.1⟩
    | none =>
      have hrw : w.recipient.isSome = true := by
        rw [hrv] at hsame
        exact Bool.not_eq_false _ ▸ fun h => hsame h.symm
      obtain ⟨-, hno, hcut⟩ := not_sameSigned hrw hrv
      rw [← signData_eq_iff_cutOut hw hv hrw hrv]
      exact ⟨fun h => ⟨hcut, fun heq => hno (h heq.symm)⟩, fun h heq => absurd heq.symm h.2⟩

/-- A value of the owner `Id.MAX_ID`, with some signature. -/
def owned (recipient : Option Id) (nonce data : List UInt8) (h : nonce.length = 24) : Value :=
  ofOwner Id.MAX_ID none recipient ⟨nonce, h⟩ 0 (by decide) (List.replicate 64 5) rfl data

/-- Two values for nobody that differ in their signatures only. -/
theorem signData_binds_plain :
    SameSigned (owned none (List.replicate 24 1) [9] rfl)
      (ofOwner Id.MAX_ID none none ⟨List.replicate 24 1, rfl⟩ 0 (by decide)
        (List.replicate 64 6) rfl [9]) := by
  refine (signData_binds_iff _ _ rfl rfl).mpr ⟨?_, ?_⟩ rfl <;> rintro ⟨r, n, m, hr, -⟩ <;> cases hr

/-- A value for the recipient `Id.zero` and one for nobody, of the same owner, with other nonces
(and so another id) and the same signed bytes. -/
theorem signData_not_binding :
    let v := owned (some Id.zero) (List.replicate 24 1) [9] rfl
    let w :=
      owned none (List.replicate 24 0) ([0, 0, 0, 0] ++ List.replicate 24 1 ++ [0, 0, 0, 0, 9]) rfl
    v.publicKey = w.publicKey ∧ ¬ (v.getSignData = w.getSignData → SameSigned v w) :=
  ⟨rfl, fun h => nomatch (h rfl).recipient⟩

/-! ### The id -/

/-- The bytes that `calculateId` hashes. -/
def idData (self : Value) : List UInt8 :=
  match self.publicKey with
  | some publicKey => publicKey.bytes ++ (self.nonce.map (·.data)).getD []
  | none => self.data

theorem getId_eq (C : Crypto) (v : Value) : v.getId C = C.sha256 v.idData := by
  unfold getId calculateId idData
  cases v.publicKey <;> rfl

/-- The values have the same name: the data of an immutable value, the owner and nonce of a mutable
one. -/
def SameNamed (v w : Value) : Prop :=
  (v.isMutable = false ∧ w.isMutable = false ∧ v.data = w.data) ∨
    (v.isMutable = true ∧ w.isMutable = true ∧ v.publicKey = w.publicKey ∧ v.nonce = w.nonce)

/-- The data of the immutable value `v` is the public key and the nonce of `w`. -/
def Masks (v w : Value) : Prop :=
  v.isMutable = false ∧ ∃ pk n, w.publicKey = some pk ∧ w.nonce = some n ∧
    v.data = pk.bytes ++ n.data

theorem idData_immutable (h : v.isMutable = false) : v.idData = v.data := by
  have hpk : v.publicKey = none := by simpa [isMutable] using h
  simp [idData, hpk]

theorem idData_mutable (h : v.isMutable = true) :
    ∃ pk n, v.publicKey = some pk ∧ v.nonce = some n ∧ v.idData = pk.bytes ++ n.data := by
  obtain ⟨pk, hpk⟩ := Option.isSome_iff_exists.mp h
  obtain ⟨hnonce, -⟩ := v.mutable_ok (by simp [hpk])
  obtain ⟨n, hn⟩ := Option.ne_none_iff_exists'.mp hnonce
  exact ⟨pk, n, hpk, hn, by simp [idData, hpk, hn]⟩

theorem Masks.isMutable (h : Masks v w) : w.isMutable = true := by
  obtain ⟨-, pk, n, hpk, -⟩ := h
  simp [Value.isMutable, hpk]

/-- An immutable and a mutable value hash the same bytes exactly if the first masks the second. -/
theorem idData_eq_iff_masks (hv : v.isMutable = false) (hw : w.isMutable = true) :
    v.idData = w.idData ↔ Masks v w := by
  obtain ⟨pk, n, hpk, hn, hdata⟩ := idData_mutable hw
  rw [idData_immutable hv, hdata]
  constructor
  · intro h
    exact ⟨hv, pk, n, hpk, hn, h⟩
  · rintro ⟨-, pk', n', hpk', hn', h⟩
    rw [hpk] at hpk'
    rw [hn] at hn'
    cases hpk'
    cases hn'
    exact h

/-- Values of one kind hash the same bytes exactly if they have the same name. -/
theorem idData_eq_iff_sameNamed (h : v.isMutable = w.isMutable) : v.idData = w.idData ↔
    SameNamed v w := by
  cases hw : w.isMutable with
  | false =>
    have hv := h.trans hw
    rw [idData_immutable hv, idData_immutable hw]
    simp [SameNamed, hv, hw]
  | true =>
    have hv := h.trans hw
    obtain ⟨pk, n, hpk, hn, hdv⟩ := idData_mutable hv
    obtain ⟨pk', n', hpk', hn', hdw⟩ := idData_mutable hw
    rw [hdv, hdw]
    constructor
    · intro h
      obtain ⟨hkey, hnonce⟩ := List.append_inj h (pk.size_eq.trans pk'.size_eq.symm)
      refine .inr ⟨hv, hw, ?_, ?_⟩
      · rw [hpk, hpk', Id.ext_bytes hkey]
      · rw [hn, hn', Bytes.ext hnonce]
    · rintro (⟨h, -⟩ | ⟨-, -, hkey, hnonce⟩)
      · rw [hv] at h
        cases h
      · rw [hpk, hpk'] at hkey
        rw [hn, hn'] at hnonce
        cases hkey
        cases hnonce
        rfl

theorem sameNamed_kind (h : SameNamed v w) : v.isMutable = w.isMutable := by
  obtain ⟨hv, hw, -⟩ | ⟨hv, hw, -⟩ := h <;> rw [hv, hw]

theorem not_masks_of_kind (h : v.isMutable = w.isMutable) : ¬ Masks v w := by
  intro hm
  have := hm.isMutable
  rw [← h, hm.1] at this
  cases this

/-- Where the hash does not collide on what the two values hash, equal ids name the same, unless the
data of one is the public key and the nonce of the other. -/
theorem getId_binds_iff (C : Crypto) (v w : Value)
    (hsha : Set.InjOn C.sha256 {v.idData, w.idData}) :
    (v.getId C = w.getId C → SameNamed v w) ↔ ¬ Masks v w ∧ ¬ Masks w v := by
  have hid : v.getId C = w.getId C ↔ v.idData = w.idData := by
    rw [getId_eq, getId_eq]
    exact hsha.eq_iff (by simp) (by simp)
  rw [hid]
  by_cases hkind : v.isMutable = w.isMutable
  · exact iff_of_true (idData_eq_iff_sameNamed hkind).mp
      ⟨not_masks_of_kind hkind, not_masks_of_kind hkind.symm⟩
  · have hno : ¬ SameNamed v w := fun h => hkind (sameNamed_kind h)
    cases hm : v.isMutable with
    | false =>
      have hw : w.isMutable = true := by simpa [hm] using hkind
      have hback : ¬ Masks w v := fun h => by simp [h.1] at hw
      rw [idData_eq_iff_masks hm hw]
      exact ⟨fun h => ⟨fun hmask => hno (h hmask), hback⟩, fun h hmask => absurd hmask h.1⟩
    | true =>
      have hw : w.isMutable = false := by simpa [hm] using hkind
      have hback : ¬ Masks v w := fun h => by simp [h.1] at hm
      rw [eq_comm, idData_eq_iff_masks hw hm]
      exact ⟨fun h => ⟨hback, fun hmask => hno (h hmask)⟩, fun h hmask => absurd hmask h.2⟩

theorem injOn_of_idData_eq (C : Crypto) (h : v.idData = w.idData) :
    Set.InjOn C.sha256 {v.idData, w.idData} := by
  rw [h, Set.pair_eq_singleton]
  exact Set.injOn_singleton _ _

/-- A hash that tells data that begins with 9 from other data. -/
def firstByteCrypto : Crypto where
  sha256 data := if data.head? = some 9 then Id.zero else Id.MAX_ID
  verify _ _ _ := true

/-- Two values of one owner with the same nonce, and an immutable value. -/
theorem getId_binds_owned :
    let v := owned none (List.replicate 24 1) [9] rfl
    SameNamed v (owned none (List.replicate 24 1) [8] rfl) ∧
      (immutable [9]).getId firstByteCrypto ≠ v.getId firstByteCrypto := by
  have hmask : ∀ (d : List UInt8) v, ¬ Masks (owned none (List.replicate 24 1) d rfl) v :=
    fun d v h =>
    absurd h.1 (by simp [owned, ofOwner, Value.isMutable])
  constructor
  · have hdata : (owned none (List.replicate 24 1) [9] rfl).idData =
        (owned none (List.replicate 24 1) [8] rfl).idData := rfl
    exact (getId_binds_iff firstByteCrypto _ _ (injOn_of_idData_eq _ hdata)).mpr
      ⟨hmask _ _, hmask _ _⟩ rfl
  · refine fun h =>
      absurd (sameNamed_kind ((getId_binds_iff firstByteCrypto _ _ ?_).mpr ⟨?_, hmask _ _⟩ h))
        (by decide)
    · rintro x (rfl | rfl) y (rfl | rfl) heq
      · rfl
      · exact absurd heq (by decide)
      · exact absurd heq (by decide)
      · rfl
    · rintro ⟨-, pk, n, -, -, hdata⟩
      have hlen := congrArg List.length hdata
      simp [immutable, n.size_eq] at hlen

/-- The immutable value whose data is the public key and the nonce of an owned value: it is valid
with no signature, and whatever the hash is, it has the id of the owned value. -/
theorem immutable_takes_id :
    let v := immutable (Id.MAX_ID.bytes ++ List.replicate 24 1)
    let w := owned none (List.replicate 24 1) [9] rfl
    v.data ≠ [] ∧ w.data ≠ [] ∧ ∀ C : Crypto, Set.InjOn C.sha256 {v.idData, w.idData} ∧
      v.isValid C = true ∧
      ¬ (v.getId C = w.getId C → SameNamed v w) := by
  refine ⟨by simp [immutable, Id.MAX_ID.bytes_ne_nil], by
    simp [owned, ofOwner], fun C => ⟨?_, ?_, fun h => ?_⟩⟩
  · exact injOn_of_idData_eq C rfl
  · simp [isValid, immutable, Id.MAX_ID.bytes_ne_nil]
  · exact absurd (sameNamed_kind (h rfl)) (by decide)

end Value

end Boson
