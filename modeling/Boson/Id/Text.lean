import Boson.Crypto.Base58
import Boson.Crypto.Hex
import Boson.Id

/-!
# Ids as text (`include/boson/id.h`, `src/core/id.cc`)

An id is written in base 58, or in hexadecimal behind "0x", and the constructor tells the two by the
"0x": the alphabet of base 58 has no '0'. Both texts are read back as the id (`text_roundTrip`).
-/

namespace Boson

namespace Id

/-- `Id::fromBase58String`. -/
def fromBase58String (B : Build) (str : Text) : Except Fault Id := do
  let data ← Base58.decode B (cStr str)
  match ofBlob? data with
  | none =>
    .error (.exception "Invalid id string, the size of data from decoding string is 32 bytes.")
  | some id => .ok id

/-- `Id::fromHexString`. The buffer keeps its 32 bytes. -/
def fromHexString (S : Sodium) (str : Text) : Except Fault Id := do
  let pos := if str.take 2 = [48, 120] then 2 else 0
  if str.length ≠ BYTES * 2 + pos then
    .error (.exception "Hex ID string should be 64 characters long.")
  else
    let (_, bytes) ← Hex.decodeBuffer S (str.drop pos) (List.replicate BYTES 0)
    match ofBlob? bytes with
    | none => .error .outOfBounds
    | some id => .ok id

/-- `Id(const std::string&)`. -/
def ofText (S : Sodium) (B : Build) (id : Text) : Except Fault Id :=
  if [48, 120] <+: id then fromHexString S id else fromBase58String B id

/-- `Id::ofHex`. -/
def ofHex (S : Sodium) (hexId : Text) : Except Fault Id := fromHexString S hexId

/-- `Id::toHexString`. -/
def toHexString (S : Sodium) (B : Build) (self : Id) : Except Fault Text :=
  Hex.encodeString S B self.bytes true

/-- `Id::toBase58String`. -/
def toBase58String (B : Build) (self : Id) : Except Fault Text := Base58.encode B self.bytes

variable {S : Sodium} {B : Build} {str : Text}

theorem ofText_toBase58String {self : Id} (h : self.toBase58String B = .ok str) :
    ofText S B str = .ok self := by
  have hchars := Base58.encode_chars h
  have hprefix : ¬ [48, 120] <+: str := fun hp =>
    (hchars 48 (hp.subset List.mem_cons_self)).2.2 rfl
  have hstr : cStr str = str :=
    List.takeWhile_eq_self_iff.mpr fun c hc => decide_eq_true (hchars c hc).2.1
  rw [ofText, if_neg hprefix, fromBase58String, hstr, Base58.decode_encode h]
  show (match ofBlob? self.bytes with | none => _ | some id => _) = _
  rw [ofBlob?_bytes]

theorem ofHex_toHexString (hS : S.Documented) {self : Id} (h : self.toHexString S B = .ok str) :
    ofHex S str = .ok self := by
  have hsize := self.size_eq
  rw [toHexString, Hex.encodeString_eq hS self.bytes_ne_nil, Except.ok.injEq] at h
  subst h
  have hlen := Hex.length_flatMap_hexByte self.bytes
  have hdec : Hex.decodeBuffer S (self.bytes.flatMap hexByte) (List.replicate BYTES 0) =
      .ok (((self.bytes.flatMap hexByte).length / 2 : Nat), self.bytes) := by
    rw [Hex.decodeBuffer_eq hS _ (by rw [List.length_replicate, BYTES]; omega),
      List.length_replicate, if_neg (by decide), Hex.unhex_flatMap]
    rfl
  have hsize' : ¬ ([48, 120] ++ self.bytes.flatMap hexByte).length ≠ BYTES * 2 + 2 := by
    simp only [List.length_append, List.length_cons, List.length_nil, BYTES]
    omega
  show (if ([48, 120] ++ self.bytes.flatMap hexByte).length ≠ BYTES * 2 + 2 then _ else _) = _
  rw [if_neg hsize']
  show (Hex.decodeBuffer S (self.bytes.flatMap hexByte) _ >>= _ : Except Fault Id) = _
  rw [hdec]
  show (match ofBlob? self.bytes with | none => _ | some id => _) = _
  rw [ofBlob?_bytes]

/-- Base 58 and hexadecimal text can be read back, and no assertion of the conversions fails: for
every byte vector in base 58, and for every id in either text. Decoding any text in base 58 ends
without a failed assertion as well. -/
theorem text_roundTrip (S : Sodium) (hS : S.Documented) (B : Build) :
    (∀ x, (Base58.encode B x >>= Base58.decodeString B) = .ok x) ∧
      (∀ psz, ∃ data, Base58.decode B psz = .ok data) ∧
      ∀ id : Id, (id.toBase58String B >>= ofText S B) = .ok id ∧
        (id.toHexString S B >>= ofHex S) = .ok id := by
  refine ⟨?_, Base58.decode_ok B, ?_⟩
  · intro x
    obtain ⟨str, hstr⟩ := Base58.encode_ok B x
    rw [hstr]
    exact Base58.decodeString_encode hstr
  · intro id
    obtain ⟨str, hstr⟩ := Base58.encode_ok B id.bytes
    have hhex := Hex.encodeString_eq (B := B) hS id.bytes_ne_nil true
    constructor
    · rw [toBase58String, hstr]
      exact ofText_toBase58String hstr
    · rw [toHexString, hhex]
      exact ofHex_toHexString hS hhex

theorem sodium_text_roundTrip :
    (∀ x, (Base58.encode ⟨true⟩ x >>= Base58.decodeString ⟨true⟩) = .ok x) ∧
      (∀ psz, ∃ data, Base58.decode ⟨true⟩ psz = .ok data) ∧
      ∀ id : Id, (id.toBase58String ⟨true⟩ >>= ofText Hex.sodium ⟨true⟩) = .ok id ∧
        (id.toHexString Hex.sodium ⟨true⟩ >>= ofHex Hex.sodium) = .ok id :=
  text_roundTrip Hex.sodium Hex.sodium_documented ⟨true⟩

end Id

end Boson
