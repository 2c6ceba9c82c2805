import Boson.Message.Json

/-!
# Hexadecimal text (`src/core/crypto/hex.h`, `src/core/crypto/hex.cc`)

The buffer functions check the room in the buffer before they call libsodium, and return -1 where it
does not fit. `decode` gives the buffer function half as many bytes as there are characters and
ignores what it returns. The buffer function refuses every buffer of odd size, so that for such a
string the result is all zeros.

* `Sodium`: the two functions of libsodium, and `Sodium.Documented`: what they are documented to do.
* `decode_eq`: what `decode` does with a string.
* `codec_iff`: the byte strings that survive a round trip, and the malformed strings that are
  refused.
-/

namespace Boson

/-- The digits of a byte. -/
def hexByte (b : UInt8) : Text :=
  [b / 16, b % 16].map fun d => if d < 10 then d + 48 else d + 87

/-- `sodium_bin2hex` and `sodium_hex2bin`. -/
structure Sodium where
  /-- The text that is written for the bytes, without the NUL behind it. -/
  bin2hex : List UInt8 → Text
  /-- The bytes that are written to a buffer of the given size, with no character to ignore and no
  `bin_len` and `hex_end`; `none` where -1 is returned. -/
  hex2bin : Nat → Text → Option (List UInt8)

namespace Hex

/-- `Hex::encode`, which asserts that there is something to encode. -/
def encode (B : Build) (data : List UInt8) : Except Fault Text :=
  if data = [] ∧ B.asserts = true then .error .assertion else .ok (data.flatMap hexByte)

/-! ## What libsodium does -/

/-- The value of a hexadecimal digit. -/
def digit? (c : UInt8) : Option UInt8 :=
  if 48 ≤ c ∧ c ≤ 57 then some (c - 48)
  else if 97 ≤ c ∧ c ≤ 102 then some (c - 87)
  else if 65 ≤ c ∧ c ≤ 70 then some (c - 55)
  else none

/-- The bytes of a text of digit pairs. -/
def unhex : Text → Option (List UInt8)
  | [] => some []
  | [_] => none
  | a :: b :: rest => do
    let high ← digit? a
    let low ← digit? b
    let bytes ← unhex rest
    return (high * 16 + low) :: bytes

end Hex

/-- What the two functions are documented to do: two lower-case digits for each byte; and the bytes
of a text that consists of digit pairs, if they fit. -/
structure Sodium.Documented (S : Sodium) : Prop where
  bin2hex_eq : ∀ bin, S.bin2hex bin = bin.flatMap hexByte
  hex2bin_eq : ∀ maxLen hex,
    S.hex2bin maxLen hex = (Hex.unhex hex).filter fun bin => bin.length ≤ maxLen

namespace Hex

/-! ## The functions of the source -/

variable (S : Sodium)

/-- `Hex::encode` into a buffer of `bufLen` bytes: what it returns, and the text that it writes. -/
def encodeBuffer (data : List UInt8) (bufLen : Nat) : Int × Option Text :=
  if bufLen < data.length * 2 + 1 then (-1, none) else (data.length * 2, some (S.bin2hex data))

/-- `Hex::encode` to a string. A buffer that was not written holds no string. -/
def encodeString (B : Build) (data : List UInt8) (needPrefix : Bool) : Except Fault Text :=
  if data = [] ∧ B.asserts = true then .error .assertion
  else
    let written : Text := if needPrefix then [48, 120] else []
    match (encodeBuffer S data (data.length * 2 + 4 - written.length)).2 with
    | some hex => .ok (written ++ hex)
    | none => .error .outOfBounds

/-- `Hex::decode` into the buffer `buf`: what it returns, and the buffer after it. -/
def decodeBuffer (data : Text) (buf : List UInt8) : Except Fault (Int × List UInt8) :=
  if buf.length % 2 ≠ 0 ∨ buf.length < data.length / 2 then .ok (-1, buf)
  else
    match S.hex2bin buf.length data with
    | none => .error (.exception "not an hex character")
    | some bin => .ok (data.length / 2, bin ++ buf.drop bin.length)

/-- `Hex::decode` of a string. -/
def decode (B : Build) (str : Text) : Except Fault (List UInt8) :=
  if str = [] ∧ B.asserts = true then .error .assertion
  else do
    let out := List.replicate (str.length / 2) 0
    let (_, out) ← decodeBuffer S str out
    return out

/-! ## Digits -/

theorem digit?_digit {d : UInt8} (h : d < 16) :
    digit? (if d < 10 then d + 48 else d + 87) = some d := by
  have key :
      ∀ n < 16, digit? (if UInt8.ofNat n < 10 then UInt8.ofNat n + 48 else UInt8.ofNat n + 87) =
      some (UInt8.ofNat n) := by decide
  have := key d.toNat (UInt8.lt_iff_toNat_lt.mp h)
  rwa [UInt8.ofNat_toNat] at this

theorem high_add_low (b : UInt8) : b / 16 * 16 + b % 16 = b := by
  have hb := b.toNat_lt
  have h : b.toNat / 16 * 16 + b.toNat % 16 = b.toNat := by omega
  apply UInt8.toNat_inj.mp
  simp only [UInt8.toNat_add, UInt8.toNat_mul, UInt8.toNat_div, UInt8.toNat_mod,
    show (16 : UInt8).toNat = 16 from rfl]
  omega

@[simp] theorem length_hexByte (b : UInt8) : (hexByte b).length = 2 := rfl

theorem length_flatMap_hexByte (data : List UInt8) :
    (data.flatMap hexByte).length = data.length * 2 := by
  induction data with
  | nil => rfl
  | cons b data ih =>
    rw [List.flatMap_cons, List.length_append, ih, length_hexByte, List.length_cons]
    omega

/-- Two digits make up their byte again. -/
theorem unhex_hexByte (b : UInt8) (rest : Text) :
    unhex (hexByte b ++ rest) = (unhex rest).map (b :: ·) := by
  have hhigh : b / 16 < 16 := by
    have hb := b.toNat_lt
    rw [UInt8.lt_iff_toNat_lt, UInt8.toNat_div]
    show b.toNat / 16 < 16
    omega
  have hlow : b % 16 < 16 := UInt8.mod_lt b (by decide)
  simp only [hexByte, List.map_cons, List.map_nil, List.cons_append, List.nil_append, unhex,
    digit?_digit hhigh, digit?_digit hlow, Option.bind_eq_bind, Option.bind_some, high_add_low]
  cases unhex rest <;> rfl

theorem unhex_flatMap (data : List UInt8) : unhex (data.flatMap hexByte) = some data := by
  induction data with
  | nil => rfl
  | cons b data ih => rw [List.flatMap_cons, unhex_hexByte, ih, Option.map_some]

/-! ## Malformed texts -/

/-- A text of odd length, or with a character that is no digit. -/
def Malformed (str : Text) : Prop := str.length % 2 = 1 ∨ ∃ c ∈ str, digit? c = none

theorem unhex_eq_none_iff {str : Text} : unhex str = none ↔ Malformed str := by
  fun_induction unhex str with
  | case1 => simp [Malformed]
  | case2 => simp [Malformed]
  | case3 a b rest ih =>
    have hlen : (a :: b :: rest).length % 2 = rest.length % 2 := by
      simp only [List.length_cons]
      omega
    simp only [Malformed, hlen, List.mem_cons, exists_eq_or_imp] at ih ⊢
    cases ha : digit? a with
    | none => simp
    | some high =>
      cases hb : digit? b with
      | none => simp
      | some low =>
        simp only [Option.bind_eq_bind, Option.bind_some, reduceCtorEq, false_or, ← ih]
        cases unhex rest <;> simp

theorem length_of_unhex {str : Text} {bin : List UInt8} (h : unhex str = some bin) :
    str.length = bin.length * 2 := by
  fun_induction unhex str generalizing bin with
  | case1 => cases h; rfl
  | case2 => cases h
  | case3 a b rest ih =>
    simp only [Option.bind_eq_bind, Option.bind_eq_some_iff, Option.pure_def,
      Option.some.injEq] at h
    obtain ⟨high, -, low, -, bytes, hrest, rfl⟩ := h
    have := ih hrest
    simp only [List.length_cons]
    omega

/-! ## Decoding -/

variable {S} {B : Build} {str : Text} {data : List UInt8}

/-- A buffer of odd size is left as it is, whatever the characters are. -/
theorem decodeBuffer_eq (hS : S.Documented) (buf : List UInt8)
    (hbuf : buf.length = str.length / 2) :
    decodeBuffer S str buf =
      if buf.length % 2 = 1 then .ok (-1, buf)
      else (unhex str).elim (.error (.exception "not an hex character")) fun bin =>
        .ok (str.length / 2, bin) := by
  rw [decodeBuffer, hS.hex2bin_eq]
  split_ifs with hguard hodd hodd
  · rfl
  · omega
  · omega
  · cases hu : unhex str with
    | none => rfl
    | some bin =>
      have hlen := length_of_unhex hu
      have hfit : bin.length ≤ buf.length := by omega
      have hdrop : buf.drop bin.length = [] := List.drop_eq_nil_of_le (by omega)
      simp only [Option.filter_some, decide_eq_true hfit, ↓reduceIte, hdrop, List.append_nil]
      rfl

/-- A string with an odd number of digit pairs comes out as zeros. The others are decoded, or
refused. -/
theorem decode_eq (hS : S.Documented) (hne : str ≠ []) :
    decode S B str =
      if str.length / 2 % 2 = 1 then .ok (List.replicate (str.length / 2) 0)
      else (unhex str).elim (.error (.exception "not an hex character")) .ok := by
  have hassert : ¬ (str = [] ∧ B.asserts = true) := fun h => hne h.1
  rw [decode, if_neg hassert]
  simp only [decodeBuffer_eq hS (List.replicate (str.length / 2) 0) List.length_replicate,
    List.length_replicate]
  split_ifs with hodd
  · rfl
  · cases unhex str <;> rfl

/-- The buffer of `encodeString` always has the room. -/
theorem encodeString_eq (hS : S.Documented) (hne : data ≠ []) (needPrefix : Bool) :
    encodeString S B data needPrefix =
      .ok ((if needPrefix then [48, 120] else []) ++ data.flatMap hexByte) := by
  have hassert : ¬ (data = [] ∧ B.asserts = true) := fun h => hne h.1
  simp only [encodeString, hassert, ↓reduceIte, encodeBuffer]
  rw [if_neg, ← hS.bin2hex_eq]
  cases needPrefix
  · show ¬ data.length * 2 + 4 - 0 < data.length * 2 + 1
    omega
  · show ¬ data.length * 2 + 4 - 2 < data.length * 2 + 1
    omega

/-- What is printed of a byte string is what is encoded. -/
theorem encodeString_eq_encode (hS : S.Documented) (hne : data ≠ []) :
    encodeString S B data false = encode B data := by
  have hassert : ¬ (data = [] ∧ B.asserts = true) := fun h => hne h.1
  rw [encodeString_eq hS hne, encode, if_neg hassert]
  rfl

/-! ## Round trips -/

variable (S B)

/-- `Hex::decode(Hex::encode(data))` is `data`. -/
def RoundTrips (data : List UInt8) : Prop :=
  (encodeString S B data false >>= decode S B) = .ok data

/-- `Hex::decode` throws. -/
def Refuses (str : Text) : Prop := ∃ what, decode S B str = .error (.exception what)

variable {S B}

theorem roundTrips_iff (hS : S.Documented) (hne : data ≠ []) :
    RoundTrips S B data ↔ data.length % 2 = 0 ∨ ∀ b ∈ data, b = 0 := by
  have hlen := length_flatMap_hexByte data
  have hpos : 0 < data.length := List.length_pos_iff.mpr hne
  have hne' : data.flatMap hexByte ≠ [] := List.length_pos_iff.mp (by omega)
  have henc : encodeString S B data false = .ok (data.flatMap hexByte) :=
    encodeString_eq hS hne false
  rw [RoundTrips, henc]
  show decode S B _ = _ ↔ _
  rw [decode_eq hS hne', hlen, Nat.mul_div_cancel _ (by decide), unhex_flatMap]
  split_ifs with hodd
  · rw [Except.ok.injEq, eq_comm, List.eq_replicate_iff]
    simp only [true_and]
    exact ⟨Or.inr, fun h => h.resolve_left (by omega)⟩
  · exact iff_of_true rfl (.inl (by omega))

theorem refuses_iff (hS : S.Documented) (h : Malformed str) :
    Refuses S B str ↔ str.length / 2 % 2 = 0 := by
  have hne : str ≠ [] := by
    rintro rfl
    simp [Malformed] at h
  rw [Refuses, decode_eq hS hne, unhex_eq_none_iff.mpr h]
  split_ifs with hodd
  · simp only [exists_false, false_iff]
    omega
  · exact iff_of_true ⟨_, rfl⟩ (by omega)

/-- A non-empty byte string survives the round trip exactly if its length is even or it is all
zeros, and a malformed string is refused exactly if it has an even number of complete digit
pairs. -/
theorem codec_iff (hS : S.Documented) :
    (∀ data, data ≠ [] → (RoundTrips S B data ↔ data.length % 2 = 0 ∨ ∀ b ∈ data, b = 0)) ∧
      ∀ str, Malformed str → (Refuses S B str ↔ str.length / 2 % 2 = 0) :=
  ⟨fun _ hne => roundTrips_iff hS hne, fun _ h => refuses_iff hS h⟩

/-- The two functions as they are documented. -/
def sodium : Sodium where
  bin2hex bin := bin.flatMap hexByte
  hex2bin maxLen hex := (unhex hex).filter fun bin => bin.length ≤ maxLen

theorem sodium_documented : sodium.Documented where
  bin2hex_eq _ := rfl
  hex2bin_eq _ _ := rfl

theorem sodium_codec :
    (∀ data, data ≠ [] →
      (RoundTrips sodium ⟨true⟩ data ↔ data.length % 2 = 0 ∨ ∀ b ∈ data, b = 0)) ∧
      ∀ str, Malformed str → (Refuses sodium ⟨true⟩ str ↔ str.length / 2 % 2 = 0) :=
  codec_iff sodium_documented

/-- The byte 1 comes back as 0, and "zz" is no byte but comes back as 0 too. -/
theorem oneByte_lost :
    ¬ RoundTrips sodium ⟨true⟩ [1] ∧ Malformed [122, 122] ∧ ¬ Refuses sodium ⟨true⟩ [122, 122] := by
  refine ⟨?_, .inr ⟨122, by decide, by decide⟩, ?_⟩
  · show ¬ (Except.ok [0] = .ok [1])
    simp
  · rintro ⟨what, h⟩
    have : decode sodium ⟨true⟩ [122, 122] = .ok [0] := rfl
    rw [this] at h
    cases h

end Hex

end Boson
