import Boson.Lib.Radix
import Boson.Message.Json
import Mathlib.Data.List.TakeWhile

/-!
# Base 58 text (`src/core/crypto/base58.cc`)

Both directions change the base of a number in place: for each digit that is read, one pass over the
vector of digits of the other base (`applyCarry`), whose size was computed from the length of the
input. The loops stop at an assertion that nothing is carried out of the vector.

Lengths and counts are natural numbers here: this is the code for inputs for which its `int` values
do not overflow.

* `decode_ok`: the vector of `base58_decode` is always large enough, for any text.
* `decode_encode`: every byte vector comes back, leading zero bytes included.
-/

namespace Boson.Base58

open Radix Nat

/-- `pszBase58`. -/
def pszBase58 : Text :=
  "123456789ABCDEFGHJKLMNPQRSTUVWXYZabcdefghijkmnopqrstuvwxyz".toList.map Char.toUInt8

/-- `mapBase58`, without the second half, which holds -1 only. -/
def mapBase58Table : List Int :=
  [-1, -1, -1, -1, -1, -1, -1, -1, -1, -1, -1, -1, -1, -1, -1, -1,
    -1, -1, -1, -1, -1, -1, -1, -1, -1, -1, -1, -1, -1, -1, -1, -1,
    -1, -1, -1, -1, -1, -1, -1, -1, -1, -1, -1, -1, -1, -1, -1, -1,
    -1, 0, 1, 2, 3, 4, 5, 6, 7, 8, -1, -1, -1, -1, -1, -1,
    -1, 9, 10, 11, 12, 13, 14, 15, 16, -1, 17, 18, 19, 20, 21, -1,
    22, 23, 24, 25, 26, 27, 28, 29, 30, 31, 32, -1, -1, -1, -1, -1,
    -1, 33, 34, 35, 36, 37, 38, 39, 40, 41, 42, 43, -1, 44, 45, 46,
    47, 48, 49, 50, 51, 52, 53, 54, 55, 56, 57, -1, -1, -1, -1, -1]

/-- `mapBase58`. -/
def mapBase58 (c : UInt8) : Int := mapBase58Table.getD c.toNat (-1)

/-- `is_space`. -/
def isSpace (c : UInt8) : Bool := c = 32 || c = 12 || c = 10 || c = 13 || c = 9 || c = 11

/-- The inner loop of both functions, over the vector `b` from its end: the last value of `carry`
and of `i`, and the vector. -/
def applyCarry (base mul length carry : Nat) (b : List Nat) : Nat × Nat × List Nat :=
  let (carry, i, digits) := mulAdd base mul length carry 0 b.reverse
  (carry, i, digits.reverse)

/-- The outer loop of `base58_encode`: `length` and `b58` after it. -/
def encodeLoop (B : Build) : (input : List UInt8) → (length : Nat) → (b58 : List Nat) →
    Except Fault (Nat × List Nat)
  | [], length, b58 => .ok (length, b58)
  | c :: input, length, b58 =>
    let (carry, i, b58) := applyCarry 58 256 length c.toNat b58
    if carry ≠ 0 ∧ B.asserts = true then .error .assertion else encodeLoop B input i b58

/-- `base58_encode`. -/
def encode (B : Build) (input : List UInt8) : Except Fault Text := do
  let zeroes := (input.takeWhile (· = 0)).length
  let input := input.dropWhile (· = 0)
  let size := input.length * 138 / 100 + 1
  let (length, b58) ← encodeLoop B input 0 (List.replicate size 0)
  let it := (b58.drop (size - length)).dropWhile (· = 0)
  return List.replicate zeroes 49 ++ it.map fun d => pszBase58.getD d 0

/-- The outer loop of `base58_decode`: the rest of the text, `length` and `b256` after it; `none`
where it meets a character of another alphabet. -/
def decodeLoop (B : Build) : (psz : Text) → (length : Nat) → (b256 : List Nat) →
    Except Fault (Option (Text × Nat × List Nat))
  | [], length, b256 => .ok (some ([], length, b256))
  | c :: psz, length, b256 =>
    if isSpace c then .ok (some (c :: psz, length, b256))
    else if mapBase58 c = -1 then .ok none
    else
      let (carry, i, b256) := applyCarry 256 58 length (mapBase58 c).toNat b256
      if carry ≠ 0 ∧ B.asserts = true then .error .assertion else decodeLoop B psz i b256

/-- `base58_decode(const char*)`, for the characters before the NUL. -/
def decode (B : Build) (psz : Text) : Except Fault (List UInt8) := do
  let psz := psz.dropWhile isSpace
  let zeroes := (psz.takeWhile (· = 49)).length
  let psz := psz.dropWhile (· = 49)
  let size := psz.length * 733 / 1000 + 1
  match ← decodeLoop B psz 0 (List.replicate size 0) with
  | none => return []
  | some (psz, length, b256) =>
    if psz.dropWhile isSpace ≠ [] then return []
    else
      return List.replicate zeroes 0 ++ (b256.drop (size - length)).map UInt8.ofNat

/-- `valid_as_cstring`. -/
def validAsCstring (str : Text) : Bool := str.length = (cStr str).length

/-- `base58_decode(const std::string&)`. -/
def decodeString (B : Build) (str : Text) : Except Fault (List UInt8) :=
  if validAsCstring str then decode B (cStr str) else .ok []

/-! ## One pass -/

theorem applyCarry_eq {base mul carry l v : Nat} (hb : 1 < base) (hm : 0 < mul)
    (hfit : v * mul + carry < base ^ l) :
    applyCarry base mul (digits base v).length carry (digitsAppend base l v).reverse =
      (0, (digits base (v * mul + carry)).length,
        (digitsAppend base l (v * mul + carry)).reverse) := by
  rw [applyCarry, List.reverse_reverse, mulAdd_eq hb hm (Nat.sub_zero _).symm hfit, Nat.zero_add]

/-- The room for one more digit. -/
theorem fit_step {base mul size v c n : Nat} (hc : c < mul)
    (h : (v + 1) * mul ^ (n + 1) ≤ base ^ size) :
    v * mul + c < base ^ size ∧ (v * mul + c + 1) * mul ^ n ≤ base ^ size := by
  have hle : v * mul + c + 1 ≤ (v + 1) * mul := by
    rw [Nat.add_mul, Nat.one_mul]
    omega
  have hstep : (v * mul + c + 1) * mul ^ n ≤ base ^ size := by
    calc (v * mul + c + 1) * mul ^ n ≤ (v + 1) * mul * mul ^ n := Nat.mul_le_mul_right _ hle
      _ = (v + 1) * mul ^ (n + 1) := by rw [Nat.pow_succ', Nat.mul_assoc]
      _ ≤ base ^ size := h
  have hpos : 0 < mul ^ n := Nat.pow_pos (by omega)
  have := Nat.le_mul_of_pos_right (v * mul + c + 1) hpos
  exact ⟨by omega, hstep⟩

/-! ## Encoding -/

theorem encodeLoop_eq (B : Build) (input : List UInt8) {size v : Nat}
    (h : (v + 1) * 256 ^ input.length ≤ 58 ^ size) :
    encodeLoop B input (digits 58 v).length (digitsAppend 58 size v).reverse =
      .ok ((digits 58 (read 256 v (input.map UInt8.toNat))).length,
        (digitsAppend 58 size (read 256 v (input.map UInt8.toNat))).reverse) := by
  induction input generalizing v with
  | nil => rfl
  | cons c input ih =>
    obtain ⟨hfit, hrest⟩ := fit_step c.toNat_lt h
    rw [encodeLoop, applyCarry_eq (by decide) (by decide) hfit]
    exact ih hrest

theorem encode_room (n : Nat) : (0 + 1) * 256 ^ n ≤ 58 ^ (n * 138 / 100 + 1) := by
  rw [Nat.zero_add, Nat.one_mul]
  exact pow_le_pow_of_ratio (q := 8) (p := 11) (by decide) (by decide) (by decide) (by omega)

/-- The bytes behind the leading zeros, as a number. -/
def number (x : List UInt8) : Nat := read 256 0 ((x.dropWhile (· = 0)).map UInt8.toNat)

theorem encode_eq (B : Build) (x : List UInt8) :
    encode B x = .ok (List.replicate (x.takeWhile (· = 0)).length 49 ++
      (digits 58 (number x)).reverse.map fun d => pszBase58.getD d 0) := by
  have hloop := encodeLoop_eq B (x.dropWhile (· = 0)) (v := 0)
    (encode_room (x.dropWhile (· = 0)).length)
  rw [digits_zero, List.length_nil, digitsAppend_zero, List.reverse_replicate] at hloop
  simp only [encode, hloop, number]
  show Except.ok _ = Except.ok _
  rw [drop_reverse_digitsAppend, dropWhile_eq_self (head?_reverse_digits 58 _)]

/-! ## Decoding -/

/-- The digits that the characters stand for. -/
def values? (psz : Text) : Option (List Nat) :=
  psz.mapM fun c => if mapBase58 c = -1 then none else some (mapBase58 c).toNat

theorem values?_cons (c : UInt8) (psz : Text) :
    values? (c :: psz) =
      if mapBase58 c = -1 then none else (values? psz).map ((mapBase58 c).toNat :: ·) := by
  rw [values?, List.mapM_cons]
  split
  · rfl
  · rw [← values?]
    cases values? psz <;> rfl

theorem mapBase58_lt (c : UInt8) : mapBase58 c < 58 := by
  have h : ∀ i ∈ mapBase58Table, i < 58 := by decide +kernel
  rw [mapBase58, List.getD_eq_getElem?_getD]
  cases hc : mapBase58Table[c.toNat]? with
  | none => decide
  | some i => exact h i (List.mem_of_getElem? hc)

theorem decodeLoop_eq (B : Build) (psz : Text) {size v : Nat}
    (h : (v + 1) * 58 ^ psz.length ≤ 256 ^ size) :
    decodeLoop B psz (digits 256 v).length (digitsAppend 256 size v).reverse =
      .ok ((values? (psz.takeWhile (!isSpace ·))).map fun ds =>
        (psz.dropWhile (!isSpace ·), (digits 256 (read 58 v ds)).length,
          (digitsAppend 256 size (read 58 v ds)).reverse)) := by
  induction psz generalizing v with
  | nil => rfl
  | cons c psz ih =>
    rw [decodeLoop]
    by_cases hs : isSpace c = true
    · rw [if_pos hs, List.takeWhile_cons_of_neg (by simp [hs]),
        List.dropWhile_cons_of_neg (by simp [hs])]
      rfl
    · rw [if_neg hs, List.takeWhile_cons_of_pos (by simp [hs]),
        List.dropWhile_cons_of_pos (by simp [hs])]
      by_cases hc : mapBase58 c = -1
      · rw [if_pos hc, values?_cons, if_pos hc]
        rfl
      · have hlt := mapBase58_lt c
        obtain ⟨hfit, hrest⟩ := fit_step (c := (mapBase58 c).toNat) (by omega) h
        rw [if_neg hc, applyCarry_eq (by decide) (by decide) hfit, values?_cons, if_neg hc]
        simp only [ne_eq, not_true_eq_false, false_and, ↓reduceIte, ih hrest, Option.map_map]
        rfl

theorem decode_room (n : Nat) : (0 + 1) * 58 ^ n ≤ 256 ^ (n * 733 / 1000 + 1) := by
  rw [Nat.zero_add, Nat.one_mul]
  exact pow_le_pow_of_ratio (q := 71) (p := 52) (by decide) (by decide) (by decide) (by omega)

/-- What `base58_decode` makes of the text behind the spaces and the leading '1's. -/
theorem decode_eq (B : Build) (psz : Text) :
    let zeroes := ((psz.dropWhile isSpace).takeWhile (· = 49)).length
    let rest := (psz.dropWhile isSpace).dropWhile (· = 49)
    decode B psz = .ok (match values? (rest.takeWhile (!isSpace ·)) with
      | none => []
      | some ds =>
        if (rest.dropWhile (!isSpace ·)).dropWhile isSpace ≠ [] then []
        else List.replicate zeroes 0 ++ (digits 256 (read 58 0 ds)).reverse.map UInt8.ofNat) := by
  intro zeroes rest
  have hloop := decodeLoop_eq B rest (v := 0) (decode_room rest.length)
  rw [digits_zero, List.length_nil, digitsAppend_zero, List.reverse_replicate] at hloop
  simp only [decode]
  rw [show decodeLoop B ((psz.dropWhile isSpace).dropWhile (· = 49)) 0 _ = _ from hloop]
  cases values? (rest.takeWhile (!isSpace ·)) with
  | none => rfl
  | some ds =>
    show (if _ then _ else _) = _
    rw [drop_reverse_digitsAppend]
    split_ifs <;> rfl

/-- No text makes the assertion of `base58_decode` fail. -/
theorem decode_ok (B : Build) (psz : Text) : ∃ data, decode B psz = .ok data := ⟨_, decode_eq B psz⟩

/-! ## Round trips -/

theorem alphabet {d : Nat} (hd : d < 58) :
    mapBase58 (pszBase58.getD d 0) = d ∧ isSpace (pszBase58.getD d 0) = false ∧
      pszBase58.getD d 0 ≠ 0 ∧ pszBase58.getD d 0 ≠ 48 ∧ (pszBase58.getD d 0 = 49 ↔ d = 0) := by
  revert d
  decide +kernel

theorem values?_map {ds : List Nat} (hds : ∀ d ∈ ds, d < 58) :
    values? (ds.map fun d => pszBase58.getD d 0) = some ds := by
  induction ds with
  | nil => rfl
  | cons d ds ih =>
    have hd := (alphabet (hds d List.mem_cons_self)).1
    rw [List.map_cons, values?_cons, ih fun x hx => hds x (List.mem_cons_of_mem _ hx),
      if_neg (by omega), hd]
    rfl

/-- The text of a byte vector: no character of it is a space, a NUL or a '0'. -/
theorem encode_chars {B : Build} {x : List UInt8} {str : Text} (h : encode B x = .ok str) :
    ∀ c ∈ str, isSpace c = false ∧ c ≠ 0 ∧ c ≠ 48 := by
  rw [encode_eq, Except.ok.injEq] at h
  subst h
  intro c hc
  rcases List.mem_append.mp hc with hc | hc
  · obtain rfl := List.eq_of_mem_replicate hc
    decide
  · obtain ⟨d, hd, rfl⟩ := List.mem_map.mp hc
    obtain ⟨-, hspace, hnul, hzero, -⟩ :=
      alphabet (digits_lt_base (by decide) (List.mem_reverse.mp hd))
    exact ⟨hspace, hnul, hzero⟩

theorem map_ofNat_toNat (x : List UInt8) : (x.map UInt8.toNat).map UInt8.ofNat = x := by
  rw [List.map_map]
  exact List.map_id'' (fun c => UInt8.ofNat_toNat) x

/-- The number of a byte vector has the bytes back, without the leading zeros. -/
theorem digits_number (x : List UInt8) :
    (digits 256 (number x)).reverse.map UInt8.ofNat = x.dropWhile (· = 0) := by
  rw [number, digits_read (by decide), map_ofNat_toNat]
  · intro d hd
    obtain ⟨c, -, rfl⟩ := List.mem_map.mp hd
    exact c.toNat_lt
  · intro h
    rw [List.head?_map, Option.map_eq_some_iff] at h
    obtain ⟨c, hc, hc0⟩ := h
    have hnot := List.head?_dropWhile_not (fun c : UInt8 => decide (c = 0)) x
    rw [hc] at hnot
    exact of_decide_eq_false hnot (UInt8.toNat_inj.mp hc0)

theorem replicate_append_dropWhile (x : List UInt8) :
    List.replicate (x.takeWhile (· = 0)).length 0 ++ x.dropWhile (· = 0) = x := by
  have h : x.takeWhile (· = 0) = List.replicate (x.takeWhile (· = 0)).length 0 := by
    refine List.eq_replicate_of_mem fun c hc => ?_
    simpa using List.mem_takeWhile_imp hc
  rw [← h, List.takeWhile_append_dropWhile]

/-- The characters behind the leading '1's of an encoded text. -/
theorem head?_digits_map (v : Nat) :
    ((digits 58 v).reverse.map fun d => pszBase58.getD d 0).head? ≠ some 49 := by
  intro h
  rw [List.head?_map, Option.map_eq_some_iff] at h
  obtain ⟨d, hd, h49⟩ := h
  have hlt : d < 58 := digits_lt_base (by decide) (List.mem_reverse.mp (List.mem_of_head? hd))
  obtain rfl := (alphabet hlt).2.2.2.2.mp h49
  exact head?_reverse_digits 58 v hd

/-- A text that is only '1's and digits: no space in it, and all the leading '1's apart. -/
theorem decode_digits {B : Build} {w : Text} {ds : List Nat} (n : Nat)
    (hspace : ∀ c ∈ List.replicate n 49 ++ w, isSpace c = false) (hhead : w.head? ≠ some 49)
    (hvalues : values? w = some ds) :
    decode B (List.replicate n 49 ++ w) =
      .ok (List.replicate n 0 ++ (digits 256 (read 58 0 ds)).reverse.map UInt8.ofNat) := by
  have hstart : (List.replicate n 49 ++ w).dropWhile isSpace = List.replicate n 49 ++ w :=
    List.dropWhile_eq_self_iff.mpr fun hl => by simp [hspace _ (List.getElem_mem hl)]
  have hnospace : ∀ c ∈ w, (!isSpace c) = true := by
    intro c hc
    rw [hspace c (List.mem_append_right _ hc)]
    rfl
  have hskip : w.dropWhile (· = 49) = w := dropWhile_eq_self hhead
  have htake : w.takeWhile (· = 49) = [] := by
    have := List.takeWhile_append_dropWhile (p := fun c : UInt8 => decide (c = 49)) (l := w)
    rw [hskip] at this
    exact List.append_left_eq_self.mp this
  have hones : ∀ c ∈ List.replicate n (49 : UInt8), decide (c = 49) = true :=
    fun c hc => decide_eq_true (List.eq_of_mem_replicate hc)
  rw [decode_eq, hstart, List.takeWhile_append_of_pos hones, List.dropWhile_append_of_pos hones,
    hskip, htake,
    List.takeWhile_eq_self_iff.mpr hnospace, List.dropWhile_eq_nil_iff.mpr hnospace, hvalues,
    List.append_nil, List.length_replicate]
  rfl

theorem decode_encode {B : Build} {x : List UInt8} {str : Text} (h : encode B x = .ok str) :
    decode B str = .ok x := by
  have hspace : ∀ c ∈ str, isSpace c = false := fun c hc => (encode_chars h c hc).1
  rw [encode_eq, Except.ok.injEq] at h
  subst h
  have hds : ∀ d ∈ (digits 58 (number x)).reverse, d < 58 := fun d hd =>
    digits_lt_base (by decide) (List.mem_reverse.mp hd)
  rw [decode_digits _ hspace (head?_digits_map (number x)) (values?_map hds), read_digits,
    digits_number, replicate_append_dropWhile]

/-- The string overloads: an encoded text has no NUL in it. -/
theorem decodeString_encode {B : Build} {x : List UInt8} {str : Text} (h : encode B x = .ok str) :
    decodeString B str = .ok x := by
  have hstr : cStr str = str :=
    List.takeWhile_eq_self_iff.mpr fun c hc => decide_eq_true (encode_chars h c hc).2.1
  rw [decodeString, validAsCstring, hstr, if_pos (decide_eq_true rfl), decode_encode h]

theorem encode_ok (B : Build) (x : List UInt8) : ∃ str, encode B x = .ok str := ⟨_, encode_eq B x⟩

end Boson.Base58
