import Boson.Lib.Keyspace
import Mathlib.Data.List.Basic

/-!
# Node, value and peer identifiers (`include/boson/id.h`, `src/core/id.cc`)

An `Id` is 32 bytes. The functions below work on the bytes as the source does: a comparison finds
the first byte where two ids differ (`mmi` in the source) and decides there, with masks for the
partial byte of a bit depth.

`Id.key` is the bit string of an id. Every function gets one lemma that says what it does to the
bits: `bitsEqual_iff`, `bit_bitsCopy`, `lt_iff_key`, `threeWayCompare_neg_iff`.
-/

namespace Boson

open Keyspace

/-- `Id`: an array of `ID_BYTES = 32` bytes. -/
structure Id where
  bytes : List UInt8
  size_eq : bytes.length = 32
  deriving DecidableEq

namespace Id

/-- `ID_BYTES`. -/
def BYTES : Nat := 32

/-- `ID_BITS`. -/
def BITS : Int := 256

/-- Byte `i`; 0 past the end, which no call reads. -/
def byte (x : Id) (i : Nat) : UInt8 := x.bytes.getD i 0

/-- `x` with byte `i` replaced by `v`. -/
def setByte (x : Id) (i : Nat) (v : UInt8) : Id :=
  ⟨x.bytes.set i v, by rw [List.length_set]; exact x.size_eq⟩

/-- The id whose byte `i` is `f i`. -/
def ofFn (f : Nat → UInt8) : Id := ⟨(List.range 32).map f, by simp⟩

/-- `Id(const Blob&)`; `none` where it throws. -/
def ofBlob? (l : List UInt8) : Option Id := if h : l.length = 32 then some ⟨l, h⟩ else none

@[simp] theorem ofBlob?_bytes (x : Id) : ofBlob? x.bytes = some x := by simp [ofBlob?, x.size_eq]

theorem bytes_ne_nil (x : Id) : x.bytes ≠ [] := by
  intro h
  have := x.size_eq
  simp [h] at this

/-- `Id::zero`, `Id::MIN_ID`. -/
def zero : Id := ofFn fun _ => 0

/-- `Id::MAX_ID`. -/
def MAX_ID : Id := ofFn fun _ => 0xff

/-- `Id::distance`. -/
def distance (self other : Id) : Id := ofFn fun i => self.byte i ^^^ other.byte i

/-- The loop that finds the first byte where two ids differ (`mmi`); `none` stands for its
initial value. -/
def mmi (id1 id2 : Id) : Option Nat := (List.range 32).find? fun i => id1.byte i != id2.byte i

/-- `Id::threeWayCompare`: which of `id1` and `id2` is closer to `self`. -/
def threeWayCompare (self id1 id2 : Id) : Int :=
  match mmi id1 id2 with
  | none => 0
  | some mmi =>
    let a := id1.byte mmi ^^^ self.byte mmi
    let b := id2.byte mmi ^^^ self.byte mmi
    if a < b then -1 else if b < a then 1 else 0

/-- `Id::compareTo`: `memcmp` of the two byte arrays. -/
def compareTo (self other : Id) : Int :=
  match mmi self other with
  | none => 0
  | some mmi => ((self.byte mmi).toNat : Int) - ((other.byte mmi).toNat : Int)

/-- The low byte of `0xff80 >> (n & 0x07)`: bits 0 to `n % 8` of a byte. -/
def mask (n : Nat) : UInt8 := UInt8.ofNat (0xff80 >>> (n % 8))

/-- `Id::bitsEqual`: bits 0 to `n` of the two ids agree. -/
def bitsEqual (id1 id2 : Id) (n : Int) : Bool :=
  if n < 0 then true
  else
    let indexToCheck := n.toNat / 8
    let diff := id1.byte indexToCheck ^^^ id2.byte indexToCheck
    let bitsDiff := diff &&& mask n.toNat == 0
    match mmi id1 id2 with
    | none => true
    | some mmi => if mmi = indexToCheck then bitsDiff else indexToCheck < mmi

/-- `Id::bitsCopy`: `dest` with bits 0 to `depth` taken from `src`. -/
def bitsCopy (src dest : Id) (depth : Int) : Id :=
  if depth < 0 then dest
  else
    let idx := depth.toNat / 8
    -- all complete bytes, then the masked part of the last one
    let dest := ofFn fun i => if i < idx then src.byte i else dest.byte i
    dest.setByte idx
      ((dest.byte idx &&& ~~~ mask depth.toNat) ||| (src.byte idx &&& mask depth.toNat))

/-- `Id::operator<`: lexicographic comparison of the bytes. -/
instance : LT Id := ⟨fun a b => a.compareTo b < 0⟩

instance (a b : Id) : Decidable (a < b) := inferInstanceAs (Decidable (a.compareTo b < 0))

/-! ## Bytes -/

variable {a b : Id} {i : Nat}

@[simp] theorem byte_ofFn (f : Nat → UInt8) (hi : i < 32) : (ofFn f).byte i = f i := by
  simp [byte, ofFn, List.getD_eq_getElem?_getD, hi]

theorem byte_of_le (x : Id) (hi : 32 ≤ i) : x.byte i = 0 := by
  simp [byte, List.getD_eq_getElem?_getD, List.getElem?_eq_none (x.size_eq ▸ hi)]

theorem byte_setByte (x : Id) (i j : Nat) (v : UInt8) (hi : i < 32) :
    (x.setByte i v).byte j = if j = i then v else x.byte j := by
  have hlen := x.size_eq
  simp only [byte, setByte, List.getD_eq_getElem?_getD, List.getElem?_set]
  split
  · subst_vars
    simp [hlen, hi]
  · rw [if_neg (Ne.symm ‹_›)]

theorem ext_bytes (h : a.bytes = b.bytes) : a = b := by
  cases a
  cases b
  cases h
  rfl

theorem ext_byte (h : ∀ i < 32, a.byte i = b.byte i) : a = b := by
  obtain ⟨xs, hx⟩ := a
  obtain ⟨ys, hy⟩ := b
  congr 1
  refine List.ext_getElem (hx.trans hy.symm) fun i h1 h2 => ?_
  simpa [byte, List.getD_eq_getElem?_getD, h1, h2] using h i (hx ▸ h1)

theorem mmi_eq_none : mmi a b = none ↔ a = b := by
  constructor
  · intro h
    refine ext_byte fun i hi => ?_
    simpa using List.find?_eq_none.mp h i (List.mem_range.mpr hi)
  · rintro rfl
    simp [mmi]

theorem mmi_eq_some {k : Nat} :
    mmi a b = some k ↔ k < 32 ∧ a.byte k ≠ b.byte k ∧ ∀ j < k, a.byte j = b.byte j := by
  unfold mmi
  rw [List.find?_range_eq_some]
  simp only [bne_iff_ne, List.mem_range, Bool.not_eq_true', bne_eq_false_iff_eq]
  tauto

theorem mmi_comm : mmi a b = mmi b a := by
  unfold mmi
  congr 1
  funext i
  rw [bne_comm]

/-! ## Bits -/

/-- The bit string of an id. -/
def key (x : Id) : Key := ofBytes x.byte

/-- Bit `i`, most significant first. -/
def bit (x : Id) (i : Nat) : Bool := x.key i

theorem key_apply (x : Id) (i : Nat) : x.key i = x.bit i := rfl

theorem bit_of_le (x : Id) (hi : 256 ≤ i) : x.bit i = false := by
  simp [bit, key, ofBytes, byte_of_le x (show 32 ≤ i / 8 by omega)]

theorem key_injective : Function.Injective key := by
  intro a b h
  exact ext_byte fun i _ => congrFun (ofBytes_injective h) i

theorem ext_bit (h : ∀ i < 256, a.bit i = b.bit i) : a = b := by
  refine key_injective (funext fun i => ?_)
  by_cases hi : i < 256
  · exact h i hi
  · exact (a.bit_of_le (Nat.not_lt.mp hi)).trans (b.bit_of_le (Nat.not_lt.mp hi)).symm

@[simp] theorem bit_zero (i : Nat) : zero.bit i = false := by
  by_cases hi : i < 256
  · simp [bit, key, ofBytes, zero, byte_ofFn _ (show i / 8 < 32 by omega)]
  · exact bit_of_le _ (Nat.not_lt.mp hi)

theorem bit_MAX_ID (hi : i < 256) : MAX_ID.bit i = true := by
  have h : ∀ k < 8, (0xff : UInt8).toNat.testBit k = true := by decide
  simp only [bit, key, ofBytes, MAX_ID, byte_ofFn _ (show i / 8 < 32 by omega)]
  exact h _ (by omega)

@[simp] theorem bit_distance (a b : Id) (i : Nat) : (a.distance b).bit i =
    (a.bit i ^^ b.bit i) := by
  by_cases hi : i < 256
  · have := congrFun (ofBytes_xor a.byte b.byte) i
    simp only [bit, key, ofBytes, distance, byte_ofFn _ (show i / 8 < 32 by omega)] at this ⊢
    exact this
  · have hi := Nat.not_lt.mp hi
    simp [bit_of_le _ hi]

theorem key_distance (a b : Id) : toLex (a.distance b).key = xorDist a.key b.key := by
  unfold xorDist
  congr 1
  funext i
  exact bit_distance a b i

/-! ## The two orders -/

theorem compareTo_neg_iff : a.compareTo b < 0 ↔ toLex a.key < toLex b.key := by
  unfold compareTo key
  rw [ofBytes_lt_iff]
  cases h : mmi a b with
  | none =>
    obtain rfl := mmi_eq_none.mp h
    simp only [Int.lt_irrefl, false_iff, not_exists, not_and]
    exact fun i _ => UInt8.lt_irrefl _
  | some k =>
    obtain ⟨hk, hne, hag⟩ := mmi_eq_some.mp h
    have hlt : ((a.byte k).toNat : Int) - ((b.byte k).toNat : Int) < 0 ↔ a.byte k < b.byte k := by
      rw [UInt8.lt_iff_toNat_lt]; omega
    simp only [hlt]
    constructor
    · exact fun h => ⟨k, hag, h⟩
    · rintro ⟨i, hagi, hi⟩
      rcases lt_trichotomy i k with hik | rfl | hik
      · exact absurd (hag i hik) (UInt8.ne_of_lt hi)
      · exact hi
      · exact absurd (hagi k hik) hne

theorem compareTo_zero_iff : a.compareTo b = 0 ↔ a = b := by
  unfold compareTo
  cases h : mmi a b with
  | none => simp [mmi_eq_none.mp h]
  | some k =>
    obtain ⟨-, hne, -⟩ := mmi_eq_some.mp h
    have hab : a ≠ b := fun e => hne (e ▸ rfl)
    have : (a.byte k).toNat ≠ (b.byte k).toNat := fun e => hne (UInt8.toNat_inj.mp e)
    simp only [hab, iff_false]
    omega

theorem compareTo_swap : b.compareTo a = - a.compareTo b := by
  unfold compareTo
  rw [mmi_comm (a := b)]
  cases mmi a b with
  | none => rfl
  | some k => simp

theorem lt_iff_key : a < b ↔ toLex a.key < toLex b.key := compareTo_neg_iff

theorem toLex_key_injective : Function.Injective fun x : Id => toLex x.key :=
  fun _ _ h => key_injective (toLex.injective h)

instance : LE Id := ⟨fun a b => a.compareTo b ≤ 0⟩

instance (a b : Id) : Decidable (a ≤ b) := inferInstanceAs (Decidable (a.compareTo b ≤ 0))

theorem le_iff_key : a ≤ b ↔ toLex a.key ≤ toLex b.key := by
  have h : ¬ b.compareTo a < 0 ↔ toLex a.key ≤ toLex b.key :=
    (not_congr compareTo_neg_iff).trans not_lt
  rw [← h, compareTo_swap (a := a)]
  show a.compareTo b ≤ 0 ↔ _
  omega

/-- The numeric order of ids: `compareTo` and `operator<`. -/
instance : LinearOrder Id where
  le_refl a := le_iff_key.mpr le_rfl
  le_trans a b c h h' := le_iff_key.mpr ((le_iff_key.mp h).trans (le_iff_key.mp h'))
  lt_iff_le_not_ge a b := by simp only [lt_iff_key, le_iff_key]; exact lt_iff_le_not_ge
  le_antisymm a b h h' :=
    toLex_key_injective (le_antisymm (le_iff_key.mp h) (le_iff_key.mp h'))
  le_total a b := by simp only [le_iff_key]; exact le_total _ _
  toDecidableLE := inferInstance
  toDecidableEq := inferInstance
  toDecidableLT := inferInstance

theorem byte_xor_ne {x y z : UInt8} (h : x ≠ y) : x ^^^ z ≠ y ^^^ z := by
  intro e
  have e' := congrArg (· ^^^ z) e
  simp only [UInt8.xor_assoc, UInt8.xor_self, UInt8.xor_zero] at e'
  exact h e'

/-- `threeWayCompare` looks only at the first byte where the ids differ, and agrees with the
comparison of the full distances. -/
theorem threeWayCompare_neg_iff {t : Id} :
    t.threeWayCompare a b < 0 ↔ xorDist t.key a.key < xorDist t.key b.key := by
  have hfull : xorDist t.key a.key < xorDist t.key b.key ↔
      ∃ i, (∀ j < i, a.byte j ^^^ t.byte j = b.byte j ^^^ t.byte j) ∧
        a.byte i ^^^ t.byte i < b.byte i ^^^ t.byte i := by
    rw [← ofBytes_lt_iff (f := fun i => a.byte i ^^^ t.byte i)
      (g := fun i => b.byte i ^^^ t.byte i), ofBytes_xor, ofBytes_xor]
    simp only [xorDist, key, Bool.xor_comm]
  rw [hfull]
  unfold threeWayCompare
  cases h : mmi a b with
  | none =>
    obtain rfl := mmi_eq_none.mp h
    simp only [Int.lt_irrefl, false_iff, not_exists, not_and]
    exact fun i _ => UInt8.lt_irrefl _
  | some k =>
    obtain ⟨hk, hne, hag⟩ := mmi_eq_some.mp h
    have hlt : (if a.byte k ^^^ t.byte k < b.byte k ^^^ t.byte k then (-1 : Int)
        else if b.byte k ^^^ t.byte k < a.byte k ^^^ t.byte k then 1 else 0) < 0 ↔
        a.byte k ^^^ t.byte k < b.byte k ^^^ t.byte k := by
      split
      · simp_all
      · split <;> simp_all
    simp only [hlt]
    constructor
    · exact fun h => ⟨k, fun j hj => by rw [hag j hj], h⟩
    · rintro ⟨i, hagi, hi⟩
      rcases lt_trichotomy i k with hik | rfl | hik
      · exact absurd (congrArg (· ^^^ t.byte i) (hag i hik)) (UInt8.ne_of_lt hi)
      · exact hi
      · exact absurd (hagi k hik) (byte_xor_ne hne)

theorem threeWayCompare_swap {t : Id} : t.threeWayCompare b a = - t.threeWayCompare a b := by
  unfold threeWayCompare
  rw [mmi_comm (a := b)]
  cases mmi a b with
  | none => rfl
  | some k =>
    simp only
    split
    · rename_i h
      rw [if_neg (UInt8.lt_asymm h)]
    · split <;> simp_all

theorem threeWayCompare_pos_iff {t : Id} :
    0 < t.threeWayCompare a b ↔ xorDist t.key b.key < xorDist t.key a.key := by
  rw [← threeWayCompare_neg_iff, threeWayCompare_swap (a := a)]
  omega

theorem threeWayCompare_le_iff {t : Id} :
    t.threeWayCompare a b ≤ 0 ↔ xorDist t.key a.key ≤ xorDist t.key b.key := by
  exact Int.not_lt.symm.trans ((not_congr threeWayCompare_pos_iff).trans not_lt)

theorem xorDist_key_injective (t : Id) : Function.Injective fun x : Id => xorDist t.key x.key :=
  fun _ _ h => key_injective (xorDist_injective _ h)

theorem distance_lt_iff {t : Id} :
    t.distance a < t.distance b ↔ xorDist t.key a.key < xorDist t.key b.key := by
  rw [lt_iff_key, key_distance, key_distance]

theorem distance_lt_of_below {t b' : Id} (ha : a < t) (hb : t < b) (hb' : b ≤ b')
    (h : t.distance a < t.distance b) : t.distance a < t.distance b' := by
  rw [distance_lt_iff] at h ⊢
  exact xorDist_lt_of_below (lt_iff_key.mp ha) (lt_iff_key.mp hb) (le_iff_key.mp hb') h

theorem distance_lt_of_above {t b' : Id} (ha : t < a) (hb : b < t) (hb' : b' ≤ b)
    (h : t.distance a < t.distance b) : t.distance a < t.distance b' := by
  rw [distance_lt_iff] at h ⊢
  exact xorDist_lt_of_above (lt_iff_key.mp ha) (lt_iff_key.mp hb) (le_iff_key.mp hb') h

theorem distance_self_lt {t : Id} (h : t ≠ a) : t.distance t < t.distance a := by
  obtain ⟨i, hag, hi⟩ := exists_first_diff (fun hk => h (key_injective hk))
  exact distance_lt_iff.mpr ((xorDist_lt_iff_of_first_diff hag hi).mpr rfl)

theorem distance_injective (t : Id) : Function.Injective t.distance := by
  intro a b h
  refine xorDist_key_injective t ?_
  simp only [← key_distance, h]

theorem threeWayCompare_le_iff_distance {t : Id} :
    t.threeWayCompare a b ≤ 0 ↔ t.distance a ≤ t.distance b := by
  rw [threeWayCompare_le_iff, le_iff_key, key_distance, key_distance]

/-- The bit of `t` is 0 where `a` and `b` fork, that is at the first bit where they differ. -/
def ForkAtZero (t a b : Id) : Prop :=
  ∀ i, (∀ j < i, a.bit j = b.bit j) → a.bit i ≠ b.bit i → t.bit i = false

/-- Of two ids the lower one is the closer one exactly if they fork at a 0 bit of the target. -/
theorem distance_lt_iff_forkAtZero {t : Id} (h : a < b) :
    t.distance a < t.distance b ↔ ForkAtZero t a b := by
  obtain ⟨i, hag, hi⟩ := exists_first_diff (fun hk => h.ne (key_injective hk))
  have hord := orders_agree_iff (t := t.key) hag hi
  rw [← lt_iff_key, ← distance_lt_iff] at hord
  constructor
  · intro hd j hagj hj
    -- the first difference is unique
    obtain rfl : j = i := by
      rcases lt_trichotomy i j with hij | hij | hij
      · exact absurd (hagj i hij) hi
      · exact hij.symm
      · exact absurd (hag j hij) hj
    exact hord.mp ⟨fun _ => hd, fun _ => h⟩
  · intro hf
    exact (hord.mpr (hf i hag hi)).mp h

theorem threeWayCompare_zero_iff {t : Id} : t.threeWayCompare a b = 0 ↔ a = b := by
  constructor
  · intro h
    refine xorDist_key_injective t (le_antisymm ?_ ?_)
    · exact threeWayCompare_le_iff.mp (by omega)
    · exact threeWayCompare_le_iff.mp (by rw [threeWayCompare_swap (a := a)]; omega)
  · rintro rfl
    simp [threeWayCompare, mmi_eq_none.mpr]

/-! ## Bit depths -/

/-- The mask of depth `n` keeps bits 0 to `n % 8` of a byte, counted from the top. -/
theorem testBit_mask (n : Nat) {k : Nat} (hk : k < 8) :
    (mask n).toNat.testBit (7 - k) = decide (k ≤ n % 8) := by
  have h : ∀ m < 8, ∀ k < 8,
      (UInt8.ofNat (0xff80 >>> m)).toNat.testBit (7 - k) = decide (k ≤ m) := by decide
  exact h (n % 8) (Nat.mod_lt _ (by decide)) k hk

theorem testBit_not {x : UInt8} {k : Nat} (hk : k < 8) :
    (~~~ x).toNat.testBit k = !x.toNat.testBit k := by
  have h := BitVec.getLsbD_not (x := x.toBitVec) (i := k)
  simpa [hk, BitVec.getLsbD, ← UInt8.toNat_toBitVec] using h

theorem and_eq_zero_iff {x y : UInt8} :
    x &&& y = 0 ↔ ∀ k < 8, (x.toNat.testBit k && y.toNat.testBit k) = false := by
  constructor
  · intro h k _
    rw [← Nat.testBit_and, ← UInt8.toNat_and, h]
    simp
  · intro h
    refine byte_ext fun k hk => ?_
    rw [UInt8.toNat_and, Nat.testBit_and, h k hk]
    simp

/-- The masked bits of two bytes are equal. -/
theorem xor_and_mask_eq_zero_iff {x y : UInt8} {n : Nat} :
    (x ^^^ y) &&& mask n = 0 ↔ ∀ k ≤ n % 8, x.toNat.testBit (7 - k) = y.toNat.testBit (7 - k) := by
  rw [and_eq_zero_iff]
  constructor
  · intro h k hk
    have hbit := h (7 - k) (by omega)
    rw [testBit_mask n (by omega), UInt8.toNat_xor, Nat.testBit_xor] at hbit
    simpa [hk] using hbit
  · intro h k hk
    have hbit := testBit_mask n (k := 7 - k) (by omega)
    rw [show 7 - (7 - k) = k by omega] at hbit
    rw [hbit, UInt8.toNat_xor, Nat.testBit_xor]
    by_cases hle : 7 - k ≤ n % 8
    · have heq := h (7 - k) hle
      rw [show 7 - (7 - k) = k by omega] at heq
      simp [heq]
    · simp [hle]

theorem bitsEqual_iff {n : Int} (hn : n < 256) :
    bitsEqual a b n = true ↔ Agree (n + 1).toNat a.key b.key := by
  unfold bitsEqual
  by_cases h0 : n < 0
  · simp only [h0, ↓reduceIte, true_iff]
    exact agree_zero.mono (by omega)
  obtain ⟨m, rfl⟩ := Int.eq_ofNat_of_zero_le (Int.not_lt.mp h0)
  have hm : m < 256 := by omega
  simp only [h0, ↓reduceIte, Int.toNat_natCast]
  rw [show ((m : Int) + 1).toNat = m + 1 by omega]
  cases h : mmi a b with
  | none =>
    obtain rfl := mmi_eq_none.mp h
    simp [Agree.refl]
  | some k =>
    obtain ⟨hk, hne, hag⟩ := mmi_eq_some.mp h
    have hag8 : Agree (8 * k) a.key b.key := ofBytes_agree_iff.mpr hag
    simp only
    split
    · -- The first different byte holds the last bit to compare: the masked bits decide.
      rename_i hkm
      subst hkm
      rw [beq_iff_eq, xor_and_mask_eq_zero_iff]
      constructor
      · intro hz i hi
        by_cases hi8 : i < 8 * (m / 8)
        · exact hag8 i hi8
        have hd : i / 8 = m / 8 := by omega
        simpa only [key, ofBytes, hd] using hz (i % 8) (by omega)
      · intro hagm k hle
        have hbit := hagm (8 * (m / 8) + k) (by omega)
        rwa [key, key, ofBytes_mul_add _ _ (by omega), ofBytes_mul_add _ _ (by omega)] at hbit
    · rename_i hkm
      rw [decide_eq_true_eq]
      constructor
      · intro hlt
        exact hag8.mono (by omega)
      · intro hagm
        by_contra hlt
        exact hne (ofBytes_agree_iff.mp (hagm.mono (show 8 * (k + 1) ≤ m + 1 by omega)) k
          (Nat.lt_succ_self k))

theorem byte_bitsCopy (src dest : Id) {m j : Nat} (hm : m < 256) (hj : j < 32) :
    (bitsCopy src dest m).byte j =
      if j < m / 8 then src.byte j
      else if j = m / 8 then (dest.byte j &&& ~~~ mask m) ||| (src.byte j &&& mask m)
      else dest.byte j := by
  have h0 : ¬ ((m : Int) < 0) := by omega
  have hidx : m / 8 < 32 := by omega
  simp only [bitsCopy, h0, ↓reduceIte, Int.toNat_natCast]
  rw [byte_setByte _ _ _ _ hidx]
  split
  · subst_vars
    rw [byte_ofFn _ hidx]
    simp
  · rw [byte_ofFn _ hj]

theorem bit_bitsCopy {src dest : Id} {n : Int} (hn : n < 256) (i : Nat) :
    (bitsCopy src dest n).bit i = if (i : Int) ≤ n then src.bit i else dest.bit i := by
  by_cases hi : i < 256
  swap
  · have hi := Nat.not_lt.mp hi
    rw [if_neg (by omega), bit_of_le _ hi, bit_of_le _ hi]
  by_cases h0 : n < 0
  · rw [if_neg (by omega)]
    simp only [bitsCopy, h0, ↓reduceIte]
  obtain ⟨m, rfl⟩ := Int.eq_ofNat_of_zero_le (Int.not_lt.mp h0)
  have hm : m < 256 := by omega
  have hb := byte_bitsCopy src dest hm (show i / 8 < 32 by omega)
  simp only [bit, key, ofBytes, hb]
  rcases lt_trichotomy (i / 8) (m / 8) with hlt | heq | hgt
  · rw [if_pos hlt, if_pos (by omega)]
  · rw [if_neg (by omega), if_pos heq, UInt8.toNat_or, Nat.testBit_or, UInt8.toNat_and,
      UInt8.toNat_and, Nat.testBit_and, Nat.testBit_and, testBit_not (by omega),
      testBit_mask m (by omega)]
    by_cases hle : i % 8 ≤ m % 8
    · rw [if_pos (by omega)]
      simp [hle]
    · rw [if_neg (by omega)]
      simp [hle]
  · rw [if_neg (by omega), if_neg (by omega), if_neg (by omega)]

/-- Clearing or setting the bit at `n` of an id, as `setTail` and `splitBranch` do it. -/
theorem bit_setByte_and {x : Id} {n : Nat} (hn : n < 256) (i : Nat) :
    (x.setByte (n / 8) (x.byte (n / 8) &&& ~~~ UInt8.ofNat (0x80 >>> (n % 8)))).bit i =
      if i = n then false else x.bit i := by
  have hbit : ∀ m < 8, ∀ k < 8,
      (UInt8.ofNat (0x80 >>> m)).toNat.testBit (7 - k) = decide (k = m) := by decide
  simp only [bit, key, ofBytes, byte_setByte _ _ _ _ (show n / 8 < 32 by omega)]
  by_cases hq : i / 8 = n / 8
  · rw [if_pos hq, UInt8.toNat_and, Nat.testBit_and, testBit_not (by omega),
      hbit _ (by omega) _ (by omega), hq]
    by_cases hr : i % 8 = n % 8
    · simp [show i = n by omega]
    · simp [hr, show i ≠ n by rintro rfl; exact hr rfl]
  · rw [if_neg hq, if_neg (by rintro rfl; exact hq rfl)]

theorem bit_setByte_or {x : Id} {n : Nat} (hn : n < 256) (i : Nat) :
    (x.setByte (n / 8) (x.byte (n / 8) ||| UInt8.ofNat (0x80 >>> (n % 8)))).bit i =
      if i = n then true else x.bit i := by
  have hbit : ∀ m < 8, ∀ k < 8,
      (UInt8.ofNat (0x80 >>> m)).toNat.testBit (7 - k) = decide (k = m) := by decide
  simp only [bit, key, ofBytes, byte_setByte _ _ _ _ (show n / 8 < 32 by omega)]
  by_cases hq : i / 8 = n / 8
  · rw [if_pos hq, UInt8.toNat_or, Nat.testBit_or, hbit _ (by omega) _ (by omega), hq]
    by_cases hr : i % 8 = n % 8
    · simp [show i = n by omega]
    · simp [hr, show i ≠ n by rintro rfl; exact hr rfl]
  · rw [if_neg hq, if_neg (by rintro rfl; exact hq rfl)]

end Id

end Boson
