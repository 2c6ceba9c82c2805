import Mathlib.Order.PiLex
import Mathlib.Data.Nat.Bitwise
import Mathlib.Data.Nat.Find
import Mathlib.Order.BooleanAlgebra.Basic

/-!
# Bit strings under the lexicographic order and under the XOR metric

A key is an infinite bit string, most significant bit first. Two orders matter:

* the lexicographic order (Mathlib's order on `Lex (ℕ → Bool)`), which compares keys as numbers;
* the order by XOR distance to a target `t` (`xorDist t`), which is the lexicographic order of the
  bitwise XOR with `t`.

Both are decided at the first bit where the keys differ (`lt_iff`, `xorDist_lt_iff`): the numeric
order by the bit itself, the XOR order by whether the bit agrees with the target.

A set of keys that share their first `d` bits is an interval of both orders (`agree_of_between`,
`xorDist_lt_of_not_agree`).

`ofBytes` reads a byte string as a key, most significant bit of each byte first. A lexicographic
comparison of bytes is the lexicographic comparison of the keys (`ofBytes_lt_iff`).
-/

namespace Keyspace

/-- An infinite bit string, most significant bit first. -/
abbrev Key := ℕ → Bool

variable {a b c p t : Key} {d i : ℕ}

/-- The first `d` bits of `a` and `b` agree. -/
def Agree (d : ℕ) (a b : Key) : Prop := ∀ i < d, a i = b i

theorem Agree.refl (d : ℕ) (a : Key) : Agree d a a := fun _ _ => rfl

theorem Agree.symm (h : Agree d a b) : Agree d b a := fun i hi => (h i hi).symm

theorem Agree.trans (h : Agree d a b) (h' : Agree d b c) : Agree d a c :=
  fun i hi => (h i hi).trans (h' i hi)

theorem Agree.mono {e : ℕ} (h : Agree d a b) (he : e ≤ d) : Agree e a b :=
  fun i hi => h i (Nat.lt_of_lt_of_le hi he)

theorem agree_zero : Agree 0 a b := fun _ hi => absurd hi (Nat.not_lt_zero _)

theorem agree_succ : Agree (d + 1) a b ↔ Agree d a b ∧ a d = b d := by
  constructor
  · intro h
    exact ⟨h.mono (Nat.le_succ _), h d (Nat.lt_succ_self _)⟩
  · rintro ⟨h, hd⟩ i hi
    rcases Nat.lt_succ_iff_lt_or_eq.mp hi with hi | rfl
    · exact h i hi
    · exact hd

/-- Two keys that are not equal have a first bit where they differ. -/
theorem exists_first_diff (h : a ≠ b) : ∃ i, Agree i a b ∧ a i ≠ b i := by
  obtain ⟨i, hi⟩ := Function.ne_iff.mp h
  classical
  have hex : ∃ i, a i ≠ b i := ⟨i, hi⟩
  exact ⟨Nat.find hex, fun j hj => not_not.mp (Nat.find_min hex hj), Nat.find_spec hex⟩

/-- As `exists_first_diff`, for keys that differ within their first `d` bits. -/
theorem exists_first_diff_of_not_agree (h : ¬ Agree d a b) :
    ∃ i < d, Agree i a b ∧ a i ≠ b i := by
  obtain ⟨i, hag, hi⟩ := exists_first_diff (fun hab : a = b => h (hab ▸ Agree.refl d a))
  refine ⟨i, ?_, hag, hi⟩
  by_contra hid
  exact h (hag.mono (Nat.not_lt.mp hid))

/-! ## The numeric order -/

theorem lt_iff : toLex a < toLex b ↔ ∃ i, Agree i a b ∧ a i = false ∧ b i = true := by
  constructor
  · rintro ⟨i, hag, hi⟩
    exact ⟨i, hag, Bool.lt_iff.mp hi⟩
  · rintro ⟨i, hag, hi⟩
    exact ⟨i, hag, Bool.lt_iff.mpr hi⟩

/-- Keys that share a prefix form an interval: a key between two of them shares it too. -/
theorem agree_of_between (ha : Agree d p a) (hc : Agree d p c) (hab : toLex a ≤ toLex b)
    (hbc : toLex b ≤ toLex c) : Agree d p b := by
  by_contra h
  obtain ⟨i, hid, hag, hi⟩ := exists_first_diff_of_not_agree h
  have hai : Agree i a b := (ha.mono hid.le).symm.trans hag
  have hci : Agree i b c := hag.symm.trans (hc.mono hid.le)
  have ea := ha i hid
  have ec := hc i hid
  -- `b` leaves the prefix at bit `i`, either upwards (past `c`) or downwards (before `a`).
  cases hb : b i
  · exact absurd hab (not_le.mpr (lt_iff.mpr ⟨i, hai.symm, hb, by rw [← ea]; simpa [hb] using hi⟩))
  · exact absurd hbc (not_le.mpr (lt_iff.mpr ⟨i, hci.symm, by rw [← ec]; simpa [hb] using hi, hb⟩))

/-! ## The XOR order -/

/-- The XOR distance from `t` to `a`. -/
def xorDist (t a : Key) : Lex (ℕ → Bool) := toLex fun i => t i ^^ a i

theorem xorDist_injective (t : Key) : Function.Injective (xorDist t) := by
  intro a b h
  funext i
  have := congrFun (toLex.injective h) i
  exact Bool.xor_right_inj.mp this

theorem xorDist_lt_iff : xorDist t a < xorDist t b ↔ ∃ i, Agree i a b ∧ a i = t i ∧ b i ≠ t i := by
  have hag : ∀ i, Agree i (fun j => t j ^^ a j) (fun j => t j ^^ b j) ↔ Agree i a b := by
    intro i
    constructor
    · intro h j hj
      exact Bool.xor_right_inj.mp (h j hj)
    · intro h j hj
      simp only [h j hj]
  unfold xorDist
  rw [lt_iff]
  simp only [hag]
  refine exists_congr fun i => and_congr_right fun _ => ?_
  cases t i <;> cases a i <;> cases b i <;> decide

/-- The XOR order decided at the first bit where the two keys differ. -/
theorem xorDist_lt_iff_of_first_diff (hag : Agree i a b) (hi : a i ≠ b i) :
    xorDist t a < xorDist t b ↔ a i = t i := by
  constructor
  · intro h
    obtain ⟨j, hagj, haj, hbj⟩ := xorDist_lt_iff.mp h
    rcases lt_trichotomy i j with hij | rfl | hij
    · exact absurd (hagj i hij) hi
    · exact haj
    · exact absurd (hag j hij) (haj ▸ hbj.symm)
  · intro h
    exact xorDist_lt_iff.mpr ⟨i, hag, h, fun hb => hi (h.trans hb.symm)⟩

/-- The numeric order decided at the first bit where the two keys differ. -/
theorem lt_iff_of_first_diff (hag : Agree i a b) (hi : a i ≠ b i) :
    toLex a < toLex b ↔ a i = false := by
  constructor
  · intro h
    obtain ⟨j, hagj, haj, hbj⟩ := lt_iff.mp h
    rcases lt_trichotomy i j with hij | rfl | hij
    · exact absurd (hagj i hij) hi
    · exact haj
    · have := hag j hij
      rw [haj, hbj] at this
      cases this
  · intro h
    exact lt_iff.mpr ⟨i, hag, h, by simpa [h] using hi.symm⟩

/-- The two orders agree on a pair exactly if the target's bit is 0 where the pair first
differs. -/
theorem orders_agree_iff (hag : Agree i a b) (hi : a i ≠ b i) :
    (toLex a < toLex b ↔ xorDist t a < xorDist t b) ↔ t i = false := by
  rw [lt_iff_of_first_diff hag hi, xorDist_lt_iff_of_first_diff hag hi]
  cases t i <;> cases a i <;> decide

/-- A key that shares more leading bits with the target is closer to it. -/
theorem xorDist_lt_of_agree (ha : Agree (i + 1) t a) (hag : Agree i t b) (hb : t i ≠ b i) :
    xorDist t a < xorDist t b := by
  obtain ⟨hai, eai⟩ := agree_succ.mp ha
  exact xorDist_lt_iff.mpr ⟨i, hai.symm.trans hag, eai.symm, hb.symm⟩

/-- Keys of one prefix are an interval of the XOR order as well. -/
theorem xorDist_lt_of_not_agree {a' : Key} (ha : Agree d p a) (ha' : Agree d p a')
    (hb : ¬ Agree d p b)
    (h : xorDist t a < xorDist t b) : xorDist t a' < xorDist t b := by
  obtain ⟨i, hid, hag, hi⟩ := exists_first_diff_of_not_agree hb
  have hai : Agree i a b := (ha.mono hid.le).symm.trans hag
  have hai' : Agree i a' b := (ha'.mono hid.le).symm.trans hag
  have ea : p i = a i := ha i hid
  have ea' : p i = a' i := ha' i hid
  rw [xorDist_lt_iff_of_first_diff hai (ea ▸ hi)] at h
  rw [xorDist_lt_iff_of_first_diff hai' (ea' ▸ hi), ← ea', ea, h]

/-- If `a` is closer to `t` than `b`, it is closer than any `b'` that leaves `t` no later than `b`
does, unless `a` and `b'` leave it at the same bit. -/
theorem xorDist_lt_of_leaves {b' : Key} (hb : ∀ d, Agree d t b' → Agree d t b)
    (hside : ∀ i, t i ≠ a i → t i ≠ b' i → ¬ (Agree i t a ∧ Agree i t b')) (hne : t ≠ a)
    (h : xorDist t a < xorDist t b) : xorDist t a < xorDist t b' := by
  obtain ⟨i, hag, hi⟩ := exists_first_diff hne
  have hnb : ¬ Agree (i + 1) t b' := fun h' => lt_asymm h (xorDist_lt_of_agree (hb _ h') hag hi)
  obtain ⟨j, hj, hagj, hbj⟩ := exists_first_diff_of_not_agree hnb
  rcases Nat.lt_succ_iff_lt_or_eq.mp hj with hlt | rfl
  · exact xorDist_lt_of_agree (hag.mono hlt) hagj hbj
  · exact absurd ⟨hag, hagj⟩ (hside j hi hbj)

/-- Keys on the two sides of the target: a key below it that is closer than one above it is closer
than every key further above. -/
theorem xorDist_lt_of_below {b' : Key} (ha : toLex a < toLex t) (hb : toLex t < toLex b)
    (hb' : toLex b ≤ toLex b') (h : xorDist t a < xorDist t b) : xorDist t a < xorDist t b' := by
  refine xorDist_lt_of_leaves (fun d hd => agree_of_between (Agree.refl d t) hd hb.le hb') ?_
    (fun hta => ha.ne (congrArg toLex hta.symm)) h
  rintro i hai hbi ⟨haga, hagb⟩
  have h1 := (lt_iff_of_first_diff haga.symm hai.symm).mp ha
  have h2 := (lt_iff_of_first_diff hagb hbi).mp (hb.trans_le hb')
  rw [h1, h2] at hai
  exact hai rfl

/-- As `xorDist_lt_of_below`, with the sides exchanged. -/
theorem xorDist_lt_of_above {b' : Key} (ha : toLex t < toLex a) (hb : toLex b < toLex t)
    (hb' : toLex b' ≤ toLex b) (h : xorDist t a < xorDist t b) : xorDist t a < xorDist t b' := by
  refine xorDist_lt_of_leaves (fun d hd => agree_of_between hd (Agree.refl d t) hb' hb.le) ?_
    (fun hta => ha.ne (congrArg toLex hta)) h
  rintro i hai hbi ⟨haga, hagb⟩
  have h1 := (lt_iff_of_first_diff haga hai).mp ha
  have h2 := (lt_iff_of_first_diff hagb.symm hbi.symm).mp (hb'.trans_lt hb)
  rw [h1, h2] at hbi
  exact hbi rfl

/-! ## Byte strings as keys -/

/-- The key of a byte string: bit `i` is bit `i % 8` of byte `i / 8`, most significant first. -/
def ofBytes (f : ℕ → UInt8) : Key := fun i => (f (i / 8)).toNat.testBit (7 - i % 8)

theorem testBit_byte_of_le (x : UInt8) {k : ℕ} (hk : 8 ≤ k) : x.toNat.testBit k = false :=
  Nat.testBit_lt_two_pow (Nat.lt_of_lt_of_le x.toNat_lt (Nat.pow_le_pow_right (by decide) hk))

/-- Bytes are equal if their 8 bits are. -/
theorem byte_ext {x y : UInt8} (h : ∀ k < 8, x.toNat.testBit k = y.toNat.testBit k) : x = y := by
  apply UInt8.toNat_inj.mp
  apply Nat.eq_of_testBit_eq
  intro k
  by_cases hk : k < 8
  · exact h k hk
  · rw [testBit_byte_of_le x (Nat.not_lt.mp hk), testBit_byte_of_le y (Nat.not_lt.mp hk)]

theorem ofBytes_mul_add (f : ℕ → UInt8) (i : ℕ) {k : ℕ} (hk : k < 8) :
    ofBytes f (8 * i + k) = (f i).toNat.testBit (7 - k) := by
  have h1 : (8 * i + k) / 8 = i := by omega
  have h2 : (8 * i + k) % 8 = k := by omega
  rw [ofBytes, h1, h2]

theorem ofBytes_agree_iff {f g : ℕ → UInt8} {n : ℕ} :
    Agree (8 * n) (ofBytes f) (ofBytes g) ↔ ∀ j < n, f j = g j := by
  constructor
  · intro h j hj
    refine byte_ext fun k hk => ?_
    have := h (8 * j + (7 - k)) (by omega)
    rw [ofBytes_mul_add f j (by omega), ofBytes_mul_add g j (by omega)] at this
    simpa [show 7 - (7 - k) = k by omega] using this
  · intro h i hi
    simp only [ofBytes, h (i / 8) (by omega)]

theorem ofBytes_injective : Function.Injective ofBytes := by
  intro f g h
  funext j
  exact ofBytes_agree_iff.mp (h ▸ Agree.refl (8 * (j + 1)) (ofBytes f)) j (Nat.lt_succ_self j)

/-- The comparison of two bytes is decided at the first bit, from the top, where they differ. -/
theorem byte_lt_of_first_diff {x y : UInt8} {k : ℕ}
    (hag : ∀ j < k, x.toNat.testBit (7 - j) = y.toNat.testBit (7 - j)) (hk : k < 8)
    (hx : x.toNat.testBit (7 - k) = false) (hy : y.toNat.testBit (7 - k) = true) : x < y := by
  rw [UInt8.lt_iff_toNat_lt]
  refine Nat.lt_of_testBit (7 - k) hx hy fun j hj => ?_
  by_cases hj8 : j < 8
  · simpa [show 7 - (7 - j) = j by omega] using hag (7 - j) (by omega)
  · rw [testBit_byte_of_le x (Nat.not_lt.mp hj8), testBit_byte_of_le y (Nat.not_lt.mp hj8)]

/-- Byte strings compare as keys the way `memcmp` compares them. -/
theorem ofBytes_lt_iff {f g : ℕ → UInt8} :
    toLex (ofBytes f) < toLex (ofBytes g) ↔ ∃ i, (∀ j < i, f j = g j) ∧ f i < g i := by
  constructor
  · intro h
    obtain ⟨n, hag, hf, hg⟩ := lt_iff.mp h
    refine ⟨n / 8, ofBytes_agree_iff.mp (hag.mono (by omega)), ?_⟩
    refine byte_lt_of_first_diff (k := n % 8) (fun j hj => ?_) (by omega) hf hg
    have := hag (8 * (n / 8) + j) (by omega)
    rwa [ofBytes_mul_add f _ (by omega), ofBytes_mul_add g _ (by omega)] at this
  · rintro ⟨i, hag, hlt⟩
    have hne : ofBytes f ≠ ofBytes g := fun h =>
      absurd (congrFun (ofBytes_injective h) i) (UInt8.ne_of_lt hlt)
    rcases lt_or_gt_of_ne (fun h => hne (toLex.injective h)) with h | h
    · exact h
    · -- The other order would put the first different byte the other way round.
      obtain ⟨n, hagn, hg, hf⟩ := lt_iff.mp h
      have hagb := ofBytes_agree_iff.mp (hagn.mono (show 8 * (n / 8) ≤ n by omega))
      have hgf : g (n / 8) < f (n / 8) := by
        refine byte_lt_of_first_diff (k := n % 8) (fun j hj => ?_) (by omega) hg hf
        have := hagn (8 * (n / 8) + j) (by omega)
        rwa [ofBytes_mul_add f _ (by omega), ofBytes_mul_add g _ (by omega)] at this
      rcases lt_trichotomy i (n / 8) with hin | rfl | hin
      · exact absurd (hagb i hin).symm (UInt8.ne_of_lt hlt)
      · exact absurd hgf (UInt8.lt_asymm hlt)
      · exact absurd (hag _ hin).symm (UInt8.ne_of_lt hgf)

theorem ofBytes_xor (f g : ℕ → UInt8) :
    ofBytes (fun i => f i ^^^ g i) = fun i => ofBytes f i ^^ ofBytes g i := by
  funext i
  simp only [ofBytes, UInt8.toNat_xor, Nat.testBit_xor]

end Keyspace
