import Mathlib.Data.Nat.Digits.Lemmas
import Mathlib.Algebra.Order.Monoid.Unbundled.Pow
import Mathlib.Tactic.Ring

/-!
# Changing the base of a number in place

An array of a fixed size holds the digits of a number, lowest digit first, padded with zeros
(`Nat.digitsAppend`). `mulAdd` multiplies the number by `mul` and adds `carry`, in one pass over the
array that stops where there is nothing left to do: it knows how many digits are in use. If the
result fits, nothing is carried out of the array and the count of digits in use is right again
(`mulAdd_eq`).

Digit by digit, this reads a number that is written in base `mul` (`foldl_mulAdd`). The room that a
number needs in another base is a matter of one inequality between powers (`pow_le_pow_of_ratio`).
-/

namespace Radix

open Nat

variable {base mul length carry i l v : ℕ}

/-- Multiply by `mul` and add `carry`, from digit `i` on: the digits in use are those below
`length`. The results are the last carry, the number of the digit where the pass stops, and the
digits. -/
def mulAdd (base mul length : ℕ) : (carry i : ℕ) → List ℕ → ℕ × ℕ × List ℕ
  | carry, i, [] => (carry, i, [])
  | carry, i, d :: digits =>
    if carry ≠ 0 ∨ i < length then
      let x := carry + mul * d
      let (carry, j, digits) := mulAdd base mul length (x / base) (i + 1) digits
      (carry, j, x % base :: digits)
    else (carry, i, d :: digits)

theorem digitsAppend_zero (base l : ℕ) : digitsAppend base l 0 = List.replicate l 0 := by
  simp [digitsAppend]

theorem digitsAppend_succ (hb : 1 < base) (l v : ℕ) :
    digitsAppend base (l + 1) v = v % base :: digitsAppend base l (v / base) := by
  rcases Nat.eq_zero_or_pos v with rfl | hv
  · rw [Nat.zero_mod, Nat.zero_div, digitsAppend_zero, digitsAppend_zero, List.replicate_succ]
  · simp only [digitsAppend, digits_def' hb hv, List.length_cons, Nat.add_sub_add_right,
      List.cons_append]

theorem length_digits_div (hb : 1 < base) (v : ℕ) :
    (digits base (v / base)).length = (digits base v).length - 1 := by
  rcases Nat.eq_zero_or_pos v with rfl | hv
  · simp
  · rw [digits_def' hb hv, List.length_cons, Nat.add_sub_cancel]

/-- What goes on to the next digit. -/
theorem mulAdd_div (hb : 0 < base) (v mul carry : ℕ) :
    v / base * mul + (carry + mul * (v % base)) / base = (v * mul + carry) / base := by
  have hsplit : v * mul + carry = base * (v / base * mul) + (carry + mul * (v % base)) := by
    conv_lhs => rw [← Nat.div_add_mod v base]
    ring
  rw [hsplit, Nat.mul_add_div hb]

/-- What stays in the digit. -/
theorem mulAdd_mod (base v mul carry : ℕ) :
    (carry + mul * (v % base)) % base = (v * mul + carry) % base := by
  rw [Nat.add_comm carry, Nat.add_mod, Nat.mul_mod, Nat.mod_mod, ← Nat.mul_mod, ← Nat.add_mod,
    Nat.mul_comm]

/-- The pass stops where nothing is carried and no digit is left: the number is zero there. -/
theorem mulAdd_stop (hlen : (digits base v).length = length - i)
    (hstop : ¬ (carry ≠ 0 ∨ i < length)) :
    carry = 0 ∧ v = 0 := by
  have hnil : digits base v = [] := List.length_eq_zero_iff.mp (by omega)
  exact ⟨by omega, digits_eq_nil_iff_eq_zero.mp hnil⟩

/-- Where the pass goes on, the number is not zero. -/
theorem mulAdd_pos (hm : 0 < mul) (hlen : (digits base v).length = length - i)
    (hgo : carry ≠ 0 ∨ i < length) : 0 < v * mul + carry := by
  rcases hgo with hc | hi
  · omega
  · have hv : v ≠ 0 := by
      rintro rfl
      rw [digits_zero, List.length_nil] at hlen
      omega
    have := Nat.mul_pos (Nat.pos_of_ne_zero hv) hm
    omega

/-- One pass, started at the right count of digits: nothing is carried out of the array if the
result fits, and the pass stops behind the last digit of the result. -/
theorem mulAdd_eq (hb : 1 < base) (hm : 0 < mul) (hlen : (digits base v).length = length - i)
    (hfit : v * mul + carry < base ^ l) :
    mulAdd base mul length carry i (digitsAppend base l v) =
      (0, i + (digits base (v * mul + carry)).length, digitsAppend base l (v * mul + carry)) := by
  induction l generalizing v carry i with
  | zero =>
    rw [Nat.pow_zero] at hfit
    have hzero : v * mul = 0 ∧ carry = 0 := by omega
    obtain rfl := (Nat.mul_eq_zero.mp hzero.1).resolve_right hm.ne'
    obtain rfl := hzero.2
    simp [digitsAppend, mulAdd]
  | succ l ih =>
    rw [digitsAppend_succ hb, mulAdd]
    by_cases hgo : carry ≠ 0 ∨ i < length
    · have hdiv := mulAdd_div (Nat.zero_lt_of_lt hb) v mul carry
      have hlen' : (digits base (v / base)).length = length - (i + 1) := by
        rw [length_digits_div hb, hlen]
        omega
      have hfit' : v / base * mul + (carry + mul * (v % base)) / base < base ^ l := by
        rw [hdiv]
        exact Nat.div_lt_of_lt_mul (by rwa [← Nat.pow_succ'])
      rw [if_pos hgo]
      simp only [ih hlen' hfit', hdiv, mulAdd_mod]
      rw [digitsAppend_succ hb, digits_def' hb (mulAdd_pos hm hlen hgo), List.length_cons,
        Nat.add_assoc, Nat.add_comm 1]
    · obtain ⟨hcarry, hv⟩ := mulAdd_stop hlen hgo
      rw [if_neg hgo, hcarry, hv]
      simp [digitsAppend_zero, List.replicate_succ]

/-- The digits in use are the last ones of the array read backwards. -/
theorem drop_reverse_digitsAppend (base l v : ℕ) :
    (digitsAppend base l v).reverse.drop (l - (digits base v).length) =
    (digits base v).reverse := by
  rw [digitsAppend, List.reverse_append, List.reverse_replicate, List.drop_left']
  exact List.length_replicate

/-- The leading digit is not zero. -/
theorem head?_reverse_digits (base v : ℕ) : (digits base v).reverse.head? ≠ some 0 := by
  intro h
  rw [List.head?_reverse] at h
  have hne : digits base v ≠ [] := by
    intro h0
    rw [h0] at h
    cases h
  rw [List.getLast?_eq_some_getLast hne, Option.some.injEq] at h
  exact getLast_digit_ne_zero base (digits_ne_nil_iff_ne_zero.mp hne) h

/-- There is nothing to skip where the leading element is another one. -/
theorem dropWhile_eq_self {α : Type*} [DecidableEq α] {l : List α} {a : α} (h : l.head? ≠ some a) :
    l.dropWhile (· = a) = l := by
  cases l with
  | nil => rfl
  | cons d ds =>
    have hd : d ≠ a := fun hd => h (congrArg some hd)
    rw [List.dropWhile_cons_of_neg (by simpa using hd)]

/-! ## Reading a number -/

/-- The number that is written with the digits `ds`, highest first, behind those of `v`. -/
def read (mul v : ℕ) (ds : List ℕ) : ℕ := ds.foldl (fun v d => v * mul + d) v

theorem read_eq_ofDigits (mul : ℕ) (ds : List ℕ) : read mul 0 ds = ofDigits mul ds.reverse := by
  rw [ofDigits_eq_foldr, List.foldr_reverse, read]
  congr 1
  funext v d
  rw [Nat.cast_id, Nat.mul_comm, Nat.add_comm]

/-- A number that is written without leading zeros has its digits back. -/
theorem digits_read {ds : List ℕ} (hm : 1 < mul) (hds : ∀ d ∈ ds, d < mul)
    (hhead : ds.head? ≠ some 0) : (digits mul (read mul 0 ds)).reverse = ds := by
  rw [read_eq_ofDigits, digits_ofDigits mul hm, List.reverse_reverse]
  · intro d hd
    exact hds d (List.mem_reverse.mp hd)
  · intro hne h0
    rw [List.getLast_reverse] at h0
    have hne' : ds ≠ [] := fun h => hne (List.reverse_eq_nil_iff.mpr h)
    exact hhead (by rw [List.head?_eq_some_head hne', h0])

theorem read_digits (v : ℕ) : read base 0 (digits base v).reverse = v := by
  rw [read_eq_ofDigits, List.reverse_reverse, ofDigits_digits]

/-! ## The room that a number needs -/

/-- `n` digits of base `b` fit into `m` digits of base `c`, if `q` digits fit into `p` and `m / n`
is at least `p / q`. -/
theorem pow_le_pow_of_ratio {b c p q n m : ℕ} (hc : 0 < c) (hq : q ≠ 0) (h : b ^ q ≤ c ^ p)
    (hr : n * p ≤ m * q) : b ^ n ≤ c ^ m := by
  refine (Nat.pow_le_pow_iff_left hq).mp ?_
  calc (b ^ n) ^ q = (b ^ q) ^ n := by rw [← Nat.pow_mul, ← Nat.pow_mul, Nat.mul_comm]
    _ ≤ (c ^ p) ^ n := Nat.pow_le_pow_left h n
    _ = c ^ (n * p) := by rw [← Nat.pow_mul, Nat.mul_comm]
    _ ≤ c ^ (m * q) := Nat.pow_le_pow_right hc hr
    _ = (c ^ m) ^ q := Nat.pow_mul c m q

end Radix
