import Boson.Lib.Keyspace

/-!
# Blocks of addresses

A block `base/length` holds the byte strings that share their first `length` bits with `base`. Its
bits are read as those of a key, most significant bit of each byte first.

* `contains_iff`: whether an address is in a block is seen in its bytes: those that the prefix
  covers are equal, and the one that it ends in has the same high bits.
-/

namespace Keyspace

variable {f g : ℕ → UInt8} {n r : ℕ}

/-- The high bits of two bytes agree when the low ones are shifted out. -/
theorem byte_div_eq_iff {x y : UInt8} (hr : r ≤ 8) : x.toNat / 2 ^ (8 - r) = y.toNat / 2 ^ (8 - r) ↔
    ∀ k < r, x.toNat.testBit (7 - k) = y.toNat.testBit (7 - k) := by
  constructor
  · intro h k hk
    have hbit := congrArg (Nat.testBit · (r - 1 - k)) h
    simp only [Nat.testBit_div_two_pow] at hbit
    rwa [show r - 1 - k + (8 - r) = 7 - k by omega] at hbit
  · intro h
    apply Nat.eq_of_testBit_eq
    intro j
    rw [Nat.testBit_div_two_pow, Nat.testBit_div_two_pow]
    by_cases hj : j < r
    · have := h (r - 1 - j) (by omega)
      rwa [show 7 - (r - 1 - j) = j + (8 - r) by omega] at this
    · rw [testBit_byte_of_le x (by omega), testBit_byte_of_le y (by omega)]

theorem ofBytes_agree_add_iff (hr : r ≤ 8) : Agree (8 * n + r) (ofBytes f) (ofBytes g) ↔
    (∀ j < n, f j = g j) ∧ (f n).toNat / 2 ^ (8 - r) = (g n).toNat / 2 ^ (8 - r) := by
  rw [byte_div_eq_iff hr, ← ofBytes_agree_iff]
  constructor
  · intro h
    refine ⟨h.mono (Nat.le_add_right _ _), fun k hk => ?_⟩
    have := h (8 * n + k) (by omega)
    rwa [ofBytes_mul_add f n (by omega), ofBytes_mul_add g n (by omega)] at this
  · rintro ⟨hbytes, hbits⟩ i hi
    by_cases hin : i < 8 * n
    · exact hbytes i hin
    · obtain ⟨k, rfl⟩ := Nat.exists_eq_add_of_le (Nat.not_lt.mp hin)
      rw [ofBytes_mul_add f n (by omega), ofBytes_mul_add g n (by omega)]
      exact hbits k (by omega)

end Keyspace

open Keyspace

/-- The block `base/length`. -/
structure Cidr where
  base : List UInt8
  length : ℕ

namespace Cidr

/-- The address is as long as the base and shares its first `length` bits. -/
def Contains (self : Cidr) (ip : List UInt8) : Prop :=
  ip.length = self.base.length ∧ Agree self.length (ofBytes (ip.getD · 0))
    (ofBytes (self.base.getD · 0))

/-- A shorter prefix holds more. -/
theorem Contains.mono {base ip : List UInt8} {n m : ℕ} (h : (⟨base, n⟩ : Cidr).Contains ip)
    (hm : m ≤ n) :
    (⟨base, m⟩ : Cidr).Contains ip := ⟨h.1, h.2.mono hm⟩

theorem contains_iff {self : Cidr} {ip : List UInt8} : self.Contains ip ↔
    ip.length = self.base.length ∧ (∀ j < self.length / 8, ip.getD j 0 = self.base.getD j 0) ∧
      (ip.getD (self.length / 8) 0).toNat / 2 ^ (8 - self.length % 8) =
        (self.base.getD (self.length / 8) 0).toNat / 2 ^ (8 - self.length % 8) := by
  unfold Contains
  rw [← ofBytes_agree_add_iff (Nat.le_of_lt (Nat.mod_lt _ (by decide))), Nat.div_add_mod]

/-- The block of one address. -/
def single (ip : List UInt8) : Cidr := ⟨ip, 8 * ip.length⟩

@[simp] theorem contains_single_iff {base ip : List UInt8} :
    (single base).Contains ip ↔ ip = base := by
  constructor
  · rintro ⟨hlen, hag⟩
    refine List.ext_getElem hlen fun i hip hbase => ?_
    have := ofBytes_agree_iff.mp hag i hbase
    simpa [single, List.getD_eq_getElem?_getD, hip, hbase] using this
  · rintro rfl
    exact ⟨rfl, Agree.refl _ _⟩

end Cidr
