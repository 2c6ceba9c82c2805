import Mathlib.Algebra.Ring.Nat
import Mathlib.Data.List.Basic

/-!
# The heads of CBOR data items

A data item starts with its major type and a number: the value itself for an integer, the length for
what follows for the others. The number takes the shortest of five forms (`head`), of 1, 2, 3, 5 or
9 bytes (`headSize`).
-/

namespace Cbor

/-- The last `width` bytes of `n`, highest first. -/
def bytes (width n : ℕ) : List UInt8 := (List.range width).reverse.map fun i =>
    UInt8.ofNat (n / 256 ^ i)

/-- The head of a data item of the major type `major` with the number `n < 2 ^ 64`. -/
def head (major : UInt8) (n : ℕ) : List UInt8 :=
  if n < 24 then [major * 32 + UInt8.ofNat n]
  else if n < 2 ^ 8 then (major * 32 + 24) :: bytes 1 n
  else if n < 2 ^ 16 then (major * 32 + 25) :: bytes 2 n
  else if n < 2 ^ 32 then (major * 32 + 26) :: bytes 4 n
  else (major * 32 + 27) :: bytes 8 n

/-- The size of a head. -/
def headSize (n : ℕ) : ℕ :=
  if n < 24 then 1 else if n < 2 ^ 8 then 2 else if n < 2 ^ 16 then 3 else if n <
    2 ^ 32 then 5 else 9

variable {n : ℕ}

@[simp] theorem length_bytes (width n : ℕ) : (bytes width n).length = width := by simp [bytes]

@[simp] theorem length_head (major : UInt8) (n : ℕ) : (head major n).length = headSize n := by
  unfold head headSize
  split_ifs <;> simp

theorem headSize_eq_one (h : n < 24) : headSize n = 1 := if_pos h

theorem headSize_le_two (h : n < 2 ^ 8) : headSize n ≤ 2 := by
  unfold headSize
  split_ifs <;> omega

theorem headSize_le_three (h : n < 2 ^ 16) : headSize n ≤ 3 := by
  unfold headSize
  split_ifs <;> omega

theorem headSize_le_five (h : n < 2 ^ 32) : headSize n ≤ 5 := by
  unfold headSize
  split_ifs <;> omega

end Cbor
