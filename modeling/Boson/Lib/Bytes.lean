import Mathlib.Data.List.Basic

/-!
# Byte arrays of a fixed size

`Bytes n` is the model of `std::array<uint8_t, n>`.
-/

/-- `n` bytes. -/
structure Bytes (n : Nat) where
  data : List UInt8
  size_eq : data.length = n
  deriving DecidableEq

namespace Bytes

variable {n : Nat}

/-- Byte `i`; 0 past the end. -/
def get (b : Bytes n) (i : Nat) : UInt8 := b.data.getD i 0

/-- `n` times the byte `x`. -/
def fill (n : Nat) (x : UInt8) : Bytes n := ⟨List.replicate n x, List.length_replicate⟩

/-- The bytes of a blob, if it has the right size. -/
def ofList? (n : Nat) (l : List UInt8) : Option (Bytes n) :=
  if h : l.length = n then some ⟨l, h⟩ else none

@[simp] theorem ofList?_data (b : Bytes n) : ofList? n b.data = some b := by
  simp [ofList?, b.size_eq]

theorem data_of_ofList? {l : List UInt8} {b : Bytes n} (h : ofList? n l = some b) : b.data = l := by
  unfold ofList? at h
  split at h
  · cases h
    rfl
  · cases h

theorem ofList?_isSome {l : List UInt8} : (ofList? n l).isSome ↔ l.length = n := by
  unfold ofList?
  split <;> simp_all

@[ext] theorem ext {a b : Bytes n} (h : a.data = b.data) : a = b := by
  cases a
  cases b
  simp only at h
  subst h
  rfl

/-- `memcmp(a, b, n) < 0` on the bytes. -/
def lexLt : List UInt8 → List UInt8 → Bool
  | [], _ => false
  | _ :: _, [] => false
  | x :: xs, y :: ys => x < y || (x == y && lexLt xs ys)

end Bytes
