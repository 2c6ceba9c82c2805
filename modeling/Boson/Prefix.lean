import Boson.Id

/-!
# Key prefixes (`include/boson/prefix.h`, `src/core/prefix.cc`)

A `Prefix` is an id with a depth from -1 to 255: it covers the ids that agree with it on bits 0 to
`depth`. Depth -1 covers everything. The bits after `depth` are zero: every constructor of the
source copies only the covered bits, so `tail_zero` is a field here.

The results are the algebra that the routing table rests on: a prefix covers an interval that starts
at its own id, its two branches split what it covers, and two siblings make up their parent.
-/

namespace Boson

open Keyspace

/-- `Prefix`. -/
structure Prefix where
  id : Id
  depth : Int
  depth_ge : -1 ≤ depth
  depth_lt : depth < 256
  tail_zero : ∀ i : Nat, depth < i → id.bit i = false
  deriving DecidableEq

namespace Prefix

/-- `Prefix()`: the prefix `all`. -/
def all : Prefix where
  id := Id.zero
  depth := -1
  depth_ge := by decide
  depth_lt := by decide
  tail_zero i _ := Id.bit_zero i

/-- `Prefix(id, depth)`. -/
def ofId (id : Id) (depth : Int) (hge : -1 ≤ depth) (hlt : depth < 256) : Prefix where
  id := Id.bitsCopy id Id.zero depth
  depth := depth
  depth_ge := hge
  depth_lt := hlt
  tail_zero i hi := by rw [Id.bit_bitsCopy hlt, if_neg (by omega), Id.bit_zero]

/-- `Prefix::isPrefixOf`. -/
def isPrefixOf (self : Prefix) (id : Id) : Bool := Id.bitsEqual self.id id self.depth

/-- `Prefix::isSplittable`. -/
def isSplittable (self : Prefix) : Bool := self.depth < Id.BITS - 1

/-- `Prefix::first`. -/
def first (self : Prefix) : Id := self.id

/-- `Prefix::last`. -/
def last (self : Prefix) : Id :=
  let p := ofId Id.MAX_ID self.depth self.depth_ge self.depth_lt
  let trailingBits := p.id.distance Id.MAX_ID
  self.id.distance trailingBits

/-- `Prefix::setTail`: the id with bit `bit` cleared. -/
def setTail (id : Id) (bit : Nat) : Id :=
  id.setByte (bit / 8) (id.byte (bit / 8) &&& ~~~ UInt8.ofNat (0x80 >>> (bit % 8)))

theorem bit_setTail {id : Id} {n : Nat} (hn : n < 256) (i : Nat) :
    (setTail id n).bit i = if i = n then false else id.bit i := Id.bit_setByte_and hn i

/-- `Prefix::getParent`. -/
def getParent (self : Prefix) : Prefix :=
  if h : self.depth = -1 then self
  else
    { id := setTail self.id self.depth.toNat
      depth := self.depth - 1
      depth_ge := by have := self.depth_ge; omega
      depth_lt := by have := self.depth_lt; omega
      tail_zero := by
        intro i hi
        have hge := self.depth_ge
        have hlt := self.depth_lt
        rw [bit_setTail (by omega)]
        split
        · rfl
        · exact self.tail_zero i (by omega) }

/-- The id of a branch: bit `depth` set or cleared. -/
def branchId (id : Id) (depth : Nat) (highBranch : Bool) : Id :=
  if highBranch then
    id.setByte (depth / 8) (id.byte (depth / 8) ||| UInt8.ofNat (0x80 >>> (depth % 8)))
  else
    id.setByte (depth / 8) (id.byte (depth / 8) &&& ~~~ UInt8.ofNat (0x80 >>> (depth % 8)))

theorem bit_branchId {id : Id} {n : Nat} (hn : n < 256) (highBranch : Bool) (i : Nat) :
    (branchId id n highBranch).bit i = if i = n then highBranch else id.bit i := by
  unfold branchId
  cases highBranch
  · simpa using Id.bit_setByte_and hn i
  · simpa using Id.bit_setByte_or hn i

/-- The number of bits that a prefix fixes. -/
def len (self : Prefix) : Nat := (self.depth + 1).toNat

theorem len_lt_of_isSplittable {p : Prefix} (h : p.isSplittable = true) : p.len < 256 := by
  have hs : p.depth < Id.BITS - 1 := of_decide_eq_true h
  have := p.depth_ge
  simp only [Id.BITS, len] at *
  omega

theorem len_le (p : Prefix) : p.len ≤ 256 := by
  have := p.depth_lt
  simp only [len]
  omega

theorem depth_eq (p : Prefix) : p.depth = (p.len : Int) - 1 := by
  have := p.depth_ge
  simp only [len]
  omega

theorem tail_zero' (p : Prefix) {i : Nat} (hi : p.len ≤ i) : p.id.bit i = false :=
  p.tail_zero i (by rw [depth_eq]; omega)

/-- `Prefix::splitBranch`. The callers check `isSplittable`. -/
def splitBranch (self : Prefix) (highBranch : Bool) (h : self.isSplittable = true) : Prefix where
  id := branchId self.id (self.depth + 1).toNat highBranch
  depth := self.depth + 1
  depth_ge := by have := self.depth_ge; omega
  depth_lt := by have := len_lt_of_isSplittable h; simp only [len] at this; omega
  tail_zero := by
    intro i hi
    have hge := self.depth_ge
    have hlt : (self.depth + 1).toNat < 256 := len_lt_of_isSplittable h
    rw [bit_branchId hlt, if_neg (by omega)]
    exact self.tail_zero i (by omega)

/-- `Prefix::isSiblingOf`. -/
def isSiblingOf (self other : Prefix) : Bool :=
  self.depth == other.depth && Id.bitsEqual self.id other.id (self.depth - 1)

/-- `Prefix::createRandomId`, for the drawn id `random`. -/
def createRandomId (self : Prefix) (random : Id) : Id := Id.bitsCopy self.id random self.depth

/-! ## What a prefix covers -/

variable {p q : Prefix} {x y : Id}

theorem ext_len (hid : p.id = q.id) (hlen : p.len = q.len) : p = q := by
  have hd : p.depth = q.depth := by rw [depth_eq, depth_eq, hlen]
  cases p
  cases q
  simp only at hid hd
  subst hid hd
  rfl

theorem isPrefixOf_iff : p.isPrefixOf x = true ↔ Agree p.len p.id.key x.key :=
  Id.bitsEqual_iff p.depth_lt

theorem isPrefixOf_id (p : Prefix) : p.isPrefixOf p.id = true := isPrefixOf_iff.mpr (Agree.refl _ _)

theorem isSplittable_all : all.isSplittable = true := by decide

@[simp] theorem isPrefixOf_all (x : Id) : all.isPrefixOf x = true :=
  isPrefixOf_iff.mpr agree_zero

/-- The first id that a prefix covers is its own. -/
theorem id_le_of_isPrefixOf (h : p.isPrefixOf x = true) : p.id ≤ x := by
  by_contra hlt
  obtain ⟨i, -, hx, hp⟩ := Keyspace.lt_iff.mp (Id.lt_iff_key.mp (not_le.mp hlt))
  by_cases hi : i < p.len
  · have := isPrefixOf_iff.mp h i hi
    rw [hx, hp] at this
    cases this
  · have := p.tail_zero' (Nat.not_lt.mp hi)
    rw [← Id.key_apply, hp] at this
    cases this

/-- The ids that a prefix covers are an interval. -/
theorem isPrefixOf_of_between (hx : p.isPrefixOf x = true) (h1 : p.id ≤ y) (h2 : y ≤ x) :
    p.isPrefixOf y = true :=
  isPrefixOf_iff.mpr (agree_of_between (Agree.refl _ _) (isPrefixOf_iff.mp hx)
    (Id.le_iff_key.mp h1) (Id.le_iff_key.mp h2))

theorem bit_last {i : Nat} (hi : i < 256) :
    p.last.bit i = if i < p.len then p.id.bit i else true := by
  have hd := p.depth_eq
  simp only [last, ofId, Id.bit_distance, Id.bit_bitsCopy p.depth_lt, Id.bit_MAX_ID hi, Id.bit_zero]
  by_cases h : i < p.len
  · rw [if_pos h, if_pos (by omega)]
    simp
  · rw [if_neg h, if_neg (by omega), p.tail_zero' (by omega)]
    simp

theorem isPrefixOf_last (p : Prefix) : p.isPrefixOf p.last = true := by
  refine isPrefixOf_iff.mpr fun i hi => ?_
  have := p.len_le
  rw [Id.key_apply, Id.key_apply, bit_last (by omega), if_pos hi]

/-! ## Branches, siblings and parents -/

@[simp] theorem splitBranch_len {b : Bool} (h : p.isSplittable = true) :
    (p.splitBranch b h).len = p.len + 1 := by
  have := p.depth_ge
  simp only [len, splitBranch]
  omega

theorem splitBranch_bit {b : Bool} (h : p.isSplittable = true) (i : Nat) :
    (p.splitBranch b h).id.bit i = if i = p.len then b else p.id.bit i :=
  bit_branchId (len_lt_of_isSplittable h) b i

/-- A branch covers the ids of the prefix that have its bit. -/
theorem isPrefixOf_splitBranch {b : Bool} (h : p.isSplittable = true) :
    (p.splitBranch b h).isPrefixOf x = true ↔ p.isPrefixOf x = true ∧ x.bit p.len = b := by
  rw [isPrefixOf_iff, isPrefixOf_iff, splitBranch_len, agree_succ]
  have hag : Agree p.len (p.splitBranch b h).id.key p.id.key := by
    intro i hi
    rw [Id.key_apply, Id.key_apply, splitBranch_bit, if_neg (Nat.ne_of_lt hi)]
  have hb : (p.splitBranch b h).id.key p.len = b := by
    rw [Id.key_apply, splitBranch_bit, if_pos rfl]
  rw [hb]
  constructor
  · rintro ⟨h1, h2⟩
    exact ⟨hag.symm.trans h1, h2.symm⟩
  · rintro ⟨h1, h2⟩
    exact ⟨hag.trans h1, h2.symm⟩

theorem isSiblingOf_iff :
    p.isSiblingOf q = true ↔ p.len = q.len ∧ Agree (p.len - 1) p.id.key q.id.key := by
  have hp := p.depth_ge
  have hq := q.depth_ge
  have hlt := p.depth_lt
  simp only [isSiblingOf, Bool.and_eq_true, beq_iff_eq]
  rw [Id.bitsEqual_iff (by omega)]
  simp only [len]
  constructor
  · rintro ⟨h1, h2⟩
    exact ⟨by omega, h2.mono (by omega)⟩
  · rintro ⟨h1, h2⟩
    exact ⟨by omega, h2.mono (by omega)⟩

theorem getParent_len (h : p.len ≠ 0) : p.getParent.len = p.len - 1 := by
  have hd := p.depth_eq
  simp only [getParent, dif_neg (show ¬ p.depth = -1 by omega), len]
  omega

theorem getParent_bit (h : p.len ≠ 0) (i : Nat) :
    p.getParent.id.bit i = if i = p.len - 1 then false else p.id.bit i := by
  have hd := p.depth_eq
  have hlt := p.depth_lt
  simp only [getParent, dif_neg (show ¬ p.depth = -1 by omega)]
  rw [bit_setTail (by omega), show p.depth.toNat = p.len - 1 by omega]

theorem getParent_agree (h : p.len ≠ 0) : Agree (p.len - 1) p.getParent.id.key p.id.key := by
  intro i hi
  rw [Id.key_apply, Id.key_apply, getParent_bit h, if_neg (by omega)]

theorem isPrefixOf_getParent (h : p.len ≠ 0) :
    p.getParent.isPrefixOf x = true ↔ Agree (p.len - 1) p.id.key x.key := by
  rw [isPrefixOf_iff, getParent_len h]
  exact ⟨(getParent_agree h).symm.trans, (getParent_agree h).trans⟩

/-- Two different siblings cover together exactly what their parent covers, and no id twice. -/
theorem isPrefixOf_sibling (hs : p.isSiblingOf q = true) (hne : p ≠ q) :
    (p.getParent.isPrefixOf x = true ↔ p.isPrefixOf x = true ∨ q.isPrefixOf x = true) ∧
      ¬ (p.isPrefixOf x = true ∧ q.isPrefixOf x = true) := by
  obtain ⟨hlen, hag⟩ := isSiblingOf_iff.mp hs
  have h0 : p.len ≠ 0 := by
    intro h0
    refine hne (ext_len (Id.ext_bit fun i _ => ?_) hlen)
    rw [p.tail_zero' (by omega), q.tail_zero' (by omega)]
  obtain ⟨m, hm⟩ := Nat.exists_eq_succ_of_ne_zero h0
  -- The last covered bit is the one where the siblings differ.
  have hbit : p.id.key m ≠ q.id.key m := by
    intro hbit
    refine hne (ext_len (Id.ext_bit fun i _ => ?_) hlen)
    by_cases hi : i < p.len
    · exact agree_succ.mpr ⟨by simpa [hm] using hag, hbit⟩ i (by omega)
    · rw [p.tail_zero' (by omega), q.tail_zero' (by omega)]
  rw [hm, Nat.succ_sub_one] at hag
  rw [isPrefixOf_getParent h0, isPrefixOf_iff, isPrefixOf_iff, ← hlen, hm, Nat.succ_sub_one,
    Nat.succ_eq_add_one, agree_succ, agree_succ]
  constructor
  · constructor
    · intro h
      by_cases hx : p.id.key m = x.key m
      · exact .inl ⟨h, hx⟩
      · refine .inr ⟨hag.symm.trans h, ?_⟩
        revert hbit hx
        cases p.id.key m <;> cases q.id.key m <;> cases x.key m <;> decide
    · rintro (⟨h, -⟩ | ⟨h, -⟩)
      · exact h
      · exact hag.trans h
  · rintro ⟨⟨-, h1⟩, ⟨-, h2⟩⟩
    exact hbit (h1.trans h2.symm)

/-- The last id that a prefix covers: all further bits are 1. -/
theorem le_last_of_isPrefixOf (h : p.isPrefixOf x = true) : x ≤ p.last := by
  by_contra hlt
  rw [not_le, Id.lt_iff_key, lt_iff] at hlt
  obtain ⟨i, -, hl, hx⟩ := hlt
  have hi : i < 256 := by
    by_contra hge
    rw [Id.key_apply, Id.bit_of_le x (by omega)] at hx
    cases hx
  rw [Id.key_apply, bit_last hi] at hl
  split at hl
  · rename_i hip
    have := isPrefixOf_iff.mp h i hip
    rw [Id.key_apply, hl, hx] at this
    cases this
  · cases hl

/-- The ids of a prefix are all closer to a target than an id outside, or none is. -/
theorem distance_lt_of_isPrefixOf {t a a' b : Id} (ha : p.isPrefixOf a = true)
    (ha' : p.isPrefixOf a' = true) (hb : p.isPrefixOf b = false) (h : t.distance a < t.distance b) :
    t.distance a' < t.distance b := by
  rw [Id.distance_lt_iff] at h ⊢
  refine xorDist_lt_of_not_agree (isPrefixOf_iff.mp ha) (isPrefixOf_iff.mp ha') ?_ h
  rw [← isPrefixOf_iff, hb]
  exact Bool.false_ne_true

end Prefix

end Boson
