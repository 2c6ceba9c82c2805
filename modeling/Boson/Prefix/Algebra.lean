import Boson.Prefix
import Mathlib.Order.Cover

/-!
# The algebra of prefixes

For every id and every depth from -1 to 255 (`ofId_laws`): a prefix covers the interval from
`first()` to `last()`, which is the set of ids with its bits; its two branches split what it covers
into two adjacent siblings whose parent it is; two prefixes of one depth are siblings exactly if
they have one parent; and a random id of a prefix is covered by it.
-/

namespace Boson.Prefix

open Keyspace

variable {p q : Prefix} {x : Id} {b : Bool}

/-! ## The interval of a prefix -/

theorem isPrefixOf_iff_between : p.isPrefixOf x = true ↔ p.first ≤ x ∧ x ≤ p.last := by
  constructor
  · intro h
    exact ⟨id_le_of_isPrefixOf h, le_last_of_isPrefixOf h⟩
  · rintro ⟨h1, h2⟩
    exact isPrefixOf_of_between p.isPrefixOf_last h1 h2

theorem isPrefixOf_iff_bits :
    p.isPrefixOf x = true ↔ ∀ i : Nat, (i : Int) ≤ p.depth → x.bit i = p.id.bit i := by
  have hd := p.depth_eq
  rw [isPrefixOf_iff]
  constructor
  · intro h i hi
    exact (h i (by omega)).symm
  · intro h i hi
    exact (h i (by omega)).symm

theorem isPrefixOf_createRandomId (p : Prefix) (random : Id) :
    p.isPrefixOf (p.createRandomId random) = true := by
  refine isPrefixOf_iff_bits.mpr fun i hi => ?_
  rw [createRandomId, Id.bit_bitsCopy p.depth_lt, if_pos hi]

/-! ## Branches -/

theorem getParent_splitBranch (h : p.isSplittable = true) : (p.splitBranch b h).getParent = p := by
  have hne : (p.splitBranch b h).len ≠ 0 := by simp
  apply ext_len
  · refine Id.ext_bit fun i _ => ?_
    rw [getParent_bit hne, splitBranch_bit, splitBranch_len, Nat.add_sub_cancel]
    split
    · rename_i hi
      exact (p.tail_zero' hi.ge).symm
    · rfl
  · rw [getParent_len hne, splitBranch_len, Nat.add_sub_cancel]

theorem splitBranch_isSiblingOf (h : p.isSplittable = true) (b b' : Bool) :
    (p.splitBranch b h).isSiblingOf (p.splitBranch b' h) = true := by
  refine isSiblingOf_iff.mpr ⟨by simp, ?_⟩
  intro i hi
  rw [splitBranch_len, Nat.add_sub_cancel] at hi
  rw [Id.key_apply, Id.key_apply, splitBranch_bit, splitBranch_bit, if_neg hi.ne, if_neg hi.ne]

/-- No id lies between the two branches of a prefix. -/
theorem splitBranch_covBy (h : p.isSplittable = true) :
    (p.splitBranch false h).last ⋖ (p.splitBranch true h).first := by
  have hlow :=
    isPrefixOf_splitBranch (x := (p.splitBranch false h).last) h |>.mp (isPrefixOf_last _)
  have hhigh := isPrefixOf_splitBranch (x := (p.splitBranch true h).id) h |>.mp (isPrefixOf_id _)
  constructor
  · -- both are covered by `p`, and they differ first at the bit of the branches
    refine Id.lt_iff_key.mpr (lt_iff.mpr ⟨p.len, ?_, hlow.2, hhigh.2⟩)
    exact (isPrefixOf_iff.mp hlow.1).symm.trans (isPrefixOf_iff.mp hhigh.1)
  · intro y h1 h2
    have hy : p.isPrefixOf y = true :=
      isPrefixOf_of_between hhigh.1 ((id_le_of_isPrefixOf hlow.1).trans h1.le) h2.le
    cases hb : y.bit p.len
    · have := (isPrefixOf_splitBranch h).mpr ⟨hy, hb⟩
      exact absurd h1 (not_lt.mpr (le_last_of_isPrefixOf this))
    · have := (isPrefixOf_splitBranch h).mpr ⟨hy, hb⟩
      exact absurd h2 (not_lt.mpr (id_le_of_isPrefixOf this))

theorem splitBranch_isPrefixOf_eq (h : p.isSplittable = true) (hx : p.isPrefixOf x = true) :
    (p.splitBranch b h).isPrefixOf x = (x.bit p.len == b) := by
  rw [Bool.eq_iff_iff, isPrefixOf_splitBranch, beq_iff_eq]
  exact and_iff_right hx

theorem covers_one_branch (h : p.isSplittable = true) (hx : p.isPrefixOf x = true) :
    ((p.splitBranch false h).isPrefixOf x ^^ (p.splitBranch true h).isPrefixOf x) = true := by
  rw [splitBranch_isPrefixOf_eq h hx, splitBranch_isPrefixOf_eq h hx]
  cases x.bit p.len <;> rfl

/-! ## Siblings -/

theorem isSiblingOf_iff_getParent (hd : p.depth = q.depth) (h0 : 0 ≤ p.depth) :
    p.isSiblingOf q = true ↔ p.getParent = q.getParent := by
  have hp := p.depth_eq
  have hq := q.depth_eq
  have hp0 : p.len ≠ 0 := by omega
  have hq0 : q.len ≠ 0 := by omega
  have hlen : p.len = q.len := by omega
  rw [isSiblingOf_iff]
  constructor
  · rintro ⟨-, hag⟩
    apply ext_len
    · refine Id.ext_bit fun i _ => ?_
      rw [getParent_bit hp0, getParent_bit hq0, ← hlen]
      split
      · rfl
      · rename_i hi
        rcases Nat.lt_or_ge i (p.len - 1) with hlt | hge
        · exact hag i hlt
        · rw [p.tail_zero' (by omega), q.tail_zero' (by omega)]
    · rw [getParent_len hp0, getParent_len hq0, hlen]
  · intro hpar
    refine ⟨hlen, (getParent_agree hp0).symm.trans ?_⟩
    rw [hpar, hlen]
    exact getParent_agree hq0

/-! ## All of it -/

/-- What the two branches of `p` are. -/
structure Branches (p low high : Prefix) : Prop where
  /-- An id that `p` covers is covered by exactly one of them. -/
  covered : ∀ x, p.isPrefixOf x = true → (low.isPrefixOf x ^^ high.isPrefixOf x) = true
  depth_low : low.depth = p.depth + 1
  depth_high : high.depth = p.depth + 1
  adjacent : low.last ⋖ high.first
  siblings : low.isSiblingOf high = true ∧ high.isSiblingOf low = true
  parent_low : low.getParent = p
  parent_high : high.getParent = p

/-- The laws of a prefix. -/
structure Laws (p : Prefix) : Prop where
  interval : ∀ x, p.isPrefixOf x = true ↔ p.first ≤ x ∧ x ≤ p.last
  bits : ∀ x, p.isPrefixOf x = true ↔ ∀ i : Nat, (i : Int) ≤ p.depth → x.bit i = p.id.bit i
  branches : ∀ h : p.isSplittable = true, Branches p (p.splitBranch false h) (p.splitBranch true h)
  siblings : ∀ q : Prefix, q.depth = p.depth → 0 ≤ p.depth →
    (p.isSiblingOf q = true ↔ p.getParent = q.getParent)
  random : ∀ drawn, p.isPrefixOf (p.createRandomId drawn) = true

theorem splitBranch_branches (h : p.isSplittable = true) :
    Branches p (p.splitBranch false h) (p.splitBranch true h) where
  covered _ hx := covers_one_branch h hx
  depth_low := rfl
  depth_high := rfl
  adjacent := splitBranch_covBy h
  siblings := ⟨splitBranch_isSiblingOf h _ _, splitBranch_isSiblingOf h _ _⟩
  parent_low := getParent_splitBranch h
  parent_high := getParent_splitBranch h

theorem laws (p : Prefix) : Laws p where
  interval _ := isPrefixOf_iff_between
  bits _ := isPrefixOf_iff_bits
  branches h := splitBranch_branches h
  siblings _ hd h0 := isSiblingOf_iff_getParent hd.symm h0
  random drawn := p.isPrefixOf_createRandomId drawn

/-- Every prefix that the constructor builds obeys the laws, and can be split at every depth but the
last. -/
theorem ofId_laws (id : Id) (depth : Int) (hge : -1 ≤ depth) (hlt : depth ≤ 255) :
    Laws (ofId id depth hge (by omega)) ∧
      (depth ≤ 254 ↔ (ofId id depth hge (by omega)).isSplittable = true) := by
  refine ⟨laws _, ?_⟩
  rw [isSplittable, decide_eq_true_eq]
  show depth ≤ 254 ↔ depth < 256 - 1
  omega

theorem maxId_laws :
    Laws (ofId Id.MAX_ID 100 (by decide) (by decide)) ∧
      ∃ h : (ofId Id.MAX_ID 100 (by decide) (by decide)).isSplittable = true,
        Branches (ofId Id.MAX_ID 100 (by decide) (by decide))
          ((ofId Id.MAX_ID 100 (by decide) (by decide)).splitBranch false h)
          ((ofId Id.MAX_ID 100 (by decide) (by decide)).splitBranch true h) := by
  obtain ⟨hlaws, hsplit⟩ := ofId_laws Id.MAX_ID 100 (by decide) (by decide)
  have hinner : (ofId Id.MAX_ID 100 (by decide) (by decide)).isSplittable = true :=
    hsplit.mp (by decide)
  exact ⟨hlaws, hinner, hlaws.branches hinner⟩

end Boson.Prefix
