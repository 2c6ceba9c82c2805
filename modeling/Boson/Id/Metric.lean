import Boson.Id
import Boson.Lib.Lowest
import Mathlib.Data.List.Lex
import Mathlib.Data.List.Sort
import Mathlib.Order.RelClasses

/-!
# The XOR order of ids (`Id::distance`, `Id::threeWayCompare`)

`threeWayCompare` looks at one byte of its arguments, the first one where they differ. The order
that it gives is that of the distances, compared as strings of 32 bytes.

* `lt_iff_bytes`: `operator<` compares the bytes lexicographically.
* `XorOrder`: what `threeWayCompare` says of two ids, and what sorting and merging by it give.
-/

namespace Boson.Id

open Lowest

variable {t a b : Id}

/-! ## The distances -/

theorem getElem_bytes {x : Id} {i : Nat} (hi : i < x.bytes.length) : x.bytes[i] = x.byte i := by
  rw [byte, List.getD_eq_getElem?_getD, List.getElem?_eq_getElem hi, Option.getD_some]

theorem lt_iff_bytes : a < b ↔ a.bytes < b.bytes := by
  have hlt : a < b ↔ ∃ i, (∀ j < i, a.byte j = b.byte j) ∧ a.byte i < b.byte i := by
    rw [lt_iff_key, key, key, Keyspace.ofBytes_lt_iff]
  rw [hlt, List.lt_iff_exists]
  constructor
  · rintro ⟨i, hag, hi⟩
    have hi32 : i < 32 := by
      by_contra hle
      rw [byte_of_le a (Nat.not_lt.mp hle), byte_of_le b (Nat.not_lt.mp hle)] at hi
      exact absurd hi (by decide)
    refine .inr ⟨i, a.size_eq ▸ hi32, b.size_eq ▸ hi32, fun j hj => ?_, ?_⟩
    · rw [getElem_bytes, getElem_bytes, hag j hj]
    · rwa [getElem_bytes, getElem_bytes]
  · rintro (⟨-, hlen⟩ | ⟨i, ha, hb, hag, hi⟩)
    · rw [a.size_eq, b.size_eq] at hlen
      omega
    · refine ⟨i, fun j hj => ?_, by rwa [getElem_bytes, getElem_bytes] at hi⟩
      have := hag j hj
      rwa [getElem_bytes, getElem_bytes] at this

theorem threeWayCompare_neg_iff_distance : t.threeWayCompare a b < 0 ↔
    t.distance a < t.distance b := by
  rw [threeWayCompare_neg_iff, distance_lt_iff]

theorem sign_threeWayCompare :
    (t.threeWayCompare a b).sign = ((t.distance a).compareTo (t.distance b)).sign := by
  rcases lt_trichotomy (t.distance a) (t.distance b) with hlt | heq | hgt
  · rw [Int.sign_eq_neg_one_of_neg (threeWayCompare_neg_iff_distance.mpr hlt),
      Int.sign_eq_neg_one_of_neg hlt]
  · obtain rfl := distance_injective t heq
    rw [threeWayCompare_zero_iff.mpr rfl, compareTo_zero_iff.mpr rfl]
  · have hpos : 0 < (t.distance a).compareTo (t.distance b) := by
      rw [compareTo_swap (a := t.distance b)]
      exact Int.neg_pos_of_neg hgt
    have hpos' : 0 < t.threeWayCompare a b := threeWayCompare_pos_iff.mpr (distance_lt_iff.mp hgt)
    rw [Int.sign_eq_one_of_pos hpos, Int.sign_eq_one_of_pos hpos']

/-! ## Sorting and merging -/

/-- Sorted, as `std::sort` and `std::list::sort` leave a list: no id is closer to `t` than one
before it. -/
def SortedFor (t : Id) (l : List Id) : Prop := l.Pairwise fun a b => ¬ t.threeWayCompare b a < 0

/-- The comparison of `std::list::merge`: `a` comes first unless `b` is closer to `t`. -/
def notAfter (t a b : Id) : Bool := !decide (t.threeWayCompare b a < 0)

theorem notAfter_iff : t.notAfter a b = true ↔ t.distance a ≤ t.distance b := by
  rw [notAfter, Bool.not_eq_true', decide_eq_false_iff_not,
    threeWayCompare_neg_iff_distance, not_lt]

theorem sortedFor_iff {l : List Id} : t.SortedFor l ↔ l.Pairwise fun a b =>
    t.notAfter a b = true := by
  simp [SortedFor, notAfter]

/-- As a relation, `notAfter` is the numeric order of the distances. -/
theorem notAfter_eq (t : Id) : (fun a b => t.notAfter a b = true) =
    Function.onFun (· ≤ ·) t.distance := by
  funext a b
  exact propext notAfter_iff

theorem isLinearOrder_notAfter (t : Id) : IsLinearOrder Id fun a b => t.notAfter a b = true := by
  rw [notAfter_eq]
  exact (distance_injective t).isLinearOrder_onFun _

/-- There is one way to sort a list of ids. -/
theorem existsUnique_sortedFor (t : Id) (l : List Id) : ∃! m, m.Perm l ∧ t.SortedFor m := by
  have horder := isLinearOrder_notAfter t
  simp only [sortedFor_iff]
  refine ⟨l.insertionSort fun a b => t.notAfter a b = true, ⟨List.perm_insertionSort _ l, ?_⟩, ?_⟩
  · exact List.pairwise_insertionSort _ l
  · rintro m ⟨hperm, hm⟩
    exact List.Perm.eq_of_pairwise' hm (List.pairwise_insertionSort _ l)
      (hperm.trans (List.perm_insertionSort _ l).symm)

theorem mergeBy_perm (t : Id) (l m : List Id) : (mergeBy t.notAfter l m).Perm (l ++ m) := by
  rw [mergeBy_eq_merge]
  exact List.merge_perm_append _

theorem mergeBy_sortedFor {l m : List Id} (hl : t.SortedFor l) (hm : t.SortedFor m) :
    t.SortedFor (mergeBy t.notAfter l m) := by
  rw [sortedFor_iff] at hl hm ⊢
  rw [mergeBy_eq_merge]
  refine List.pairwise_merge (fun a b c hab hbc => ?_) (fun a b => ?_) l m hl hm
  · exact notAfter_iff.mpr ((notAfter_iff.mp hab).trans (notAfter_iff.mp hbc))
  · rw [Bool.or_eq_true, notAfter_iff, notAfter_iff]
    exact le_total _ _

/-! ## The order -/

/-- `threeWayCompare` is the XOR order of ids for the target `t`: it compares the distances
lexicographically, it is a strict total order, and sorting and merging by it is well defined. -/
structure XorOrder (t : Id) : Prop where
  sign : ∀ a b, (t.threeWayCompare a b).sign = ((t.distance a).compareTo (t.distance b)).sign
  lex : ∀ a b, t.threeWayCompare a b < 0 ↔ (t.distance a).bytes < (t.distance b).bytes
  zero : ∀ a b, t.threeWayCompare a b = 0 ↔ a = b
  antisymm : ∀ a b, t.threeWayCompare b a = -t.threeWayCompare a b
  strict : IsStrictTotalOrder Id fun a b => t.threeWayCompare a b < 0
  sorted : ∀ l, ∃! m, m.Perm l ∧ t.SortedFor m
  merged : ∀ l m, t.SortedFor l → t.SortedFor m →
    (mergeBy t.notAfter l m).Perm (l ++ m) ∧ t.SortedFor (mergeBy t.notAfter l m)

theorem isStrictTotalOrder (t : Id) : IsStrictTotalOrder Id fun a b =>
    t.threeWayCompare a b < 0 := by
  have horder : (fun a b => t.threeWayCompare a b < 0) = Function.onFun (· < ·) t.distance := by
    funext a b
    exact propext threeWayCompare_neg_iff_distance
  rw [horder]
  exact (distance_injective t).isStrictTotalOrder_onFun _

theorem threeWayCompare_xorOrder (t : Id) : XorOrder t where
  sign _ _ := sign_threeWayCompare
  lex a b := by rw [threeWayCompare_neg_iff_distance, lt_iff_bytes]
  zero _ _ := threeWayCompare_zero_iff
  antisymm _ _ := threeWayCompare_swap
  strict := isStrictTotalOrder t
  sorted := existsUnique_sortedFor t
  merged l m hl hm := ⟨mergeBy_perm t l m, mergeBy_sortedFor hl hm⟩

end Boson.Id
