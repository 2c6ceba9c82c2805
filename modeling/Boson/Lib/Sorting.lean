import Mathlib.Data.List.Sort
import Mathlib.Order.Basic

/-!
# Sorted insertion

* `filter_orderedInsert`, `filter_insertionSort`: insertion is seen only by what selects the new
  element, and a sort keeps the order of elements that it does not tell apart.
* `count_take`, `nodup_take_iff`: how often an element is among the first ones of a sorted list, and
  when none of them is there twice.
-/

namespace Sorting

variable {α : Type*} {r : α → α → Prop} [DecidableRel r] {p : α → Bool} {a : α} {l : List α}

/-- What does not select the new element does not see it. -/
theorem filter_orderedInsert (h : p a = false) (l : List α) :
    (l.orderedInsert r a).filter p = l.filter p := by
  induction l with
  | nil => simp [h]
  | cons b l ih =>
    rw [List.orderedInsert_cons]
    split_ifs
    · rw [List.filter_cons_of_neg (by simp [h])]
    · rw [List.filter_cons, List.filter_cons, ih]

/-- Among the elements to which the new one may not be put behind, it is the first. -/
theorem filter_orderedInsert_of_le (h : p a = true) (hp : ∀ b, p b = true → r a b) (l : List α) :
    (l.orderedInsert r a).filter p = a :: l.filter p := by
  induction l with
  | nil => simp [h]
  | cons b l ih =>
    rw [List.orderedInsert_cons]
    split_ifs with hr
    · rw [List.filter_cons_of_pos h]
    · have hb : p b ≠ true := fun hb => hr (hp b hb)
      rw [List.filter_cons_of_neg hb, List.filter_cons_of_neg hb, ih]

/-- A sort is stable. -/
theorem filter_insertionSort (hp : ∀ a b, p a = true → p b = true → r a b) (l : List α) :
    (l.insertionSort r).filter p = l.filter p := by
  induction l with
  | nil => rfl
  | cons a l ih =>
    rw [List.insertionSort_cons]
    cases ha : p a with
    | true =>
      rw [filter_orderedInsert_of_le ha (fun b hb => hp a b ha hb), ih, List.filter_cons_of_pos ha]
    | false => rw [filter_orderedInsert ha, ih, List.filter_cons_of_neg (by simp [ha])]

section Ranks

variable {κ : Type*} [LinearOrder κ] {m : List κ}

/-- The copies of `x` come right after what is less than `x`. -/
theorem count_take (hm : m.Pairwise (· ≤ ·)) (k : Nat) (x : κ) :
    (m.take k).count x = min (m.count x) (k - m.countP (· < x)) := by
  induction m generalizing k with
  | nil => simp
  | cons a m ih =>
    obtain ⟨ha, hm⟩ := List.pairwise_cons.mp hm
    cases k with
    | zero => simp
    | succ k =>
      rw [List.take_succ_cons, List.count_cons, List.count_cons, List.countP_cons, ih hm k]
      rcases lt_trichotomy a x with hlt | rfl | hgt
      · simp only [hlt, beq_iff_eq, hlt.ne, if_false, decide_true, if_true]
        omega
      · have hless : m.countP (· < a) = 0 := by
          rw [List.countP_eq_zero]
          intro b hb
          simpa using ha b hb
        simp only [hless, beq_self_eq_true, if_true, lt_irrefl, decide_false,
          Bool.false_eq_true, if_false]
        omega
      · have hnone : m.count x = 0 := by
          rw [List.count_eq_zero]
          intro hx
          exact absurd (ha x hx) (not_le.mpr hgt)
        simp [hnone, hgt.ne']

/-- No element is twice among the first `k` exactly if at least `k - 1` come before one that is
there twice. -/
theorem nodup_take_iff (hm : m.Pairwise (· ≤ ·)) (k : Nat) :
    (m.take k).Nodup ↔ ∀ x, 2 ≤ m.count x → k ≤ m.countP (· < x) + 1 := by
  rw [List.nodup_iff_count_le_one]
  refine forall_congr' fun x => ?_
  rw [count_take hm]
  omega

end Ranks

end Sorting
