import Mathlib.Data.List.Sort
import Mathlib.Data.List.Induction
import Mathlib.Data.List.Perm.Subperm
import Mathlib.Data.List.Nodup
import Mathlib.Order.Basic

/-!
# The `k` least elements of a list, and maps kept as sorted lists

* `KLeast lt k l s`: the elements of `s` are the `k` elements of `l` that are least under `lt` (all
  of `l` if it has fewer).
* `lowest k l`: the first `k` elements of `l` in sorted order.
* `assign key x l`: assignment to an ordered map whose entries are the list `l`, sorted by `key`.
* `mergeBy le xs ys`: the merge of two sorted lists.

A list that takes one element at a time and drops its last one past `k` elements holds `lowest k` of
what it was given (`take_orderedInsert_take`, `lowest_concat`).
-/

namespace Lowest

open scoped List

variable {α κ : Type*}

/-- `s` has the `k` elements of `l` that are least under `lt`. -/
structure KLeast (lt : α → α → Prop) (k : ℕ) (l s : List α) : Prop where
  subset : s ⊆ l
  nodup : s.Nodup
  length : s.length = min k l.length
  least : ∀ x ∈ s, ∀ y ∈ l, y ∉ s → lt x y

namespace KLeast

variable {lt : α → α → Prop} {k : ℕ} {l l' s s' : List α}

/-- Under an asymmetric relation the `k` least elements are determined. -/
theorem subset_of (hlt : ∀ a b, lt a b → ¬ lt b a) (h : KLeast lt k l s) (h' : KLeast lt k l s') :
    s ⊆ s' := by
  intro x hx
  by_contra hxn
  -- the two have the same number of elements, so `s'` has one that `s` lacks
  obtain ⟨y, hy, hyn⟩ : ∃ y ∈ s', y ∉ s := by
    by_contra hno
    push Not at hno
    have hp := (List.subperm_of_subset h'.nodup hno).perm_of_length_le (by rw [h.length, h'.length])
    exact hxn (hp.mem_iff.mpr hx)
  exact hlt x y (h.least x hx y (h'.subset hy) hyn) (h'.least y hy x (h.subset hx) hxn)

/-- The `k` least of `l` are the `k` least of any part of `l` that has them all. -/
theorem restrict (h : KLeast lt k l s) (hl : l' ⊆ l) (hs : s ⊆ l') (hk : k ≤ l.length)
    (hk' : k ≤ l'.length) : KLeast lt k l' s where
  subset := hs
  nodup := h.nodup
  length := by rw [h.length, Nat.min_eq_left hk, Nat.min_eq_left hk']
  least x hx y hy hyn := h.least x hx y (hl hy) hyn

/-- A list with the same elements. -/
theorem congr (h : KLeast lt k l s) (hnd : s'.Nodup) (hs : s ⊆ s') (hs' : s' ⊆ s) :
    KLeast lt k l s' where
  subset := List.Subset.trans hs' h.subset
  nodup := hnd
  length := by
    rw [← h.length]
    exact le_antisymm (List.subperm_of_subset hnd hs').length_le
      (List.subperm_of_subset h.nodup hs).length_le
  least x hx y hy hyn := h.least x (hs' hx) y hy fun h => hyn (hs h)

end KLeast

/-- The first `k` elements of a sorted list. -/
theorem kLeast_take {lt : α → α → Prop} {l s : List α} (k : ℕ) (hp : s.Perm l) (hnd : l.Nodup)
    (hs : s.Pairwise lt) : KLeast lt k l (s.take k) where
  subset x hx := hp.mem_iff.mp (List.mem_of_mem_take hx)
  nodup := (hp.nodup_iff.mpr hnd).sublist (List.take_sublist _ _)
  length := by rw [List.length_take, hp.length_eq]
  least x hx y hy hyn := by
    rw [← hp.mem_iff, ← List.take_append_drop k s, List.mem_append] at hy
    rw [← List.take_append_drop k s, List.pairwise_append] at hs
    exact hs.2.2 x hx y (hy.resolve_left hyn)

/-! ## The first `k` in sorted order -/

section LinearOrder

variable [LinearOrder α] {k : ℕ} {l : List α} {x y : α}

/-- The first `k` elements of `l` in sorted order. -/
def lowest (k : ℕ) (l : List α) : List α := (l.insertionSort (· ≤ ·)).take k

theorem lowest_subset : lowest k l ⊆ l := by
  intro x hx
  exact (List.mem_insertionSort (· ≤ ·)).mp (List.mem_of_mem_take hx)

theorem lowest_length : (lowest k l).length = min k l.length := by
  rw [lowest, List.length_take, List.length_insertionSort]

theorem lowest_pairwise : (lowest k l).Pairwise (· ≤ ·) :=
  (List.pairwise_insertionSort (· ≤ ·) l).sublist (List.take_sublist _ _)

theorem lowest_nodup (h : l.Nodup) : (lowest k l).Nodup :=
  ((List.perm_insertionSort (· ≤ ·) l).nodup_iff.mpr h).sublist (List.take_sublist _ _)

theorem lowest_of_length_le (h : l.length ≤ k) : x ∈ lowest k l ↔ x ∈ l := by
  rw [lowest, List.take_of_length_le (by rw [List.length_insertionSort]; exact h),
    List.mem_insertionSort]

/-- What is not among the `k` lowest is above all of them. -/
theorem lt_of_mem_lowest (hx : x ∈ lowest k l) (hy : y ∈ l) (hyn : y ∉ lowest k l) : x < y := by
  have hsort := List.pairwise_insertionSort (· ≤ ·) l
  rw [← List.take_append_drop k (l.insertionSort (· ≤ ·)), List.pairwise_append] at hsort
  have hyd : y ∈ (l.insertionSort (· ≤ ·)).drop k := by
    have hys := (List.mem_insertionSort (· ≤ ·)).mpr hy
    rw [← List.take_append_drop k (l.insertionSort (· ≤ ·)), List.mem_append] at hys
    exact hys.resolve_left hyn
  refine lt_of_le_of_ne (hsort.2.2 x hx y hyd) ?_
  rintro rfl
  exact hyn hx

theorem lt_of_mem_head? (hx : x ∈ (lowest k l).head?) (hy : y ∈ lowest k l)
    (hne : x ≠ y) : x < y := by
  obtain ⟨s, hs⟩ := List.head?_eq_some_iff.mp hx
  have hp := lowest_pairwise (k := k) (l := l)
  rw [hs] at hp hy
  exact lt_of_le_of_ne (List.rel_of_pairwise_cons hp (List.mem_of_ne_of_mem hne.symm hy)) hne

theorem lt_of_mem_getLast? (hy : y ∈ (lowest k l).getLast?) (hx : x ∈ lowest k l) (hne : x ≠ y) :
    x < y := by
  obtain ⟨s, hs⟩ := List.getLast?_eq_some_iff.mp hy
  have hp := lowest_pairwise (k := k) (l := l)
  rw [hs] at hp hx
  have hxs : x ∈ s := by
    rcases List.mem_append.mp hx with h | h
    · exact h
    · exact absurd (List.mem_singleton.mp h) hne
  exact lt_of_le_of_ne ((List.pairwise_append.mp hp).2.2 x hxs y (List.mem_singleton.mpr rfl)) hne

theorem take_orderedInsert_take (c : α) (k : ℕ) (l : List α) :
    ((l.take k).orderedInsert (· ≤ ·) c).take k = (l.orderedInsert (· ≤ ·) c).take k := by
  induction l generalizing k with
  | nil => simp
  | cons y l ih =>
    cases k with
    | zero => simp
    | succ k =>
      simp only [List.take_succ_cons, List.orderedInsert_cons]
      split
      · cases k <;> simp [List.take_take]
      · rw [List.take_succ_cons, List.take_succ_cons, ih]

theorem insertionSort_concat (l : List α) (c : α) :
    (l ++ [c]).insertionSort (· ≤ ·) = (l.insertionSort (· ≤ ·)).orderedInsert (· ≤ ·) c := by
  have hp : (l ++ [c]).insertionSort (· ≤ ·) ~ (l.insertionSort (· ≤ ·)).orderedInsert (· ≤ ·) c :=
    calc (l ++ [c]).insertionSort (· ≤ ·) ~ l ++ [c] := List.perm_insertionSort _ _
      _ ~ c :: l := List.perm_append_singleton c l
      _ ~ c :: l.insertionSort (· ≤ ·) := (List.perm_insertionSort _ _).symm.cons c
      _ ~ (l.insertionSort (· ≤ ·)).orderedInsert (· ≤ ·) c :=
          (List.perm_orderedInsert (· ≤ ·) c _).symm
  exact hp.eq_of_pairwise (fun a b _ _ => le_antisymm) (List.pairwise_insertionSort _ _)
    ((List.pairwise_insertionSort _ _).orderedInsert c _)

theorem lowest_concat (k : ℕ) (l : List α) (c : α) :
    lowest k (l ++ [c]) = ((lowest k l).orderedInsert (· ≤ ·) c).take k := by
  rw [lowest, lowest, take_orderedInsert_take, insertionSort_concat]

theorem mem_of_mem_lowest_concat {c : α} (h : x ∈ lowest k (l ++ [c])) : x = c ∨
    x ∈ lowest k l := by
  rw [lowest_concat] at h
  exact (List.mem_orderedInsert _).mp (List.mem_of_mem_take h)

/-- A new element among the `k` lowest pushes one out, if there were more than `k` elements. -/
theorem exists_pushed_out {c : α} (hnd : (l ++ [c]).Nodup) (hlen : k ≤ l.length)
    (hc : c ∈ lowest k (l ++ [c])) : ∃ z ∈ lowest k l, z ∉ lowest k (l ++ [c]) := by
  by_contra hno
  push Not at hno
  have hcl : c ∉ lowest k l := fun h =>
    (List.nodup_append.mp hnd).2.2 c (lowest_subset h) c (List.mem_singleton.mpr rfl) rfl
  have hnd' : (c :: lowest k l).Nodup :=
    List.nodup_cons.mpr ⟨hcl, lowest_nodup (List.nodup_append.mp hnd).1⟩
  have hle := (List.subperm_of_subset hnd' (List.cons_subset.mpr ⟨hc, hno⟩)).length_le
  rw [List.length_cons, lowest_length, lowest_length, List.length_append, List.length_singleton]
    at hle
  omega

/-- If the `k` lowest of `l` precede the rest under `P`, and the same holds of the elements the next
one pushes out, then it holds after it. -/
theorem lowest_separated_concat {P : α → α → Prop} (hP : ∀ a b c, P a b → P b c → P a c) {c : α}
    (hnd : (l ++ [c]).Nodup) (hl : ∀ x ∈ lowest k l, ∀ y ∈ l, y ∉ lowest k l → P x y)
    (hd : ∀ y, y = c ∨ y ∈ lowest k l → y ∉ lowest k (l ++ [c]) →
      ∀ x ∈ lowest k (l ++ [c]), P x y) :
    ∀ x ∈ lowest k (l ++ [c]), ∀ y ∈ l ++ [c], y ∉ lowest k (l ++ [c]) → P x y := by
  intro x hx y hy hyn
  by_cases hyc : y = c ∨ y ∈ lowest k l
  · exact hd y hyc hyn x hx
  rw [not_or] at hyc
  have hyl : y ∈ l := by
    rcases List.mem_append.mp hy with hy | hy
    · exact hy
    · exact absurd (List.mem_singleton.mp hy) hyc.1
  rcases mem_of_mem_lowest_concat hx with rfl | hxl
  · -- `x` is new: the element it pushed out lies between it and `y`.
    have hlen : k ≤ l.length := by
      by_contra hlt
      exact hyc.2 ((lowest_of_length_le (by omega)).mpr hyl)
    obtain ⟨z, hz, hzn⟩ := exists_pushed_out hnd hlen hx
    exact hP x z y (hd z (.inr hz) hzn x hx) (hl z hz y hyl hyc.2)
  · exact hl x hxl y hyl hyc.2

end LinearOrder

/-! ## Ordered maps -/

section Assign

variable [LinearOrder κ] (key : α → κ)

/-- `m[key x] = x` for an ordered map whose entries, in order, are the list. -/
def assign (x : α) : List α → List α
  | [] => [x]
  | y :: l =>
    if key x < key y then x :: y :: l
    else if key x = key y then x :: l
    else y :: assign x l

variable {key}

/-- A new key goes to its place in the order. -/
theorem map_assign_of_notMem {x : α} {l : List α} (h : key x ∉ l.map key) :
    (assign key x l).map key = (l.map key).orderedInsert (· ≤ ·) (key x) := by
  induction l with
  | nil => rfl
  | cons y l ih =>
    rw [List.map_cons, List.mem_cons, not_or] at h
    rw [assign, List.map_cons, List.orderedInsert_cons]
    by_cases hlt : key x < key y
    · rw [if_pos hlt, if_pos hlt.le, List.map_cons, List.map_cons]
    · rw [if_neg hlt, if_neg h.1, if_neg fun hle => hlt (lt_of_le_of_ne hle h.1), List.map_cons,
        ih h.2]

theorem mem_of_mem_assign {x y : α} {l : List α} (h : y ∈ assign key x l) : y = x ∨ y ∈ l := by
  induction l with
  | nil => exact .inl (List.mem_singleton.mp h)
  | cons z l ih =>
    rw [assign] at h
    split at h
    · exact List.mem_cons.mp h
    split at h
    · rcases List.mem_cons.mp h with h | h
      · exact .inl h
      · exact .inr (List.mem_cons_of_mem _ h)
    rcases List.mem_cons.mp h with rfl | h
    · exact .inr List.mem_cons_self
    · exact (ih h).imp_right (List.mem_cons_of_mem _)

theorem length_assign_le (x : α) (l : List α) : (assign key x l).length ≤ l.length + 1 := by
  induction l with
  | nil => exact Nat.le_refl _
  | cons y l ih =>
    rw [assign]
    split
    · exact Nat.le_refl _
    split
    · exact Nat.le_succ _
    · exact Nat.succ_le_succ ih

end Assign

/-! ## Merging -/

/-- `std::list::merge`: of two equivalent elements the one of the first list comes first. -/
def mergeBy (le : α → α → Bool) : List α → List α → List α
  | [], ys => ys
  | x :: xs, [] => x :: xs
  | x :: xs, y :: ys =>
    if le x y then x :: mergeBy le xs (y :: ys) else y :: mergeBy le (x :: xs) ys
termination_by xs ys => xs.length + ys.length

theorem mergeBy_eq_merge (le : α → α → Bool) (xs ys : List α) : mergeBy le xs ys =
    xs.merge ys le := by
  fun_induction mergeBy le xs ys with
  | case1 ys => simp
  | case2 x xs => simp
  | case3 x xs y ys hle ih => rw [List.cons_merge_cons_pos _ _ _ hle, ih]
  | case4 x xs y ys hle ih => rw [List.cons_merge_cons_neg _ _ _ hle, ih]

end Lowest
