import Mathlib.Data.List.Perm.Basic
import Mathlib.Order.Defs.LinearOrder
import Mathlib.Data.List.Sort

/-!
# Lists that cover a space exactly once

`ExactCover cov l`: every point `x` is covered by exactly one element of the list `l`. The notion
does not depend on the order of the list (`ExactCover.perm`), and elements may be replaced by others
that cover the same points (`ExactCover.replace`).

If every element covers its own first point (`fst`) and the points that an element covers are an
interval, then in a list sorted by first points the element that covers `x` is the last one whose
first point is at most `x` (`ExactCover.cov_of_last_le`): a binary search finds it.
-/

namespace Cover

variable {β κ : Type*} {cov : β → κ → Bool} {l l' : List β}

/-- Every point is covered by exactly one element of `l`. -/
def ExactCover (cov : β → κ → Bool) (l : List β) : Prop := ∀ x, l.countP (cov · x) = 1

theorem ExactCover.perm (h : ExactCover cov l) (hp : l.Perm l') : ExactCover cov l' := by
  intro x
  rw [← hp.countP_eq]
  exact h x

/-- Elements that cover the same points, each as often, can be exchanged. -/
theorem ExactCover.replace {out rest into : List β} (h : ExactCover cov l)
    (hp : l.Perm (out ++ rest))
    (heq : ∀ x, into.countP (cov · x) = out.countP (cov · x)) : ExactCover cov (rest ++ into) := by
  intro x
  have hx := h.perm hp x
  rw [List.countP_append] at hx ⊢
  rw [heq x]
  omega

theorem ExactCover.exists_mem (h : ExactCover cov l) (x : κ) : ∃ b ∈ l, cov b x = true :=
  List.countP_pos_iff.mp (by rw [h x]; exact Nat.one_pos)

/-- At most one position of the list covers a point. -/
theorem ExactCover.pairwise (h : ExactCover cov l) (x : κ) :
    l.Pairwise fun a b => ¬ (cov a x = true ∧ cov b x = true) := by
  have key : ∀ m : List β, m.countP (cov · x) ≤ 1 →
      m.Pairwise fun a b => ¬ (cov a x = true ∧ cov b x = true) := by
    intro m hm
    induction m with
    | nil => exact .nil
    | cons a m ih =>
      rw [List.countP_cons] at hm
      refine .cons ?_ (ih (by omega))
      rintro b hb ⟨ha, hbx⟩
      have : 0 < m.countP (cov · x) := List.countP_pos_iff.mpr ⟨b, hb, hbx⟩
      simp only [ha, ↓reduceIte] at hm
      omega
  exact key l (h x).le

theorem ExactCover.getElem_inj (h : ExactCover cov l) {x : κ} {i j : ℕ} (hi : i < l.length)
    (hj : j < l.length) (hix : cov l[i] x = true) (hjx : cov l[j] x = true) : i = j := by
  have hp := List.pairwise_iff_getElem.mp (h.pairwise x)
  rcases lt_trichotomy i j with hij | hij | hij
  · exact absurd ⟨hix, hjx⟩ (hp i j hi hj hij)
  · exact hij
  · exact absurd ⟨hjx, hix⟩ (hp j i hj hi hij)

theorem ExactCover.eq_of_mem (h : ExactCover cov l) {x : κ} {a b : β} (ha : a ∈ l) (hb : b ∈ l)
    (hax : cov a x = true) (hbx : cov b x = true) : a = b := by
  obtain ⟨i, hi, rfl⟩ := List.getElem_of_mem ha
  obtain ⟨j, hj, rfl⟩ := List.getElem_of_mem hb
  obtain rfl := h.getElem_inj hi hj hax hbx
  rfl

section Sorted

variable [LinearOrder κ] {fst : β → κ}

/-- Sorting an exact cover by first points makes them strictly increasing. -/
theorem ExactCover.sorted_lt (h : ExactCover cov l) (hfst : ∀ b ∈ l, cov b (fst b) = true)
    (hs : l.Pairwise fun a b => fst a ≤ fst b) : l.Pairwise fun a b => fst a < fst b := by
  rw [List.pairwise_iff_getElem] at hs ⊢
  intro i j hi hj hij
  refine lt_of_le_of_ne (hs i j hi hj hij) fun heq => ?_
  have hix := hfst _ (List.getElem_mem hi)
  have hjx := hfst _ (List.getElem_mem hj)
  rw [← heq] at hjx
  exact absurd (h.getElem_inj hi hj hix hjx) (by omega)

/-- In a sorted exact cover by intervals, the last element whose first point is at most `x`
covers `x`. -/
theorem ExactCover.cov_of_last_le (h : ExactCover cov l) (fst : β → κ)
    (hfst : ∀ b ∈ l, cov b (fst b) = true) (hle : ∀ b ∈ l, ∀ x, cov b x = true → fst b ≤ x)
    (hconv : ∀ b ∈ l, ∀ x y, cov b x = true → fst b ≤ y → y ≤ x → cov b y = true)
    {x : κ} {i : ℕ} (hi : i < l.length) (hix : fst l[i] ≤ x)
    (hlast : ∀ j (hj : j < l.length), fst l[j] ≤ x → fst l[j] ≤ fst l[i]) :
    cov l[i] x = true := by
  obtain ⟨b, hb, hbx⟩ := h.exists_mem x
  obtain ⟨j, hj, rfl⟩ := List.getElem_of_mem hb
  -- The element that covers `x` starts no later than `l[i]`, so it covers `l[i]`'s first point.
  have hji := hlast j hj (hle _ hb x hbx)
  have hcov := hconv _ hb x _ hbx hji hix
  obtain rfl := h.getElem_inj hi hj (hfst _ (List.getElem_mem hi)) hcov
  exact hbx

end Sorted

end Cover
