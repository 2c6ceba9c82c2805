import Mathlib.Data.Set.CoeSort
import Mathlib.Order.RelClasses

/-!
# Comparisons of sorted containers

A sorted container compares its elements with a function `less`, which has to be a strict weak order
of the elements that are ever compared. Two elements of which none is less than the other are the
same one for the container.

* `Legal`: `less` is such an order, and the container tells elements apart exactly if they are not
  `same`.
* `Legal.of_key`: a comparison of keys in a total order is legal.
-/

namespace Comparator

universe u v

variable {α : Type u} {κ : Type v} {S : Set α} {less : α → α → Bool} {same : α → α → Prop}

/-- The comparison `less` is one that a container of elements of `S` can be used with, and what it
takes for the same element are those that are `same`. -/
structure Legal (S : Set α) (less : α → α → Bool) (same : α → α → Prop) : Prop where
  weak : IsStrictWeakOrder S fun a b => less a b = true
  equivalent : ∀ a ∈ S, ∀ b ∈ S, less a b = false ∧ less b a = false ↔ same a b

theorem Legal.irrefl (h : Legal S less same) {a : α} (ha : a ∈ S) : less a a = false := by
  have := h.weak
  exact Bool.eq_false_iff.mpr (irrefl_of (fun a b : S => less a b = true) ⟨a, ha⟩)

/-- The elements are compared by their keys. -/
theorem Legal.of_key {r : κ → κ → Prop} [IsStrictTotalOrder κ r] (key : α → κ)
    (hless : ∀ a ∈ S, ∀ b ∈ S, less a b = true ↔ r (key a) (key b))
    (hsame : ∀ a ∈ S, ∀ b ∈ S, same a b ↔ key a = key b) : Legal S less same where
  weak := by
    have horder : (fun a b : S => less a b = true) = Function.onFun r fun a : S => key a := by
      funext a b
      exact propext (hless a a.2 b b.2)
    have hweak : IsStrictWeakOrder κ r := isStrictWeakOrder_of_isOrderConnected
    rw [horder]
    infer_instance
  equivalent a ha b hb := by
    rw [← Bool.not_eq_true, ← Bool.not_eq_true, hless a ha b hb, hless b hb a ha, hsame a ha b hb]
    constructor
    · rintro ⟨hab, hba⟩
      exact Std.Trichotomous.trichotomous _ _ hab hba
    · intro heq
      rw [heq]
      exact ⟨irrefl_of r _, irrefl_of r _⟩

end Comparator
