import Mathlib.Data.List.Basic
import Mathlib.Data.List.Perm.Basic

/-!
# Counts over a list of which one member changes or goes
-/

namespace Counts

variable {α : Type*} {p q r : α → Bool} {l : List α} {i : Nat} {a b : α}

theorem countP_set (hi : l[i]? = some a) (b : α) :
    (l.set i b).countP p + (p a).toNat = l.countP p + (p b).toNat := by
  obtain ⟨hlt, rfl⟩ := List.getElem?_eq_some_iff.mp hi
  have hpos (h : p l[i] = true) : 0 < l.countP p :=
    List.countP_pos_iff.mpr ⟨_, List.getElem_mem hlt, h⟩
  rw [List.countP_set hlt]
  cases h : p l[i] <;> cases p b <;> simp_all

/-- A member is replaced by one that counts the same. -/
theorem countP_set_same (hi : l[i]? = some a) (h : p b = p a) :
    (l.set i b).countP p = l.countP p := by
  have hset : (l.set i b).countP p + (p a).toNat = l.countP p + (p b).toNat := countP_set hi b
  rw [h] at hset
  exact Nat.add_right_cancel hset

/-- A member is taken out. -/
theorem countP_eraseIdx (hi : l[i]? = some a) :
    (l.eraseIdx i).countP p + (p a).toNat = l.countP p := by
  obtain ⟨hlt, rfl⟩ := List.getElem?_eq_some_iff.mp hi
  rw [← (List.getElem_cons_eraseIdx_perm hlt).countP_eq p, List.countP_cons]
  cases p l[i] <;> rfl

theorem countP_eq_add (h : ∀ a ∈ l, (p a).toNat = (q a).toNat + (r a).toNat) :
    l.countP p = l.countP q + l.countP r := by
  induction l with
  | nil => rfl
  | cons a l ih =>
    obtain ⟨ha, hl⟩ := List.forall_mem_cons.mp h
    rw [List.countP_cons, List.countP_cons, List.countP_cons, ih hl]
    cases hp : p a <;> cases hq : q a <;> cases hr : r a <;> simp_all <;> omega

end Counts
