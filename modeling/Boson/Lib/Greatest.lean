import Mathlib.Data.Set.Lattice
import Mathlib.Order.Basic

/-!
# An element with the greatest key

* `IsBest key s o`: `o` is an element of the set `s` whose key is greatest, or nothing if `s` is
  empty.
* `merge key o o'`: the one of two such elements that has the greater key, and the first if neither
  has.

An element that is kept from sets one after the other is one of their union (`IsBest.foldl_merge`).
Its key does not depend on the order (`IsBest.map_key_eq`), which the element may.
-/

namespace Greatest

universe u v

variable {α : Type u} {κ : Type v} [LinearOrder κ] {key : α → κ} {s t : Set α} {o o' : Option α}

/-- An element of the set whose key is greatest, if it has an element. -/
def IsBest (key : α → κ) (s : Set α) : Option α → Prop
  | none => s = ∅
  | some v => v ∈ s ∧ ∀ w ∈ s, key w ≤ key v

/-- The second element is taken if its key is greater. -/
def merge (key : α → κ) : Option α → Option α → Option α
  | o, none => o
  | none, some w => some w
  | some v, some w => if key v < key w then some w else some v

theorem isBest_empty : IsBest key ∅ none := rfl

theorem isBest_singleton (v : α) : IsBest key {v} (some v) :=
  ⟨rfl, fun _ hw => by rw [Set.mem_singleton_iff.mp hw]⟩

theorem IsBest.union (h : IsBest key s o) (h' : IsBest key t o') : IsBest key (s ∪ t)
    (merge key o o') := by
  cases o' with
  | none =>
    rw [show t = ∅ from h', Set.union_empty]
    exact h
  | some w =>
    obtain ⟨hw, hle⟩ := h'
    cases o with
    | none =>
      rw [show s = ∅ from h, Set.empty_union]
      exact ⟨hw, hle⟩
    | some v =>
      obtain ⟨hv, hle'⟩ := h
      change IsBest key (s ∪ t) (if key v < key w then some w else some v)
      split_ifs with hlt
      · refine ⟨.inr hw, fun x hx => ?_⟩
        obtain hx | hx := hx
        · exact (hle' x hx).trans hlt.le
        · exact hle x hx
      · refine ⟨.inl hv, fun x hx => ?_⟩
        obtain hx | hx := hx
        · exact hle' x hx
        · exact (hle x hx).trans (not_lt.mp hlt)

/-- What is kept of elements of sets, one after the other. -/
theorem IsBest.foldl_merge (h : IsBest key s o) {β : Type*} (set : β → Set α)
    (best : β → Option α) (l : List β) (hl : ∀ b ∈ l, IsBest key (set b) (best b)) :
    IsBest key (s ∪ {v | ∃ b ∈ l, v ∈ set b}) (l.foldl (fun o b => merge key o (best b)) o) := by
  induction l generalizing s o with
  | nil => simpa using h
  | cons b l ih =>
    rw [List.forall_mem_cons] at hl
    have hrest := ih (h.union hl.1) hl.2
    have hset : s ∪ {v | ∃ b' ∈ b :: l, v ∈ set b'} = s ∪ set b ∪ {v | ∃ b' ∈ l, v ∈ set b'} := by
      ext v
      simp [or_assoc]
    rw [hset]
    exact hrest

/-- The key of the best element depends on the set alone. -/
theorem IsBest.map_key_eq (h : IsBest key s o) (h' : IsBest key s o') : o.map key = o'.map key := by
  cases o with
  | none =>
    cases o' with
    | none => rfl
    | some w =>
      rw [show s = ∅ from h] at h'
      exact absurd h'.1 (Set.notMem_empty w)
  | some v =>
    cases o' with
    | none =>
      rw [show s = ∅ from h'] at h
      exact absurd h.1 (Set.notMem_empty v)
    | some w => exact congrArg some (le_antisymm (h'.2 v h.1) (h.2 w h'.1))

end Greatest
