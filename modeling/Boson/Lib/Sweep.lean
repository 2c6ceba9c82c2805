import Mathlib.Data.List.Nodup
import Mathlib.Data.List.TakeDrop
import Mathlib.Data.Nat.Init
import Mathlib.Order.Nat

/-!
# A loop over a list that changes under it

A loop visits the positions that a list has when the loop starts. The list is part of a state, and
the visit of an element may take the element out of the list; those behind it move up. A position
that is no longer there is read outside the list.

* `sweep_take`: as long as nothing is taken out, the elements are visited in their order.
* `covers_iff`: every element is visited exactly once and nothing is read outside the list, exactly
  if no element but the last one is taken out.
-/

namespace Sweep

universe u v

variable {σ : Type u} {α : Type v}

/-- The loop on its way: the state, the elements that were visited, and whether it read outside the
list. -/
structure Trace (σ : Type u) (α : Type v) where
  state : σ
  visited : List α := []
  outside : Bool := false

variable (elems : σ → List α) (step : σ → α → σ)

/-- The visit of a position. -/
def visit (t : Trace σ α) (i : ℕ) : Trace σ α :=
  match (elems t.state)[i]? with
  | some a => { t with state := step t.state a, visited := t.visited ++ [a] }
  | none => { t with outside := true }

/-- The first `k` visits. -/
def visits (s : σ) (k : ℕ) : Trace σ α := (List.range k).foldl (visit elems step) { state := s }

/-- The loop. -/
def sweep (s : σ) : Trace σ α := visits elems step s (elems s).length

/-- A visit takes out the visited element if `erases` holds, and nothing else. Whether it does so
for another element does not change. -/
structure Erasing (erases : σ → α → Prop) : Prop where
  kept : ∀ s a, ¬ erases s a → elems (step s a) = elems s
  erased : ∀ s a, (elems s).Nodup → a ∈ elems s → erases s a →
    (elems (step s a)).length < (elems s).length
  length_le : ∀ s a, (elems (step s a)).length ≤ (elems s).length
  others : ∀ s a b, b ≠ a → (erases (step s a) b ↔ erases s b)

variable {elems step} {erases : σ → α → Prop} {s : σ} {k m : ℕ}

theorem visits_succ (s : σ) (k : ℕ) :
    visits elems step s (k + 1) = visit elems step (visits elems step s k) k := by
  rw [visits, List.range_succ, List.foldl_append]
  rfl

theorem visit_of_lt {t : Trace σ α} {i : ℕ} (h : i < (elems t.state).length) :
    visit elems step t i =
      { t with state := step t.state (elems t.state)[i], visited := t.visited ++
        [(elems t.state)[i]] } := by
  rw [visit, List.getElem?_eq_getElem h]

/-- The visit of a position of a list that is still as it was. -/
theorem visit_of_eq {t : Trace σ α} (helems : elems t.state = elems s) (hk : k < (elems s).length) :
    visit elems step t k =
      { t with state := step t.state (elems s)[k], visited := t.visited ++ [(elems s)[k]] } := by
  rw [visit, helems, List.getElem?_eq_getElem hk]

theorem visit_of_le {t : Trace σ α} {i : ℕ} (h : (elems t.state).length ≤ i) :
    visit elems step t i = { t with outside := true } := by
  rw [visit, List.getElem?_eq_none h]

namespace Erasing

theorem visits_length_le (h : Erasing elems step erases) (s : σ) (hkm : k ≤ m) :
    (elems (visits elems step s m).state).length ≤
    (elems (visits elems step s k).state).length := by
  induction m, hkm using Nat.le_induction with
  | base => exact le_rfl
  | succ m hkm ih =>
    refine le_trans ?_ ih
    rw [visits_succ]
    by_cases hm : m < (elems (visits elems step s m).state).length
    · rw [visit_of_lt hm]
      exact h.length_le _ _
    · rw [visit_of_le (Nat.not_lt.mp hm)]

/-- Before the first element that is taken out. -/
theorem visits_take (h : Erasing elems step erases) (hnodup : (elems s).Nodup)
    (hk : k ≤ (elems s).length) (hkeep : ∀ a ∈ (elems s).take k, ¬ erases s a) :
    elems (visits elems step s k).state = elems s ∧
      (visits elems step s k).visited = (elems s).take k ∧ (visits elems step s k).outside = false ∧
      ∀ b ∉ (elems s).take k, (erases (visits elems step s k).state b ↔ erases s b) := by
  induction k with
  | zero => exact ⟨rfl, rfl, rfl, fun _ _ => Iff.rfl⟩
  | succ k ih =>
    have hlt : k < (elems s).length := hk
    have htake : (elems s).take (k + 1) = (elems s).take k ++ [(elems s)[k]] :=
      List.take_succ_eq_append_getElem hlt
    have hmem : ∀ a ∈ (elems s).take k, a ∈ (elems s).take (k + 1) := by
      intro a ha
      rw [htake]
      exact List.mem_append_left _ ha
    obtain ⟨helems, hvisited, houtside, hothers⟩ := ih hlt.le fun a ha => hkeep a (hmem a ha)
    have hnew : (elems s)[k] ∉ (elems s).take k := by
      intro hold
      obtain ⟨j, hj, hjk⟩ := List.mem_take_iff_getElem.mp hold
      have := (List.Nodup.getElem_inj_iff hnodup).mp hjk
      omega
    have hlast : (elems s)[k] ∈ (elems s).take (k + 1) := by
      rw [htake]
      exact List.mem_append_right _ List.mem_cons_self
    have hstays := mt (hothers _ hnew).mp (hkeep _ hlast)
    rw [visits_succ, visit_of_eq helems hlt]
    refine ⟨(h.kept _ _ hstays).trans helems, ?_, houtside, ?_⟩
    · rw [htake]
      exact congrArg (· ++ [(elems s)[k]]) hvisited
    · intro b hb
      have hne : b ≠ (elems s)[k] := fun hb' => hb (hb' ▸ hlast)
      exact (h.others _ _ _ hne).trans (hothers b fun hold => hb (hmem b hold))

/-- The last positions are outside of a list that got shorter. -/
theorem outside_of_shorter (h : Erasing elems step erases) (hk : k < (elems s).length)
    (hshort : (elems (visits elems step s k).state).length < (elems s).length) :
    (sweep elems step s).outside = true := by
  obtain ⟨n, hn⟩ := Nat.exists_eq_succ_of_ne_zero (Nat.ne_zero_of_lt hk)
  have hle := h.visits_length_le s (show k ≤ n by omega)
  rw [sweep, hn, Nat.succ_eq_add_one, visits_succ, visit_of_le (by omega)]

/-- A visit that takes out its element makes the list shorter. -/
theorem shorter_of_erases (h : Erasing elems step erases) (hnodup : (elems s).Nodup)
    (hk : k < (elems s).length) (hkeep : ∀ a ∈ (elems s).take k, ¬ erases s a)
    (herases : erases s (elems s)[k]) :
    (elems (visits elems step s (k + 1)).state).length < (elems s).length := by
  obtain ⟨helems, -, -, hothers⟩ := h.visits_take hnodup hk.le hkeep
  have hfirst : (elems s)[k] ∉ (elems s).take k := fun hold => hkeep _ hold herases
  rw [visits_succ, visit_of_eq helems hk]
  refine (h.erased _ _ ?_ ?_ ((hothers _ hfirst).mpr herases)).trans_eq (congrArg _ helems)
  · rw [helems]
    exact hnodup
  · rw [helems]
    exact List.getElem_mem hk

/-- If no position is read outside, then no element but the last one is taken out. -/
theorem not_erases_of_inside (h : Erasing elems step erases) (hnodup : (elems s).Nodup)
    (hinside : (sweep elems step s).outside = false) (hk : k ≤ (elems s).length - 1) :
    ∀ a ∈ (elems s).take k, ¬ erases s a := by
  induction k with
  | zero =>
    intro a ha
    rw [List.take_zero] at ha
    cases ha
  | succ k ih =>
    intro a ha herases
    have hlt : k < (elems s).length := by omega
    have hbefore := ih (by omega)
    rw [List.take_succ_eq_append_getElem hlt] at ha
    rcases List.mem_append.mp ha with hold | hnew
    · exact hbefore a hold herases
    · -- the list is shorter from here on, so the last position is outside
      obtain rfl := List.mem_singleton.mp hnew
      have hshort := h.shorter_of_erases hnodup hlt hbefore herases
      rw [h.outside_of_shorter (by omega) hshort] at hinside
      cases hinside

/-- If no element but the last one is taken out, the elements are visited in their order. -/
theorem sweep_take (h : Erasing elems step erases) (hnodup : (elems s).Nodup)
    (hkeep : ∀ a ∈ (elems s).dropLast, ¬ erases s a) :
    (sweep elems step s).outside = false ∧ (sweep elems step s).visited = elems s := by
  rw [List.dropLast_eq_take] at hkeep
  cases hlen : (elems s).length with
  | zero =>
    rw [sweep, hlen, List.length_eq_zero_iff.mp hlen]
    exact ⟨rfl, rfl⟩
  | succ n =>
    have hlt : n < (elems s).length := by omega
    rw [hlen, Nat.add_sub_cancel] at hkeep
    obtain ⟨helems, hvisited, houtside, -⟩ := h.visits_take hnodup hlt.le hkeep
    rw [sweep, hlen, visits_succ, visit_of_eq helems hlt]
    refine ⟨houtside, ?_⟩
    show (visits elems step s n).visited ++ [(elems s)[n]] = elems s
    rw [hvisited, ← List.take_succ_eq_append_getElem hlt, List.take_of_length_le hlen.le]

/-- A sweep covers the list exactly if it takes out no element but the last one. -/
theorem covers_iff [DecidableEq α] (h : Erasing elems step erases) (hnodup : (elems s).Nodup) :
    ((sweep elems step s).outside = false ∧
        ∀ a ∈ elems s, (sweep elems step s).visited.count a = 1) ↔
      ∀ a ∈ (elems s).dropLast, ¬ erases s a := by
  constructor
  · rintro ⟨hinside, -⟩
    rw [List.dropLast_eq_take]
    exact h.not_erases_of_inside hnodup hinside le_rfl
  · intro hkeep
    obtain ⟨houtside, hvisited⟩ := h.sweep_take hnodup hkeep
    refine ⟨houtside, fun a ha => ?_⟩
    rw [hvisited]
    exact List.count_eq_one_of_mem hnodup ha

end Erasing

end Sweep
