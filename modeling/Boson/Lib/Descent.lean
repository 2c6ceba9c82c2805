import Mathlib.Data.Finset.Max
import Mathlib.Data.Set.Basic

/-!
# Greedy searches

A search asks elements of a set, one after the other, for others, and wants one that comes closest
to its goal, by a measure `dist`. It may forget an element as long as it knows one that is no
farther.

* `Covers known c`: the search knows an element that is no farther than `c`.
* `exists_closest`: where everyone who is asked and is not the closest names one that is closer, a
  search that has nobody closer left to ask has asked the closest.
-/

namespace Boson

namespace Descent

variable {α δ : Type*} [LinearOrder δ] {dist : α → δ} {known known' W : Set α} {c : α}

/-- An element that is known is no farther than `c`. -/
def Covers (dist : α → δ) (known : Set α) (c : α) : Prop := ∃ e ∈ known, dist e ≤ dist c

namespace Covers

theorem of_mem (h : c ∈ known) : Covers dist known c := ⟨c, h, le_rfl⟩

/-- What is known may be exchanged for elements that are no farther. -/
theorem trans (h : Covers dist known c) (hall : ∀ e ∈ known, Covers dist known' e) :
    Covers dist known' c := by
  obtain ⟨e, he, hle⟩ := h
  obtain ⟨e', he', hle'⟩ := hall e he
  exact ⟨e', he', hle'.trans hle⟩

theorem mono (h : Covers dist known c) (hsub : known ⊆ known') : Covers dist known' c :=
  h.trans fun _ he => .of_mem (hsub he)

end Covers

/-- Those that were asked know no better than themselves: one of them is the closest. -/
theorem exists_closest {asked : List α} (hne : asked ≠ [])
    (hcloser : ∀ u ∈ asked, ∀ c ∈ W, dist c < dist u →
      ∃ e, dist e < dist u ∧ Covers dist {x | x ∈ asked} e) :
    ∃ m ∈ asked, ∀ c ∈ W, dist m ≤ dist c := by
  classical
  obtain ⟨m, hm, hleast⟩ := asked.toFinset.exists_min_image dist (by simpa using hne)
  rw [List.mem_toFinset] at hm
  refine ⟨m, hm, fun c hc => ?_⟩
  by_contra hlt
  obtain ⟨e, hlt', u, hu, hle⟩ := hcloser m hm c hc (not_le.mp hlt)
  exact absurd (hleast u (List.mem_toFinset.mpr hu)) (not_le.mpr (hle.trans_lt hlt'))

end Descent

end Boson
