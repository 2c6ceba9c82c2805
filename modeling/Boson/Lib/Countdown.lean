import Mathlib.Data.List.Basic
import Mathlib.Data.List.TakeDrop

/-!
# Waiting for a number of arrivals

A handler is called once for each of the parties that it waits for. It counts the call and takes
over what it is called with. It is done when it is called for the last of them, or with something
that is enough by itself. Nothing keeps such a handler from being done more than once, or makes it
be done at all, if it does not wait for as many parties as there are.

* `Waits.length_done`: how often the handler is done.
* `Waits.done_eq`: a handler that waits for as many as come is done with what it took over from all
  of them.
* `once_iff`: when this is exactly once.
-/

namespace Countdown

universe u v

variable {σ : Type u} {α : Type v}

/-- The states in which a handler is done, when it is called with these. -/
def done (collect : σ → α → σ) (settles : σ → α → Bool) : σ → List α → List σ
  | _, [] => []
  | s, a :: rest =>
    let s := collect s a
    if settles s a then s :: done collect settles s rest else done collect settles s rest

/-- A handler that waits for `n` calls, as long as its state has the property `I`. `enough` says
which calls are enough by themselves, and `ready` for which calls it can be done at all when the
others have come. -/
structure Waits (collect : σ → α → σ) (settles : σ → α → Bool) (count : σ → Nat) (n : Nat)
    (I : σ → Prop)
    (enough ready : α → Bool) : Prop where
  keeps : ∀ {s}, I s → ∀ a, I (collect s a)
  counts : ∀ s a, count (collect s a) = count s + 1
  settles_eq : ∀ {s}, I s → ∀ a, settles (collect s a) a =
    (enough a || (decide (n ≤ count s + 1) && ready a))

variable {collect : σ → α → σ} {settles : σ → α → Bool} {count : σ → Nat} {n : Nat} {I : σ → Prop}
  {enough ready : α → Bool}

/-- Up to the last but one of the `n` calls only those count that are enough by themselves. -/
theorem Waits.length_done (h : Waits collect settles count n I enough ready) {s : σ} (hs : I s)
    (l : List α) :
    (done collect settles s l).length =
      (l.take (n - 1 - count s)).countP enough + (l.drop (n - 1 - count s)).countP fun a =>
        enough a || ready a := by
  induction l generalizing s with
  | nil => simp [done]
  | cons a l ih =>
    have hrest := ih (h.keeps hs a)
    rw [h.counts] at hrest
    have hlength : (done collect settles s (a :: l)).length =
        (if settles (collect s a) a then 1 else 0) +
          (done collect settles (collect s a) l).length := by
      rw [done]
      split_ifs with hset
      · rw [List.length_cons]
        omega
      · omega
    rw [hlength, hrest, h.settles_eq hs]
    by_cases hlast : n ≤ count s + 1
    · have h0 : n - 1 - count s = 0 := by omega
      have h1 : n - 1 - (count s + 1) = 0 := by omega
      simp [h0, h1, hlast, List.countP_cons, Nat.add_comm]
    · obtain ⟨k, hk⟩ : ∃ k, n - 1 - count s = k + 1 := ⟨n - 2 - count s, by omega⟩
      have hk' : n - 1 - (count s + 1) = k := by omega
      simp only [hk, hk', hlast, List.take_succ_cons, List.drop_succ_cons, List.countP_cons,
        decide_false, Bool.false_and, Bool.or_false]
      omega

/-- A handler that waits for just these calls is done after the last of them. -/
theorem Waits.done_eq (h : Waits collect settles count n I enough ready) {s : σ}
    (hs : I s) {l : List α} (hl : l ≠ []) (hn : n = count s + l.length)
    (henough : ∀ a ∈ l, enough a = false)
    (hready : ∀ a ∈ l, ready a = true) : done collect settles s l = [l.foldl collect s] := by
  induction l generalizing s with
  | nil => exact absurd rfl hl
  | cons a l ih =>
    rw [List.forall_mem_cons] at henough hready
    have hset := h.settles_eq hs a
    rw [henough.1, hready.1, Bool.false_or, Bool.and_true] at hset
    unfold done
    dsimp only
    rw [hset]
    cases l with
    | nil =>
      rw [decide_eq_true (by rw [hn]; exact Nat.le_refl _ : n ≤ count s + 1)]
      rfl
    | cons b l =>
      have hmore : ¬ n ≤ count s + 1 := by
        rw [hn, List.length_cons, List.length_cons]
        omega
      rw [decide_eq_false hmore]
      refine ih (h.keeps hs a) (List.cons_ne_nil b l) ?_ henough.2 hready.2
      rw [List.length_cons] at hn
      rw [h.counts, hn]
      omega

/-- When a handler is done once: it waits for all that come, none but the last is enough by itself,
and the last one lets it be done; or it waits for more, and one is enough by itself; or it waits for
less, and only one of those from then on lets it be done. -/
def Once (n : Nat) (enough ready : α → Bool) (l : List α) : Prop :=
  (max n 1 = l.length ∧ (∀ a ∈ l.dropLast, enough a = false) ∧ ∀ a ∈ l.getLast?, ready a = true) ∨
    (l.length < n ∧ l.countP enough = 1) ∨
    (max n 1 < l.length ∧ (l.drop (n - 1)).countP ready = 1)

/-- `hready`: a handler for which something is enough by itself can always be done. -/
theorem once_iff {l : List α} (hready : (∀ a ∈ l, enough a = false) ∨ ∀ a ∈ l, ready a = true) :
    (l.take (n - 1)).countP enough + (l.drop (n - 1)).countP (fun a => enough a || ready a) = 1 ↔
      Once n enough ready l := by
  have hor : (l.drop (n - 1)).countP (fun a => enough a || ready a) =
      (l.drop (n - 1)).countP ready := by
    refine List.countP_congr fun a ha => ?_
    obtain h | h := hready <;> simp [h a (List.mem_of_mem_drop ha)]
  rw [hor]
  unfold Once
  obtain hless | hall | hmore := Nat.lt_trichotomy (max n 1) l.length
  · rw [or_iff_right fun h => by omega, or_iff_right fun h => by omega, and_iff_right hless]
    obtain h | h := hready
    · rw [List.countP_eq_zero.mpr fun a ha => by simp [h a (List.mem_of_mem_take ha)], Nat.zero_add]
    · -- Two calls or more come when the handler can be done.
      rw [List.countP_eq_length.mpr fun a ha => h a (List.mem_of_mem_drop ha), List.length_drop]
      omega
  · have hl : l ≠ [] := by
      rintro rfl
      simp at hall
    obtain ⟨init, last, rfl⟩ := (List.eq_nil_or_concat l).resolve_left hl
    rw [List.concat_eq_append] at hready hall ⊢
    rw [List.length_append, List.length_singleton] at hall
    have hn : n - 1 = init.length := by omega
    rw [or_iff_left fun h => by simp at h; omega]
    simp only [hn, List.take_left', List.drop_left', List.dropLast_concat, List.getLast?_concat,
      List.length_append, List.length_singleton, hall, Option.mem_some_iff, forall_eq', true_and]
    obtain h | h := hready
    · have hinit : ∀ a ∈ init, enough a = false := fun a ha => h a (List.mem_append_left _ ha)
      have hnone : init.countP enough = 0 :=
        List.countP_eq_zero.mpr fun a ha => by simp [hinit a ha]
      rw [and_iff_right hinit, hnone]
      simp
    · simp [h last (by simp), List.countP_eq_zero]
  · obtain rfl | hn : l = [] ∨ l.length < n := by
      rw [← List.length_eq_zero_iff]
      omega
    · simp
    rw [or_iff_right fun h => by omega, or_iff_left fun h => by omega, and_iff_right hn,
      List.take_of_length_le (by omega), List.drop_of_length_le (by omega), List.countP_nil,
        Nat.add_zero]

end Countdown
