import Mathlib.Tactic.Common

/-!
# Loops

A loop is given by its body `next`, which gives the next state, or nothing when the loop ends.

* `Rounds.inv`: what a round keeps holds in every state that the loop reaches.
* `Rounds.split`: the loop after some of its rounds.
* `exists_rounds`: a loop that goes on wherever an invariant holds does not end.
* `exists_end`: a loop whose rounds make a measure smaller ends, within as many rounds.
-/

namespace Loop

universe u

variable {σ : Type u} {next : σ → Option σ} {m n : Nat} {s t u : σ}

/-- The loop gets from `s` to `t` in `n` rounds. -/
inductive Rounds (next : σ → Option σ) : Nat → σ → σ → Prop where
  | zero (s : σ) : Rounds next 0 s s
  | succ {n : Nat} {s t u : σ} : next s = some t → Rounds next n t u → Rounds next (n + 1) s u

theorem Rounds.inv {I : σ → Prop} (hstep : ∀ s t, I s → next s = some t → I t)
    (h : Rounds next n s t)
    (hs : I s) : I t := by
  induction h with
  | zero s => exact hs
  | succ hnext _ ih => exact ih (hstep _ _ hs hnext)

/-- The first rounds and the others. -/
theorem Rounds.split (h : Rounds next (m + n) s u) : ∃ t, Rounds next m s t ∧
    Rounds next n t u := by
  induction m generalizing s with
  | zero => exact ⟨s, .zero s, by rwa [Nat.zero_add] at h⟩
  | succ m ih =>
    rw [Nat.succ_add] at h
    cases h with
    | succ hnext hrounds =>
      obtain ⟨t, hfirst, hothers⟩ := ih hrounds
      exact ⟨t, .succ hnext hfirst, hothers⟩

/-- A loop that goes on as long as an invariant holds, which it keeps, makes any number of
rounds. -/
theorem exists_rounds {I : σ → Prop} (hnext : ∀ s, I s → ∃ t, next s = some t ∧ I t) (n : Nat)
    (s : σ) (hs : I s) :
    ∃ t, Rounds next n s t ∧ I t := by
  induction n generalizing s with
  | zero => exact ⟨s, .zero s, hs⟩
  | succ n ih =>
    obtain ⟨t, ht, hI⟩ := hnext s hs
    obtain ⟨u, hrounds, hu⟩ := ih t hI
    exact ⟨u, .succ ht hrounds, hu⟩

/-- A measure that gets smaller in every round bounds the number of rounds. -/
theorem exists_end (μ : σ → Nat) (hμ : ∀ s t, next s = some t → μ t < μ s) (s : σ) :
    ∃ n t, n ≤ μ s ∧ Rounds next n s t ∧ next t = none := by
  induction h : μ s using Nat.strongRecOn generalizing s with
  | _ k ih =>
    cases hnext : next s with
    | none => exact ⟨0, s, Nat.zero_le _, .zero s, hnext⟩
    | some t =>
      have hlt := hμ s t hnext
      obtain ⟨n, u, hn, hrounds, hend⟩ := ih (μ t) (h ▸ hlt) t rfl
      exact ⟨n + 1, u, by omega, .succ hnext hrounds, hend⟩

end Loop
