import Mathlib.Data.List.Induction
import Mathlib.Order.Basic
import Mathlib.Order.Nat

/-!
# Stamps that are rotated lazily

Somebody keeps a current stamp and the one before it. Nothing runs in the background: when the
stamps are used at a time `now`, and the current one is older than `d`, then `now` becomes the
current one.

* `run_cases`: how often a stamp is rotated away over a sequence of uses, and by which of them.
* `held_iff`: when a stamp that was current is still one of the two.
-/

namespace Rotation

/-- The current stamp and the one before. -/
structure Stamps where
  current : Nat
  previous : Nat

variable {d : Nat} {s : Stamps} {times : List Nat}

/-- The stamps are used at a time. -/
def Stamps.use (d : Nat) (s : Stamps) (now : Nat) : Stamps :=
  if d < now - s.current then ⟨now, s.current⟩ else s

/-- The stamps are used at several times. -/
def Stamps.run (d : Nat) (s : Stamps) (times : List Nat) : Stamps := times.foldl (Stamps.use d) s

/-- A stamp is one of the two. -/
def Stamps.Holds (s : Stamps) (stamp : Nat) : Prop := stamp = s.current ∨ stamp = s.previous

@[simp] theorem run_nil : s.run d [] = s := rfl

@[simp] theorem run_concat (now : Nat) : s.run d (times ++ [now]) = (s.run d times).use d now := by
  simp [Stamps.run]

/-- A current stamp is never rotated away, or by one use (which is then current), or by two of
them. -/
theorem run_cases (hclock : times.Pairwise (· ≤ ·)) :
    (s.run d times = s ∧ ∀ r ∈ times, r ≤ s.current + d) ∨
    (∃ r ∈ times, s.run d times = ⟨r, s.current⟩ ∧ s.current + d < r ∧
      ∀ r' ∈ times, (s.current + d < r' → r ≤ r') ∧ r' ≤ r + d) ∨
    (s.current < (s.run d times).current ∧ s.current < (s.run d times).previous ∧
      ∃ r ∈ times, ∃ r' ∈ times, s.current + d < r ∧ r + d < r') := by
  -- the uses are taken from the first to the last
  induction times using List.reverseRecOn with
  | nil => exact .inl ⟨rfl, by simp⟩
  | append_singleton times now ih =>
    obtain ⟨hclock, -, hlast⟩ := List.pairwise_append.mp hclock
    have hlast : ∀ r ∈ times, r ≤ now := fun r hr => hlast r hr now (by simp)
    rw [run_concat, Stamps.use]
    obtain ⟨heq, hold⟩ | ⟨r, hr, heq, hlate, hsoon⟩ | ⟨hcur, hprev, r, hr, r', hr', h, h'⟩ :=
      ih hclock
    · rw [heq]
      split_ifs with hnow
      · refine .inr (.inl ⟨now, by simp, rfl, by omega, ?_⟩)
        intro r' hr'
        obtain hr' | hr' := List.mem_append.mp hr'
        · have := hold r' hr'
          have := hlast r' hr'
          omega
        · rw [List.mem_singleton.mp hr']
          omega
      · refine .inl ⟨rfl, ?_⟩
        intro r' hr'
        obtain hr' | hr' := List.mem_append.mp hr'
        · exact hold r' hr'
        · rw [List.mem_singleton.mp hr']
          omega
    · rw [heq]
      split_ifs with hnow
      · dsimp only at hnow ⊢
        exact .inr (.inr ⟨by omega, by omega, r, by simp [hr], now, by simp, hlate, by omega⟩)
      · dsimp only at hnow
        refine .inr (.inl ⟨r, by simp [hr], rfl, hlate, ?_⟩)
        intro r' hr'
        obtain hr' | hr' := List.mem_append.mp hr'
        · exact hsoon r' hr'
        · have := hlast r hr
          rw [List.mem_singleton.mp hr']
          omega
    · have hmem : ∃ r ∈ times ++ [now], ∃ r' ∈ times ++ [now], s.current + d < r ∧ r + d < r' :=
        ⟨r, by simp [hr], r', by simp [hr'], h, h'⟩
      split_ifs with hnow
      · exact .inr (.inr ⟨by dsimp only; omega, hcur, hmem⟩)
      · exact .inr (.inr ⟨hcur, hprev, hmem⟩)

/-- A stamp that was current is still one of the two exactly if no use came late enough to rotate it
away and early enough to be rotated away itself. -/
theorem held_iff {last : Nat} (hclock : (times ++ [last]).Pairwise (· ≤ ·)) :
    (s.run d (times ++ [last])).Holds s.current ↔
      ¬ ∃ r ∈ times, s.current + d < r ∧ r + d < last := by
  have hlast : ∀ r ∈ times ++ [last], r ≤ last := by
    intro r hr
    obtain hr | hr := List.mem_append.mp hr
    · exact (List.pairwise_append.mp hclock).2.2 r hr last (by simp)
    · exact (List.mem_singleton.mp hr).le
  obtain ⟨heq, hold⟩ | ⟨r, hr, heq, hlate, hsoon⟩ | ⟨hcur, hprev, r, hr, r', hr', h, h'⟩ :=
    run_cases (d := d) (s := s) hclock
  · rw [heq]
    refine iff_of_true (.inl rfl) ?_
    rintro ⟨r, hr, h, -⟩
    have := hold r (by simp [hr])
    omega
  · rw [heq]
    refine iff_of_true (.inr rfl) ?_
    rintro ⟨r', hr', h, h'⟩
    have hfirst := (hsoon r' (by simp [hr'])).1 h
    have := (hsoon last (by simp)).2
    omega
  · refine iff_of_false ?_ (not_not.mpr ⟨r, ?_, h, ?_⟩)
    · rintro (heq | heq) <;> omega
    · obtain hr | hr := List.mem_append.mp hr
      · exact hr
      · have := hlast r' hr'
        rw [List.mem_singleton.mp hr] at h'
        omega
    · exact lt_of_lt_of_le h' (hlast r' hr')

end Rotation
