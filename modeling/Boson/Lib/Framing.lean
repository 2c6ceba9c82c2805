import Mathlib.Data.List.Basic

/-!
# Frames in a stream

The frames of a stream stand one after the other, and the beginning of a frame tells its size.
`deframe` takes the complete frames off a stream and gives the rest.

* `deframe_frames`: frames with an incomplete rest after them are taken apart as they were.
* `deframe_append`: the rest of a part of the stream is all that has to be kept of it, so it does
  not matter where a stream is cut.
-/

/-- A way to tell the size of the frame that a stream begins with. -/
structure Framing (β : Type*) where
  /-- The size of the first frame, once it is known. -/
  size : List β → Option Nat
  size_append : ∀ {x n}, size x = some n → ∀ y, size (x ++ y) = some n
  size_pos : ∀ {x n}, size x = some n → 0 < n

namespace Framing

variable {β : Type*} {F : Framing β} {x y f r tail : List β} {frames : List (List β)}

/-- The first frame and what comes after it, if it is complete. -/
def cut (F : Framing β) (x : List β) : Option (List β × List β) :=
  match F.size x with
  | none => none
  | some n => if n ≤ x.length then some (x.take n, x.drop n) else none

theorem cut_eq_some_iff :
    F.cut x = some (f, r) ↔ ∃ n, F.size x = some n ∧ n ≤ x.length ∧ f = x.take n ∧
      r = x.drop n := by
  unfold cut
  cases hsize : F.size x with
  | none => simp
  | some n =>
    by_cases hn : n ≤ x.length
    · simp [hn, eq_comm]
    · simp [hn]

theorem cut_eq_none_iff : F.cut x = none ↔ ∀ n, F.size x = some n → x.length < n := by
  unfold cut
  cases hsize : F.size x with
  | none => simp
  | some n =>
    by_cases hn : n ≤ x.length
    · simp [hn]
    · simp [hn, Nat.lt_of_not_le hn]

theorem length_of_cut (h : F.cut x = some (f, r)) : r.length < x.length := by
  obtain ⟨n, hsize, hn, -, rfl⟩ := cut_eq_some_iff.mp h
  have hpos := F.size_pos hsize
  rw [List.length_drop]
  omega

theorem cut_append (h : F.cut x = some (f, r)) (y : List β) : F.cut (x ++ y) =
    some (f, r ++ y) := by
  obtain ⟨n, hsize, hn, rfl, rfl⟩ := cut_eq_some_iff.mp h
  refine cut_eq_some_iff.mpr ⟨n, F.size_append hsize y, ?_, ?_, ?_⟩
  · rw [List.length_append]
    omega
  · rw [List.take_append_of_le_length hn]
  · rw [List.drop_append_of_le_length hn]

/-- The complete frames of a stream, and the rest. -/
def deframe (F : Framing β) (x : List β) : List (List β) × List β :=
  match h : F.cut x with
  | none => ([], x)
  | some (f, r) =>
    have := length_of_cut h
    let d := F.deframe r
    (f :: d.1, d.2)
termination_by x.length

theorem deframe_of_none (h : F.cut x = none) : F.deframe x = ([], x) := by
  rw [deframe]
  split
  · rfl
  · next heq =>
    rw [h] at heq
    cases heq

theorem deframe_of_some (h : F.cut x = some (f, r)) :
    F.deframe x = (f :: (F.deframe r).1, (F.deframe r).2) := by
  rw [deframe]
  split
  · next heq =>
    rw [h] at heq
    cases heq
  · next heq =>
    rw [h] at heq
    cases heq
    rfl

/-- A whole frame. -/
def IsFrame (F : Framing β) (f : List β) : Prop := F.size f = some f.length

theorem IsFrame.cut (h : F.IsFrame f) (r : List β) : F.cut (f ++ r) = some (f, r) := by
  refine cut_eq_some_iff.mpr ⟨f.length, F.size_append h r, ?_, ?_, ?_⟩
  · rw [List.length_append]
    omega
  · rw [List.take_left]
  · rw [List.drop_left]

/-- Frames with an incomplete rest after them are taken apart as they were. -/
theorem deframe_frames (hframes : ∀ f ∈ frames, F.IsFrame f) (htail : F.cut tail = none) :
    F.deframe (frames.flatten ++ tail) = (frames, tail) := by
  induction frames with
  | nil => exact deframe_of_none htail
  | cons f frames ih =>
    rw [List.forall_mem_cons] at hframes
    rw [List.flatten_cons, List.append_assoc, deframe_of_some (hframes.1.cut _), ih hframes.2]

/-- The rest has no complete frame. -/
theorem cut_deframe_snd (F : Framing β) (x : List β) : F.cut (F.deframe x).2 = none := by
  induction hn : x.length using Nat.strongRecOn generalizing x with
  | _ n ih =>
    cases h : F.cut x with
    | none => rw [deframe_of_none h, h]
    | some p =>
      obtain ⟨f, r⟩ := p
      rw [deframe_of_some h]
      exact ih r.length (hn ▸ length_of_cut h) r rfl

/-- The frames of a longer stream are those of its first part, and those of the rest of that with
what comes after. -/
theorem deframe_append (x y : List β) :
    F.deframe (x ++ y) =
      ((F.deframe x).1 ++ (F.deframe ((F.deframe x).2 ++ y)).1,
        (F.deframe ((F.deframe x).2 ++ y)).2) := by
  induction hn : x.length using Nat.strongRecOn generalizing x with
  | _ n ih =>
    cases h : F.cut x with
    | none =>
      rw [deframe_of_none h]
      rfl
    | some p =>
      obtain ⟨f, r⟩ := p
      rw [deframe_of_some h, deframe_of_some (cut_append h y),
        ih r.length (hn ▸ length_of_cut h) r rfl]
      rfl

end Framing
