import Mathlib.Data.List.Induction

/-!
# The steps of a run

A run is given by the list of its events. A step of it is an event with the events that came before:
`events = pre ++ e :: post`. What holds at every step is shown from the first event to the last, and
what holds after the last one was brought about by one of them (`exists_step`).
-/

namespace Runs

universe u

variable {α : Type u} {P : List α → α → Prop}

/-- Something holds at every step of a run. -/
def Every (P : List α → α → Prop) (events : List α) : Prop :=
  ∀ pre e post, events = pre ++ e :: post → P pre e

@[simp] theorem every_nil : Every P [] := by
  intro pre e post h
  simp at h

/-- The last step is one more. -/
@[simp] theorem every_concat {events : List α} {e : α} :
    Every P (events ++ [e]) ↔ Every P events ∧ P events e := by
  constructor
  · intro h
    refine ⟨fun pre e' post heq => ?_, h events e [] rfl⟩
    exact h pre e' (post ++ [e]) (by rw [heq, List.append_assoc, List.cons_append])
  · rintro ⟨hevents, hlast⟩ pre e' post heq
    cases post using List.reverseRecOn with
    | nil =>
      obtain ⟨rfl, he⟩ := List.append_inj' heq rfl
      cases he
      exact hlast
    | append_singleton post z =>
      rw [← List.cons_append, ← List.append_assoc] at heq
      obtain ⟨heq, -⟩ := List.append_inj' heq rfl
      exact hevents pre e' post heq

theorem Every.of_initial {events events' : List α} (h : Every P events)
    (hinitial : events' <+: events) :
    Every P events' := by
  obtain ⟨rest, rfl⟩ := hinitial
  intro pre e post heq
  exact h pre e (post ++ rest) (by rw [heq, List.append_assoc, List.cons_append])

theorem every_singleton {e : α} : Every P [e] ↔ P [] e := by
  rw [← List.nil_append [e], every_concat, and_iff_right every_nil]

/-- What holds at the start and is kept by the steps of a run holds after it. -/
theorem Every.inv {I : List α → Prop} {events : List α} (h : Every P events) (hnil : I [])
    (hstep : ∀ pre e, I pre → P pre e → I (pre ++ [e])) : I events := by
  induction events using List.reverseRecOn with
  | nil => exact hnil
  | append_singleton pre e ih =>
    obtain ⟨hpre, he⟩ := every_concat.mp h
    exact hstep pre e (ih hpre) he

/-- What holds after a step exactly if it held before and the step is as it should be: it holds
after a run exactly if all steps are. -/
theorem iff_every {Q : List α → Prop} (hnil : Q [])
    (hstep : ∀ pre e, Q (pre ++ [e]) ↔ Q pre ∧ P pre e)
    (events : List α) : Q events ↔ Every P events := by
  induction events using List.reverseRecOn with
  | nil => exact iff_of_true hnil every_nil
  | append_singleton pre e ih => rw [hstep, ih, every_concat]

/-- What holds at the start holds in every state of a run if every step leads to such a state. -/
theorem forall_initial_iff {Q : List α → Prop} (hnil : Q []) (events : List α) :
    (∀ pre, pre <+: events → Q pre) ↔ Every (fun pre e => Q (pre ++ [e])) events := by
  constructor
  · rintro h pre e post rfl
    exact h (pre ++ [e]) ⟨post, by simp⟩
  · rintro h pre ⟨post, rfl⟩
    cases pre using List.reverseRecOn with
    | nil => exact hnil
    | append_singleton pre e => exact h pre e post (by simp)

/-- Two things that agree as long as an invariant holds, which one of them keeps, hold at every step
of the same runs. -/
theorem every_iff_of_inv {Q : List α → α → Prop} {I : List α → Prop} (hnil : I [])
    (hstep : ∀ pre e, I pre → P pre e → I (pre ++ [e]))
    (hiff : ∀ pre e, I pre → (P pre e ↔ Q pre e))
    (events : List α) : Every P events ↔ Every Q events := by
  induction events using List.reverseRecOn with
  | nil => exact iff_of_true every_nil every_nil
  | append_singleton pre e ih =>
    rw [every_concat, every_concat, ← ih]
    exact and_congr_right fun hP => hiff pre e (hP.inv hnil hstep)

/-- What some initial part of a run brought about was there before the last event, or the last event
brought it about. -/
theorem exists_initial_concat {Q : List α → Prop} {events : List α} {e : α}
    (h : ∃ pre, pre <+: events ++ [e] ∧ Q pre) : (∃ pre, pre <+: events ∧ Q pre) ∨
      Q (events ++ [e]) := by
  obtain ⟨pre, hpre, hQ⟩ := h
  obtain rfl | hpre := List.prefix_concat_iff.mp hpre
  · exact .inr hQ
  · exact .inl ⟨pre, hpre, hQ⟩

/-- What holds after a run and did not hold before is the work of a step. -/
theorem exists_step {Q : List α → Prop} (hnil : ¬ Q [])
    (hstep : ∀ pre e, Q (pre ++ [e]) → Q pre ∨ P pre e)
    {events : List α} (h : Q events) : ∃ pre e post, events = pre ++ e :: post ∧ P pre e := by
  induction events using List.reverseRecOn with
  | nil => exact absurd h hnil
  | append_singleton events e ih =>
    obtain hbefore | hlast := hstep events e h
    · obtain ⟨pre, e', post, rfl, hP⟩ := ih hbefore
      exact ⟨pre, e', post ++ [e], by rw [List.append_assoc, List.cons_append], hP⟩
    · exact ⟨events, e, [], rfl, hlast⟩

end Runs
