import Boson.Lib.Loop
import Boson.Lib.Runs
import Boson.Scheduler

/-!
# Cancelled jobs (`Scheduler::Job::cancel`)

`edit` moves the function of a periodic job to a new job, which nobody but the scheduler has. So
what `add` returned is stale as soon as the job has run once: `cancel` clears an object that has no
function any more.

* `cancelled_silent`: if no job is cancelled through a stale handle, the function of a cancelled job
  is not called again.
* `stale_pending`: a job that is cancelled through a stale handle is still pending.
* `not_silent_staleEvents`: its function is called again.
-/

namespace Boson

open Runs Loop

namespace Scheduler

/-- After a job is cancelled its function is not called. -/
def Silent (log : List Entry) : Prop :=
  Every (fun before e => ∀ time j function, e = .ran time j function →
    ∀ i, .cancelled function i ∉ before) log

/-- The function that came with a call of `add` is in no other job than the one that the call
returned. -/
def Current (s : Scheduler) (handle : Nat) : Prop :=
  ∀ j, (s.job j).do_ = some handle → s.handles[handle]? = some j

variable {code : Code} {s t : Scheduler} {j function handle n : Nat}

/-- A call of `run` is a sequence of steps. -/
theorem exists_steps (h : Rounds (round code) n s t) : ∃ events, t = s.steps events := by
  induction h with
  | zero s => exact ⟨[], rfl⟩
  | @succ n s t u hround _ ih =>
    obtain ⟨timer, -, rfl⟩ := Option.map_eq_some_iff.mp hround
    obtain ⟨events, rfl⟩ := ih
    exact ⟨_, (steps_append _ events).symm⟩

/-- Where the functions are: those that came with a call of `add`, and of the cancelled ones
none. -/
structure Quiet (s : Scheduler) : Prop where
  known : ∀ j function, (s.job j).do_ = some function → function < s.handles.length
  added : ∀ handle i, .cancelled handle i ∈ s.log → handle < s.handles.length
  gone : ∀ handle i, .cancelled handle i ∈ s.log → ∀ j, (s.job j).do_ ≠ some handle
  silent : Silent s.log

namespace Quiet

theorem init (clock : Clock) : (Scheduler.init clock).Quiet where
  known := by simp [Scheduler.init, Scheduler.job, Job.cancelled]
  added := by simp [Scheduler.init]
  gone := by simp [Scheduler.init]
  silent := every_nil

/-- Functions that are there afterwards were there before. -/
theorem of_functions (h : s.Quiet) (hlog : t.log = s.log) (hhandles : t.handles = s.handles)
    (hjobs : ∀ j function, (t.job j).do_ = some function → ∃ i, (s.job i).do_ = some function) :
    t.Quiet := by
  refine ⟨fun j function hj => ?_, hlog ▸ hhandles ▸ h.added, fun handle i hi j hj => ?_,
    hlog ▸ h.silent⟩
  · obtain ⟨i, hi⟩ := hjobs j function hj
    rw [hhandles]
    exact h.known i function hi
  · obtain ⟨k, hk⟩ := hjobs j handle hj
    rw [hlog] at hi
    exact h.gone handle i hi k hk

/-- A function that is moved is in one job as before. -/
theorem finish (h : s.Quiet) : s.finish.Quiet := by
  cases hrun : s.running with
  | none =>
    rw [Scheduler.finish, hrun]
    exact h
  | some j =>
    have hsame : (s.reschedule j).log = s.log ∧ (s.reschedule j).handles = s.handles := by
      unfold reschedule
      dsimp only
      split_ifs <;> exact ⟨rfl, rfl⟩
    refine h.of_functions ?_ ?_ fun i function hi => ?_
    · rw [finish_eq hrun, hsame.1]
    · rw [finish_eq hrun, hsame.2]
    · rw [job_finish hrun, reschedule] at hi
      split_ifs at hi
      · rw [job_edit] at hi
        split_ifs at hi
        · exact ⟨j, hi⟩
        · cases hi
        · exact ⟨i, hi⟩
      · exact ⟨i, hi⟩

/-- The function that is called was not cancelled. -/
theorem begin (h : s.Quiet) : s.begin.Quiet := by
  cases hrun : s.running with
  | some j =>
    rw [Scheduler.begin, hrun]
    exact h
  | none =>
    cases hdue : s.due? with
    | none =>
      rw [Scheduler.begin, hrun, hdue]
      exact h
    | some timer =>
      rw [begin_eq hrun hdue]
      cases hdo : (s.job timer.2).do_ with
      | none => exact h.of_functions (by simp) rfl fun j function hj => ⟨j, hj⟩
      | some function =>
        have hold (handle i : Nat)
            (hi : .cancelled handle i ∈ s.log ++ [.ran timer.1 timer.2 function]) :
            Entry.cancelled handle i ∈ s.log := by
          obtain hi | hi := List.mem_append.mp hi
          · exact hi
          · cases List.mem_singleton.mp hi
        refine ⟨h.known, fun handle i hi => h.added handle i (hold handle i hi),
          fun handle i hi => h.gone handle i (hold handle i hi), every_concat.mpr ⟨h.silent, ?_⟩⟩
        intro time j called heq i hi
        cases heq
        exact h.gone function i hi timer.2 hdo

/-- If the function is where the handle says, it is gone after `cancel`. -/
theorem cancel (h : s.Quiet) (hcurrent : s.Current handle) : (s.cancelHandle handle).Quiet := by
  unfold cancelHandle
  cases hhandle : s.handles[handle]? with
  | none => exact h
  | some j =>
    have hlt : handle < s.handles.length := (List.getElem?_eq_some_iff.mp hhandle).1
    have hjob {k function : Nat} (hk : ((s.cancel j).job k).do_ = some function) :
        k ≠ j ∧ (s.job k).do_ = some function := by
      rw [job_cancel] at hk
      split_ifs at hk with heq
      · cases hk
      · exact ⟨heq, hk⟩
    refine ⟨fun k function hk => h.known k function (hjob hk).2, fun other i hi => ?_,
      fun other i hi k hk => ?_,
      every_concat.mpr ⟨h.silent, fun time i function heq => by cases heq⟩⟩
    · obtain hi | hi := List.mem_append.mp hi
      · exact h.added other i hi
      · cases List.mem_singleton.mp hi
        exact hlt
    · obtain ⟨hne, hk⟩ := hjob hk
      obtain hi | hi := List.mem_append.mp hi
      · exact h.gone other i hi k hk
      · cases List.mem_singleton.mp hi
        exact hne (Option.some.inj ((hcurrent k hk).symm.trans hhandle))

/-- The function of a new job is a new one. -/
theorem add (h : s.Quiet) (delay fixedDelay : Int64) : (s.act (.add delay fixedDelay)).Quiet := by
  have hjob {k function : Nat} (hk : ((s.act (.add delay fixedDelay)).job k).do_ = some function) :
      function = s.handles.length ∨ (s.job k).do_ = some function := by
    have hk : ((s.add (some s.handles.length) delay fixedDelay).job k).do_ = some function := hk
    rw [job_add] at hk
    split_ifs at hk
    · exact .inl (Option.some.inj hk).symm
    · exact .inr hk
  have hlength : (s.act (.add delay fixedDelay)).handles.length = s.handles.length + 1 :=
    List.length_append
  refine ⟨fun k function hk => ?_, fun handle i hi => ?_, fun handle i hi k hk => ?_, h.silent⟩
  · rw [hlength]
    obtain rfl | hk := hjob hk
    · exact Nat.lt_succ_self _
    · exact Nat.lt_succ_of_lt (h.known k function hk)
  · rw [hlength]
    exact Nat.lt_succ_of_lt (h.added handle i hi)
  · obtain rfl | hk := hjob hk
    · exact absurd (h.added _ i hi) (lt_irrefl _)
    · exact h.gone handle i hi k hk

theorem step (h : s.Quiet) {e : Event}
    (he : ∀ handle, e = .act (.cancel handle) → s.Current handle) :
    (s.step e).Quiet := by
  cases e with
  | syncTime => exact h.of_functions rfl rfl fun j function hj => ⟨j, hj⟩
  | act a =>
    cases a with
    | add delay fixedDelay => exact h.add delay fixedDelay
    | cancel handle => exact h.cancel (he handle rfl)
    | wait time => exact h.of_functions rfl rfl fun j function hj => ⟨j, hj⟩
  | begin => exact h.begin
  | finish => exact h.finish

end Quiet

/-- In a run in which jobs are cancelled only while their functions are where the handles say, no
function is called after its job was cancelled. -/
theorem cancelled_silent (clock : Clock) (events : List Event)
    (h : Every (fun before e => ∀ handle, e = .act (.cancel handle) →
      ((init clock).steps before).Current handle)
      events) : Silent ((init clock).steps events).log := by
  have hquiet : ((init clock).steps events).Quiet := by
    refine h.inv (I := fun events => ((init clock).steps events).Quiet)
      (.init clock) fun before e hbefore he => ?_
    rw [steps_append]
    exact hbefore.step he
  exact hquiet.silent

/-- A periodic job that is cancelled before its first call. -/
theorem cancelled_silent_fresh : Silent ((init 0).steps ([] ++ [Event.act (.add 1000 1000)] ++
    [Event.act (.cancel 0)] ++ [Event.act (.wait 1000)] ++ [Event.syncTime] ++
    [Event.begin])).log := by
  refine cancelled_silent 0 _ ?_
  simp only [every_concat, every_nil, true_and]
  refine ⟨⟨⟨⟨(fun handle h => by cases h), fun handle h j hj => ?_⟩, (fun handle h => by cases h)⟩,
    (fun handle h => by cases h)⟩, (fun handle h => by cases h)⟩
  cases h
  cases j with
  | zero => rfl
  | succ j => cases hj

/-! ## Stale handles -/

/-- A function that was moved is in a periodic job that is pending. -/
structure Moved (s : Scheduler) : Prop where
  known : ∀ j function, (s.job j).do_ = some function → function < s.handles.length
  pending : ∀ j function, (s.job j).do_ = some function → s.handles[function]? ≠ some j →
    0 < (s.job j).fixedDelay.toInt ∧ ∃ time, (time, j) ∈ s.timers.entries

namespace Moved

theorem init (clock : Clock) : (Scheduler.init clock).Moved where
  known := by simp [Scheduler.init, Scheduler.job, Job.cancelled]
  pending := by simp [Scheduler.init, Scheduler.job, Job.cancelled]

/-- Jobs that are as they were, or have lost their function. -/
theorem of_jobs (h : s.Moved) (hhandles : t.handles = s.handles) (htimers : t.timers = s.timers)
    (hjobs : ∀ j, t.job j = s.job j ∨ (t.job j).do_ = none) : t.Moved := by
  have hsame {j function : Nat} (hj : (t.job j).do_ = some function) : t.job j = s.job j := by
    obtain heq | hnone := hjobs j
    · exact heq
    · simp [hnone] at hj
  refine ⟨fun j function hj => ?_, fun j function hj hne => ?_⟩
  · rw [hhandles]
    exact h.known j function (by rw [← hsame hj, hj])
  · have heq := hsame hj
    rw [heq] at hj ⊢
    rw [hhandles] at hne
    rw [htimers]
    exact h.pending j function hj hne

theorem cancel (h : s.Moved) (handle : Nat) : (s.cancelHandle handle).Moved := by
  unfold cancelHandle
  split
  case h_1 j _ =>
    refine h.of_jobs rfl rfl fun k => ?_
    change (s.cancel j).job k = _ ∨ ((s.cancel j).job k).do_ = none
    rw [job_cancel]
    split_ifs
    · exact .inr rfl
    · exact .inl rfl
  case h_2 => exact h

theorem add (h : s.Moved) (delay fixedDelay : Int64) : (s.act (.add delay fixedDelay)).Moved := by
  have hjob (k : Nat) : (s.act (.add delay fixedDelay)).job k =
      if k = s.jobs.length then ⟨some s.handles.length, fixedDelay⟩ else s.job k :=
    job_add (some s.handles.length) delay fixedDelay
  have hhandles : (s.act (.add delay fixedDelay)).handles = s.handles ++ [s.jobs.length] := rfl
  refine ⟨fun k function hk => ?_, fun k function hk hne => ?_⟩
  · rw [hjob] at hk
    rw [hhandles, List.length_append]
    split_ifs at hk
    · cases hk
      exact Nat.lt_succ_self _
    · exact Nat.lt_succ_of_lt (h.known k function hk)
  · rw [hjob] at hk ⊢
    rw [hhandles] at hne
    split_ifs at hk ⊢ with heq
    · cases hk
      simp [heq] at hne
    · rw [List.getElem?_append_left (h.known k function hk)] at hne
      obtain ⟨hpos, time, hmem⟩ := h.pending k function hk hne
      have hadd : (time, k) ∈ (s.add (some s.handles.length) delay fixedDelay).timers.entries :=
        mem_timers_of_mem hmem
      exact ⟨hpos, time, hadd⟩

/-- A job is rescheduled with a timer of its own; one that is not rescheduled was never moved. -/
theorem finish (h : s.Moved) : s.finish.Moved := by
  cases hrun : s.running with
  | none =>
    rw [Scheduler.finish, hrun]
    exact h
  | some j =>
    have hmem (timer : Nat × Nat) :
        timer ∈ s.finish.timers.entries ↔
          timer ∈ (s.reschedule j).timers.entries ∧ timer.2 ≠ j := by
      rw [finish_eq hrun]
      simp
    by_cases hpos : 0 < (s.job j).fixedDelay.toInt
    · have hlt : j < s.jobs.length := by
        by_contra hge
        have hnone : s.job j = .cancelled := by
          rw [job, List.getD_eq_getElem?_getD, List.getElem?_eq_none_iff.mpr (not_lt.mp hge)]
          rfl
        rw [hnone] at hpos
        exact absurd hpos (by decide)
      have hr : s.reschedule j = s.edit j (s.job j).fixedDelay (s.job j).fixedDelay := by
        rw [reschedule, if_pos hpos]
      have hhandles : s.finish.handles = s.handles := by rw [finish_eq hrun, hr]; rfl
      have hjob (k : Nat) : s.finish.job k = if k = s.jobs.length then s.job j
          else if k = j then .cancelled else s.job k := by rw [job_finish hrun, hr, job_edit]
      refine ⟨fun k function hk => ?_, fun k function hk hne => ?_⟩
      · rw [hjob] at hk
        rw [hhandles]
        split_ifs at hk
        · exact h.known j function hk
        · cases hk
        · exact h.known k function hk
      · rw [hjob] at hk ⊢
        rw [hhandles] at hne
        split_ifs at hk ⊢ with hnew hold
        · exact ⟨hpos, _, by rw [hnew]; exact (finish_periodic hrun hlt hpos).1⟩
        · cases hk
        · obtain ⟨hdelay, time, htimer⟩ := h.pending k function hk hne
          exact ⟨hdelay, time, (hmem _).mpr ⟨by rw [hr]; exact mem_timers_of_mem htimer, hold⟩⟩
    · have hr : s.reschedule j = s := by rw [reschedule, if_neg hpos]
      have hhandles : s.finish.handles = s.handles := by rw [finish_eq hrun, hr]
      refine ⟨fun k function hk => ?_, fun k function hk hne => ?_⟩
      · rw [job_finish hrun, hr] at hk
        rw [hhandles]
        exact h.known k function hk
      · rw [job_finish hrun, hr] at hk ⊢
        rw [hhandles] at hne
        obtain ⟨hdelay, time, htimer⟩ := h.pending k function hk hne
        exact ⟨hdelay, time, (hmem _).mpr ⟨by rwa [hr], fun heq => hpos (heq ▸ hdelay)⟩⟩

theorem begin (h : s.Moved) : s.begin.Moved := by
  refine h.of_jobs ?_ ?_ fun j => .inl ?_
  all_goals
    unfold Scheduler.begin
    split <;> rfl

theorem step (h : s.Moved) (e : Event) : (s.step e).Moved := by
  cases e with
  | syncTime => exact h.of_jobs rfl rfl fun _ => .inl rfl
  | act a =>
    cases a with
    | add delay fixedDelay => exact h.add delay fixedDelay
    | cancel handle => exact h.cancel handle
    | wait time => exact h.of_jobs rfl rfl fun _ => .inl rfl
  | begin => exact h.begin
  | finish => exact h.finish

theorem steps (h : s.Moved) (events : List Event) : (s.steps events).Moved := by
  induction events generalizing s with
  | nil => exact h
  | cons e events ih => exact ih (h.step e)

end Moved

/-- In every run: the function of a stale handle is pending, and it still is after `cancel`. -/
theorem stale_pending (clock : Clock) (events : List Event)
    (h : ¬ ((init clock).steps events).Current handle) :
    ∃ j time, ((((init clock).steps events).cancelHandle handle).job j).do_ = some handle ∧
      (time, j) ∈ (((init clock).steps events).cancelHandle handle).timers.entries := by
  have hmoved := (Moved.init clock).steps events
  generalize (init clock).steps events = s at h hmoved ⊢
  simp only [Current, not_forall] at h
  obtain ⟨j, hj, hne⟩ := h
  obtain ⟨-, time, htimer⟩ := hmoved.pending j handle hj hne
  unfold cancelHandle
  cases hhandle : s.handles[handle]? with
  | none => exact ⟨j, time, hj, htimer⟩
  | some i =>
    have hkept : (s.cancel i).job j = s.job j := by
      have hji : j ≠ i := fun heq => hne (heq ▸ hhandle)
      rw [job_cancel, if_neg hji]
    exact ⟨j, time, (congrArg Job.do_ hkept).trans hj, htimer⟩

/-- A periodic job, cancelled after its first call. -/
def staleEvents : List Event :=
  [.act (.add 1000 1000), .act (.wait 1000), .syncTime, .begin, .finish, .act (.cancel 0),
    .act (.wait 2000), .syncTime, .begin]

/-- The job of `staleEvents` is called again. -/
theorem not_silent_staleEvents : ¬ Silent ((init 0).steps staleEvents).log := by
  have hlog : ((init 0).steps staleEvents).log =
      [.ran 1000 0 0, .cancelled 0 0, .ran 2000 1 0] := by decide
  rw [hlog]
  intro h
  exact h [.ran 1000 0 0, .cancelled 0 0] (.ran 2000 1 0) [] rfl 2000 1 0 rfl 0 (by simp)

end Scheduler

end Boson
