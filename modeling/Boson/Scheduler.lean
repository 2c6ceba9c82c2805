import Boson.Lib.Multimap
import Mathlib.Algebra.GroupWithZero.Nat
import Mathlib.Data.Fin.Basic
import Mathlib.Order.Fin.Basic

/-!
# The scheduler (`src/core/scheduler.h`)

Jobs are objects, known by their number; `timers` refers to them, and so does what `add` returns. A
node of `timers` is known by its job, as each job is in one node. What a function does is not known:
it may add jobs, cancel a job through what `add` returned for it, and take time. A function is known
by the number of the call of `add` that brought it.

`run` is a loop of three steps: it takes the first timer and calls its job (`begin`), the function
acts (`act`), and the job is rescheduled and its timer erased (`finish`). `step` has these and
`syncTime`, `round` is one round of the loop.
-/

namespace Boson

/-- What `currentTimeMillis` returns: the count of milliseconds is a signed 64-bit number before it
is converted. -/
abbrev Clock := Fin 0x8000000000000000

instance instNeZeroClock : NeZero 0x8000000000000000 := ⟨by decide⟩

/-- `std::numeric_limits<uint64_t>::max()`. -/
def UINT64_MAX : Nat := 0xffffffffffffffff

namespace Scheduler

/-- `Scheduler::Job`. -/
structure Job where
  do_ : Option Nat
  fixedDelay : Int64
  deriving DecidableEq

/-- `Job::cancel`. -/
def Job.cancelled : Job := ⟨none, 0⟩

/-- What is observed: a job calls its function, and a job is cancelled through what `add`
returned. -/
inductive Entry where
  | ran (time job function : Nat)
  | cancelled (handle job : Nat)
  deriving DecidableEq

/-- What a function does. -/
inductive Action where
  | add (delay fixedDelay : Int64)
  | cancel (handle : Nat)
  | wait (time : Clock)

/-- The steps of a scheduler. -/
inductive Event where
  | syncTime
  | act (a : Action)
  | begin
  | finish

end Scheduler

/-- `Scheduler`, with the clock, what its users have of it, and what happened. `running` is the job
that is called. -/
structure Scheduler where
  now : Nat
  timers : Multimap Nat Nat := .empty
  clock : Clock
  jobs : List Scheduler.Job := []
  handles : List Nat := []
  running : Option Nat := none
  log : List Scheduler.Entry := []

namespace Scheduler

/-- `Scheduler()`. -/
def init (clock : Clock) : Scheduler := { now := clock, clock := clock }

/-- The job with a number. -/
def job (self : Scheduler) (j : Nat) : Job := self.jobs.getD j .cancelled

/-- `currentTimeMillis() + delay`. -/
def dueTime (clock : Clock) (delay : Int64) : Nat :=
  ((clock.val + delay.toInt) % 0x10000000000000000).toNat

/-- `Scheduler::add`, for a new job. -/
def add (self : Scheduler) (do_ : Option Nat) (delay fixedDelay : Int64) : Scheduler :=
  let time := dueTime self.clock delay
  { self with
    jobs := self.jobs ++ [{ do_, fixedDelay }]
    timers := if time ≠ UINT64_MAX then self.timers.emplace time self.jobs.length else self.timers }

/-- `Job::cancel`, for the job with a number. -/
def cancel (self : Scheduler) (j : Nat) : Scheduler :=
  { self with jobs := self.jobs.set j .cancelled }

/-- `Scheduler::edit`: the function goes to a new job, and the old one is cancelled. -/
def edit (self : Scheduler) (j : Nat) (delay fixedDelay : Int64) : Scheduler :=
  let task := (self.job j).do_
  (self.cancel j).add task delay fixedDelay

/-- `Job::cancel`, through what `add` returned. -/
def cancelHandle (self : Scheduler) (handle : Nat) : Scheduler :=
  match self.handles[handle]? with
  | some j => { self.cancel j with log := self.log ++ [.cancelled handle j] }
  | none => self

/-- A user of the scheduler acts. -/
def act (self : Scheduler) : Action → Scheduler
  | .add delay fixedDelay =>
    { self.add (some self.handles.length) delay fixedDelay with handles := self.handles ++
      [self.jobs.length] }
  | .cancel handle => self.cancelHandle handle
  | .wait time => { self with clock := max self.clock time }

/-- The first timer, if it is due. -/
def due? (self : Scheduler) : Option (Nat × Nat) := self.timers.entries.head?.filter fun timer =>
    timer.1 ≤ self.now

/-- The loop of `Scheduler::run`, up to the call of the job. -/
def begin (self : Scheduler) : Scheduler :=
  match self.running, self.due? with
  | none, some (time, j) =>
    { self with
      running := some j
      log := self.log ++ ((self.job j).do_.map (.ran time j)).toList }
  | _, _ => self

/-- `if (job->fixedDelay > 0) edit(job, job->fixedDelay, job->fixedDelay)`. -/
def reschedule (self : Scheduler) (j : Nat) : Scheduler :=
  let delay := (self.job j).fixedDelay
  if 0 < delay.toInt then self.edit j delay delay else self

/-- The loop of `Scheduler::run`, after the call of the job. -/
def finish (self : Scheduler) : Scheduler :=
  match self.running with
  | some j =>
    let rescheduled := self.reschedule j
    { rescheduled with
      timers := rescheduled.timers.erase fun timer => timer.2 = j
      running := none }
  | none => self

/-- `Scheduler::syncTime`. -/
def syncTime (self : Scheduler) : Scheduler := { self with now := self.clock }

/-- `Scheduler::syncTime`, with a time that is given. No code calls it. -/
def syncTimeTo (self : Scheduler) (n : Nat) : Scheduler := { self with now := n }

/-- A step. -/
def step (self : Scheduler) : Event → Scheduler
  | .syncTime => self.syncTime
  | .act a => self.act a
  | .begin => self.begin
  | .finish => self.finish

/-- The scheduler after its steps. -/
def steps (self : Scheduler) (events : List Event) : Scheduler := events.foldl step self

/-- What a function does when it is called. -/
abbrev Code := Nat → Scheduler → List Action

/-- `if (*job) (*job)()`. -/
def call (code : Code) (self : Scheduler) (j : Nat) : List Action :=
  match (self.job j).do_ with
  | some function => code function self
  | none => []

/-- The events of a round of `Scheduler::run`, of the job `j`. -/
def roundEvents (code : Code) (self : Scheduler) (j : Nat) : List Event :=
  .begin :: (self.call code j).map .act ++ [.finish]

/-- A round of the loop of `Scheduler::run`. -/
def round (code : Code) (self : Scheduler) : Option Scheduler :=
  self.due?.map fun timer => self.steps (self.roundEvents code timer.2)

/-- `Scheduler::getNextJobTime`. -/
def getNextJobTime (self : Scheduler) : Nat :=
  match self.timers.entries.head? with
  | some timer => timer.1
  | none => UINT64_MAX

variable {self : Scheduler} {j : Nat} {timer : Nat × Nat}

@[simp] theorem steps_nil : self.steps [] = self := rfl

@[simp] theorem steps_cons (e : Event) (events : List Event) : self.steps (e :: events) =
    (self.step e).steps events :=
  rfl

@[simp] theorem steps_append (events later : List Event) :
    self.steps (events ++ later) = (self.steps events).steps later := List.foldl_append

@[simp] theorem step_act (a : Action) : self.step (.act a) = self.act a := rfl

@[simp] theorem step_begin : self.step .begin = self.begin := rfl

@[simp] theorem step_finish : self.step .finish = self.finish := rfl

/-! ## The operations -/

/-- With a positive delay, the time of a timer lies ahead, and is one that a timer may have. -/
theorem dueTime_of_pos (clock : Clock) {delay : Int64} (h : 0 < delay.toInt) :
    dueTime clock delay = clock.val + delay.toInt.toNat ∧ dueTime clock delay ≠ UINT64_MAX := by
  have hclock : clock.val < 0x8000000000000000 := clock.isLt
  have hdelay : delay.toInt < 0x8000000000000000 := delay.toInt_lt
  unfold dueTime UINT64_MAX
  rw [Int.emod_eq_of_lt (by omega) (by omega)]
  omega

@[simp] theorem job_add (do_ : Option Nat) (delay fixedDelay : Int64) :
    (self.add do_ delay fixedDelay).job j = if j = self.jobs.length then
      ⟨do_, fixedDelay⟩ else self.job j := by
  simp only [job, add, List.getD_eq_getElem?_getD, List.getElem?_append]
  split_ifs with hlt heq heq
  · omega
  · rfl
  · simp [heq]
  · have : self.jobs[j]? = none := by
      rw [List.getElem?_eq_none_iff]
      omega
    have : ([⟨do_, fixedDelay⟩] : List Job)[j - self.jobs.length]? = none := by
      rw [List.getElem?_eq_none_iff, List.length_singleton]
      omega
    simp [*]

@[simp] theorem job_cancel (i : Nat) : (self.cancel i).job j = if j = i then
    .cancelled else self.job j := by
  simp only [job, cancel, List.getD_eq_getElem?_getD, List.getElem?_set]
  by_cases hj : j = i
  · subst hj
    rw [if_pos rfl, if_pos rfl]
    split_ifs <;> rfl
  · rw [if_neg hj, if_neg fun h => hj h.symm]

theorem job_edit (i : Nat) (delay fixedDelay : Int64) : (self.edit i delay fixedDelay).job j =
    if j = self.jobs.length then ⟨(self.job i).do_, fixedDelay⟩ else if j = i then
      .cancelled else self.job j := by
  have hlength : (self.cancel i).jobs.length = self.jobs.length := List.length_set
  rw [edit, job_add, job_cancel, hlength]

/-- The call of the first timer's job. -/
theorem begin_eq (hidle : self.running = none) (hdue : self.due? = some timer) :
    self.begin = { self with
      running := some timer.2
      log := self.log ++ ((self.job timer.2).do_.map (.ran timer.1 timer.2)).toList } := by
  rw [begin, hidle, hdue]

theorem finish_eq (hrun : self.running = some j) :
    self.finish = { self.reschedule j with
      timers := (self.reschedule j).timers.erase fun timer => timer.2 = j
      running := none } := by
  rw [finish, hrun]

theorem job_finish {i : Nat} (hrun : self.running = some j) : self.finish.job i =
    (self.reschedule j).job i := by
  rw [finish_eq hrun]
  rfl

/-- A new timer is that of the new job. -/
theorem mem_timers_add {do_ : Option Nat} {delay fixedDelay : Int64}
    (h : timer ∈ (self.add do_ delay fixedDelay).timers.entries) :
    timer = (dueTime self.clock delay, self.jobs.length) ∨ timer ∈ self.timers.entries := by
  unfold add at h
  dsimp only at h
  split_ifs at h
  · exact Multimap.mem_emplace.mp h
  · exact .inr h

theorem mem_timers_of_mem {do_ : Option Nat} {delay fixedDelay : Int64}
    (h : timer ∈ self.timers.entries) : timer ∈ (self.add do_ delay fixedDelay).timers.entries := by
  unfold add
  dsimp only
  split_ifs
  · exact Multimap.mem_emplace.mpr (.inr h)
  · exact h

theorem due?_eq_some :
    self.due? = some timer ↔ self.timers.entries.head? = some timer ∧ timer.1 ≤ self.now := by
  simp [due?, Option.filter_eq_some_iff]

/-- A job with a fixed delay is a new job afterwards, with a timer of its own. -/
theorem finish_periodic (hrun : self.running = some j) (hlt : j < self.jobs.length)
    (hpos : 0 < (self.job j).fixedDelay.toInt) :
    (self.finish.clock.val + (self.job j).fixedDelay.toInt.toNat, self.jobs.length) ∈
      self.finish.timers.entries ∧
      self.finish.job self.jobs.length = self.job j ∧
        self.jobs.length < self.finish.jobs.length := by
  obtain ⟨htime, hmax⟩ := dueTime_of_pos self.clock hpos
  have hr : self.reschedule j = self.edit j (self.job j).fixedDelay (self.job j).fixedDelay := by
    rw [reschedule, if_pos hpos]
  have hlength : (self.cancel j).jobs.length = self.jobs.length := List.length_set
  refine ⟨?_, ?_, ?_⟩
  · rw [finish_eq hrun, hr, Multimap.mem_erase]
    refine ⟨?_, by simpa using hlt.ne'⟩
    simp only [edit, add, hlength]
    change _ ∈ (if dueTime self.clock _ ≠ UINT64_MAX then _ else _ : Multimap Nat Nat).entries
    rw [if_pos hmax, Multimap.mem_emplace]
    exact .inl (congrArg (·, self.jobs.length) htime.symm)
  · rw [job_finish hrun, hr, job_edit, if_pos rfl]
  · rw [finish_eq hrun, hr]
    simp [edit, add, hlength]

/-! ## Well-formed schedulers -/

/-- Each job is in one node at most, and all references are to jobs. -/
structure WellFormed (s : Scheduler) : Prop where
  nodup : (s.timers.entries.map Prod.snd).Nodup
  known : ∀ timer ∈ s.timers.entries, timer.2 < s.jobs.length
  held : ∀ i ∈ s.handles, i < s.jobs.length
  synced : s.now ≤ s.clock

theorem WellFormed.init (clock : Clock) : (Scheduler.init clock).WellFormed where
  nodup := List.nodup_nil
  known := by simp [Scheduler.init, Multimap.empty]
  held := by simp [Scheduler.init]
  synced := le_rfl

namespace WellFormed

theorem add (h : self.WellFormed) (do_ : Option Nat) (delay fixedDelay : Int64) :
    (self.add do_ delay fixedDelay).WellFormed := by
  refine ⟨?_, fun timer htimer => ?_, fun i hi => ?_, h.synced⟩
  · unfold Scheduler.add
    dsimp only
    split_ifs
    · rw [((self.timers.perm_emplace _ _).map _).nodup_iff, List.map_cons, List.nodup_cons]
      refine ⟨fun hmem => ?_, h.nodup⟩
      obtain ⟨timer, htimer, heq⟩ := List.mem_map.mp hmem
      exact absurd (h.known timer htimer) (by simp [heq])
    · exact h.nodup
  · simp only [Scheduler.add, List.length_append, List.length_singleton]
    obtain rfl | htimer := mem_timers_add htimer
    · exact Nat.lt_succ_self _
    · exact Nat.lt_succ_of_lt (h.known timer htimer)
  · simp only [Scheduler.add, List.length_append, List.length_singleton]
    exact Nat.lt_succ_of_lt (h.held i hi)

theorem cancel (h : self.WellFormed) (j : Nat) : (self.cancel j).WellFormed where
  nodup := h.nodup
  known := by simpa [Scheduler.cancel] using h.known
  held := by simpa [Scheduler.cancel] using h.held
  synced := h.synced

theorem edit (h : self.WellFormed) (j : Nat) (delay fixedDelay : Int64) :
    (self.edit j delay fixedDelay).WellFormed :=
  (h.cancel j).add _ delay fixedDelay

theorem act (h : self.WellFormed) (a : Action) : (self.act a).WellFormed := by
  cases a with
  | add delay fixedDelay =>
    have hadd := h.add (some self.handles.length) delay fixedDelay
    refine ⟨hadd.nodup, hadd.known, fun i hi => ?_, hadd.synced⟩
    obtain hi | hi := List.mem_append.mp hi
    · exact hadd.held i hi
    · simp [Scheduler.act, Scheduler.add, List.mem_singleton.mp hi]
  | cancel handle =>
    unfold Scheduler.act Scheduler.cancelHandle
    dsimp only
    split
    case h_1 j _ =>
      have hcancel := h.cancel j
      exact ⟨hcancel.nodup, hcancel.known, hcancel.held, hcancel.synced⟩
    case h_2 => exact h
  | wait time => exact ⟨h.nodup, h.known, h.held, h.synced.trans (le_max_left self.clock time)⟩

theorem begin (h : self.WellFormed) : self.begin.WellFormed := by
  unfold Scheduler.begin
  split
  · exact ⟨h.nodup, h.known, h.held, h.synced⟩
  · exact h

theorem reschedule (h : self.WellFormed) (j : Nat) : (self.reschedule j).WellFormed := by
  unfold Scheduler.reschedule
  dsimp only
  split_ifs
  · exact h.edit j _ _
  · exact h

theorem finish (h : self.WellFormed) : self.finish.WellFormed := by
  unfold Scheduler.finish
  split
  case h_1 j _ =>
    have hafter := h.reschedule j
    refine ⟨?_, fun timer htimer => ?_, hafter.held, hafter.synced⟩
    · exact hafter.nodup.sublist (List.filter_sublist.map _)
    · exact hafter.known timer (Multimap.mem_erase.mp htimer).1
  case h_2 => exact h

theorem step (h : self.WellFormed) (e : Event) : (self.step e).WellFormed := by
  cases e with
  | syncTime => exact ⟨h.nodup, h.known, h.held, le_rfl⟩
  | act a => exact h.act a
  | begin => exact h.begin
  | finish => exact h.finish

/-- Whatever happens to a scheduler keeps it well-formed. -/
theorem steps (h : self.WellFormed) (events : List Event) : (self.steps events).WellFormed := by
  induction events generalizing self with
  | nil => exact h
  | cons e events ih => exact ih (h.step e)

end WellFormed

end Scheduler

end Boson
