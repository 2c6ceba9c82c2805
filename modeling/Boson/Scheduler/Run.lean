import Boson.Lib.Loop
import Boson.Scheduler

/-!
# A call of `Scheduler::run`

The timers that are due when the scheduler is synchronised (`dueTimers`) have their turns one after
the other: what the functions add lies after `now`, so no timer becomes due. `Passes js s t` is what
the turns of the jobs `js` leave as it was.

* `round_passes`: what one round does.
* `rounds_turns`: what the first rounds of a call do.
* `run_exact`: a call of `run` ends, and what it has done.
* `run_inexact`: a job that is cancelled while it runs is not rescheduled, and a call does not end
  if `now` is set to a time that the clock has not reached.
-/

namespace Boson

open Loop

namespace Scheduler

/-- A function that is added runs later. -/
def Action.Positive : Action → Prop
  | add delay _ => 0 < delay.toInt
  | _ => True

/-- All functions add only functions that run later. -/
def Code.Positive (code : Code) : Prop := ∀ function s, ∀ a ∈ code function s, a.Positive

/-- The timers that are due. -/
def dueTimers (self : Scheduler) : List (Nat × Nat) :=
  self.timers.entries.filter fun timer => timer.1 ≤ self.now

/-- What happened between two states. -/
def since (s t : Scheduler) : List Entry := t.log.drop s.log.length

/-- The call of a function. -/
structure Execution where
  time : Nat
  job : Nat
  function : Nat

/-- The calls of functions. -/
def executions (entries : List Entry) : List Execution :=
  entries.filterMap fun
    | .ran time job function => some ⟨time, job, function⟩
    | .cancelled _ _ => none

/-- A job was cancelled between two states. -/
def CancelledIn (s t : Scheduler) (i : Nat) : Prop := ∃ handle, .cancelled handle i ∈ since s t

variable {code : Code} {s t u : Scheduler} {i j n : Nat} {js ks : List Nat} {timer : Nat × Nat}

theorem since_of_log {new : List Entry} (h : t.log = s.log ++ new) : since s t = new := by
  rw [since, h, List.drop_left]

theorem since_append (h : s.log <+: t.log) (h' : t.log <+: u.log) : since s u =
    since s t ++ since t u := by
  obtain ⟨new, hnew⟩ := h
  obtain ⟨later, hlater⟩ := h'
  rw [since_of_log hnew.symm, since_of_log hlater.symm]
  refine since_of_log ?_
  rw [← hlater, ← hnew, List.append_assoc]

/-- The first timer is due if any is. -/
theorem due?_eq_head : s.due? = s.dueTimers.head? := by
  unfold due? dueTimers
  have hsorted := s.timers.sorted
  cases hentries : s.timers.entries with
  | nil => rfl
  | cons timer rest =>
    rw [hentries] at hsorted
    by_cases hdue : timer.1 ≤ s.now
    · simp [hdue]
    · have hrest : rest.filter (fun timer => timer.1 ≤ s.now) = [] := by
        rw [List.filter_eq_nil_iff]
        intro later hlater
        have hle := (List.pairwise_cons.mp hsorted).1 later hlater
        simp
        omega
      rw [List.filter_cons_of_neg (by simpa using hdue), hrest]
      simp [Option.filter, hdue]

/-! ## What a turn leaves as it was -/

/-- What the turns of the jobs `js` leave as it was. -/
structure Passes (js : List Nat) (s t : Scheduler) : Prop where
  now : t.now = s.now
  length : s.jobs.length ≤ t.jobs.length
  due : t.dueTimers = s.dueTimers.filter fun timer => timer.2 ∉ js
  kept : ∀ timer ∈ s.timers.entries, timer.2 ∉ js → timer ∈ t.timers.entries
  fresh : ∀ timer ∈ t.timers.entries, (timer ∈ s.timers.entries ∧ timer.2 ∉ js) ∨
    s.jobs.length ≤ timer.2
  handles : s.handles <+: t.handles
  held : ∀ i ∈ t.handles, i ∈ s.handles ∨ s.jobs.length ≤ i
  log : s.log <+: t.log
  cancels : ∀ handle i, .cancelled handle i ∈ since s t → i ∈ t.handles
  untouched : ∀ i < s.jobs.length, i ∉ js → ¬ CancelledIn s t i → t.job i = s.job i
  cancelled : ∀ i < s.jobs.length, i ∉ js → CancelledIn s t i → t.job i = .cancelled

namespace Passes

theorem refl (s : Scheduler) : Passes [] s s where
  now := rfl
  length := le_rfl
  due := by simp
  kept := fun timer htimer _ => htimer
  fresh := fun timer htimer => .inl ⟨htimer, List.not_mem_nil⟩
  handles := List.prefix_rfl
  held := fun i hi => .inl hi
  log := List.prefix_rfl
  cancels := by simp [since]
  untouched := fun _ _ _ _ => rfl
  cancelled := by simp [CancelledIn, since]

theorem cancelledIn_iff (h : Passes js s t) (h' : Passes ks t u) :
    CancelledIn s u i ↔ CancelledIn s t i ∨ CancelledIn t u i := by
  unfold CancelledIn
  rw [since_append h.log h'.log]
  simp only [List.mem_append, exists_or]

/-- The turns of some jobs, then those of others. -/
theorem trans (h : Passes js s t) (h' : Passes ks t u) : Passes (js ++ ks) s u where
  now := h'.now.trans h.now
  length := h.length.trans h'.length
  due := by
    rw [h'.due, h.due, List.filter_filter]
    refine List.filter_congr fun timer _ => ?_
    simp only [List.mem_append, not_or, Bool.decide_and]
    exact Bool.and_comm _ _
  kept := by
    intro timer htimer hnot
    rw [List.mem_append, not_or] at hnot
    exact h'.kept timer (h.kept timer htimer hnot.1) hnot.2
  fresh := by
    intro timer htimer
    obtain ⟨hmem, hks⟩ | hlen := h'.fresh timer htimer
    · obtain ⟨hold, hjs⟩ | hlen := h.fresh timer hmem
      · exact .inl ⟨hold, by simp [hjs, hks]⟩
      · exact .inr hlen
    · exact .inr (h.length.trans hlen)
  handles := h.handles.trans h'.handles
  held := by
    intro i hi
    obtain hi | hlen := h'.held i hi
    · exact h.held i hi
    · exact .inr (h.length.trans hlen)
  log := h.log.trans h'.log
  cancels := by
    intro handle i hi
    rw [since_append h.log h'.log, List.mem_append] at hi
    obtain hi | hi := hi
    · exact h'.handles.subset (h.cancels handle i hi)
    · exact h'.cancels handle i hi
  untouched := by
    intro i hlt hnot hcancel
    rw [List.mem_append, not_or] at hnot
    rw [h.cancelledIn_iff h', not_or] at hcancel
    rw [h'.untouched i (hlt.trans_le h.length) hnot.2 hcancel.2]
    exact h.untouched i hlt hnot.1 hcancel.1
  cancelled := by
    intro i hlt hnot hcancel
    rw [List.mem_append, not_or] at hnot
    have hlt' := hlt.trans_le h.length
    by_cases hlater : CancelledIn t u i
    · exact h'.cancelled i hlt' hnot.2 hlater
    · rw [h'.untouched i hlt' hnot.2 hlater]
      exact h.cancelled i hlt hnot.1 (((h.cancelledIn_iff h').mp hcancel).resolve_right hlater)

end Passes

/-- A new timer that lies ahead is not due. -/
theorem dueTimers_add (h : s.WellFormed) (do_ : Option Nat) {delay : Int64} (hpos : 0 < delay.toInt)
    (fixedDelay : Int64) : (s.add do_ delay fixedDelay).dueTimers = s.dueTimers := by
  obtain ⟨htime, hmax⟩ := dueTime_of_pos s.clock hpos
  have hsynced : s.now ≤ s.clock.val := h.synced
  unfold dueTimers add
  dsimp only
  rw [if_pos hmax]
  refine Multimap.filter_emplace ?_
  simp
  omega

theorem passes_add (h : s.WellFormed) (do_ : Option Nat) {delay : Int64} (hpos : 0 < delay.toInt)
    (fixedDelay : Int64) : Passes [] s (s.add do_ delay fixedDelay) where
  now := rfl
  length := by simp [add]
  due := by simp [dueTimers_add h do_ hpos]
  kept := fun timer htimer _ => mem_timers_of_mem htimer
  fresh := by
    intro timer htimer
    obtain rfl | htimer := mem_timers_add htimer
    · exact .inr le_rfl
    · exact .inl ⟨htimer, List.not_mem_nil⟩
  handles := List.prefix_rfl
  held := fun i hi => .inl hi
  log := List.prefix_rfl
  cancels := by simp [since, add]
  untouched := by
    intro i hlt _ _
    rw [job_add, if_neg hlt.ne]
  cancelled := by simp [CancelledIn, since, add]

theorem passes_cancelHandle (handle : Nat) : Passes [] s (s.cancelHandle handle) := by
  unfold cancelHandle
  cases hhandle : s.handles[handle]? with
  | none => exact .refl s
  | some j =>
    have hiff (i : Nat) :
        CancelledIn s { s.cancel j with log := s.log ++ [.cancelled handle j] } i ↔ i = j := by
      rw [CancelledIn, since_of_log rfl]
      simp
    have hjob (i : Nat) :
        ({ s.cancel j with log := s.log ++ [.cancelled handle j] } : Scheduler).job i =
        if i = j then .cancelled else s.job i := job_cancel j
    exact {
      now := rfl
      length := by simp [cancel]
      due := (Passes.refl s).due
      kept := fun timer htimer _ => htimer
      fresh := fun timer htimer => .inl ⟨htimer, List.not_mem_nil⟩
      handles := List.prefix_rfl
      held := fun i hi => .inl hi
      log := List.prefix_append _ _
      cancels := by
        intro handle' i hi
        rw [since_of_log rfl, List.mem_singleton] at hi
        cases hi
        exact List.mem_of_getElem? hhandle
      untouched := fun i _ _ hcancel => by rw [hjob, if_neg fun heq => hcancel ((hiff i).mpr heq)]
      cancelled := fun i _ _ hcancel => by rw [hjob, if_pos ((hiff i).mp hcancel)] }

/-- What a function does leaves all timers as they are. -/
theorem passes_act (h : s.WellFormed) {a : Action} (ha : a.Positive) : Passes [] s (s.act a) := by
  cases a with
  | add delay fixedDelay =>
    have hadd := passes_add h (some s.handles.length) ha fixedDelay
    refine { hadd with handles := List.prefix_append _ _, held := ?_, cancels := ?_ }
    · intro i hi
      obtain hi | hi := List.mem_append.mp hi
      · exact .inl hi
      · exact .inr (List.mem_singleton.mp hi).ge
    · simp [since, act, add]
  | cancel handle => exact passes_cancelHandle handle
  | wait time => exact { Passes.refl s with }

theorem passes_acts (h : s.WellFormed) {actions : List Action} (ha : ∀ a ∈ actions, a.Positive) :
    Passes [] s (s.steps (actions.map .act)) := by
  induction actions generalizing s with
  | nil => exact .refl s
  | cons a actions ih =>
    obtain ⟨ha, hlater⟩ := List.forall_mem_cons.mp ha
    exact (passes_act h ha).trans (ih (h.act a) hlater)

/-- What a function does is not a call of a function, and the job that is called stays so. -/
theorem running_act (a : Action) : (s.act a).running = s.running ∧
    executions (since s (s.act a)) = [] := by
  cases a with
  | add delay fixedDelay => simp [act, add, since, executions]
  | cancel handle =>
    unfold act cancelHandle
    dsimp only
    split
    · refine ⟨rfl, ?_⟩
      rw [since_of_log rfl]
      rfl
    · simp [since, executions]
  | wait time => simp [act, since, executions]

theorem executions_append (entries later : List Entry) :
    executions (entries ++ later) = executions entries ++ executions later := List.filterMap_append

theorem running_acts (h : s.WellFormed) {actions : List Action} (ha : ∀ a ∈ actions, a.Positive) :
    (s.steps (actions.map .act)).running = s.running ∧
      executions (since s (s.steps (actions.map .act))) = [] := by
  induction actions generalizing s with
  | nil => simp [since, executions]
  | cons a actions ih =>
    obtain ⟨ha, hlater⟩ := List.forall_mem_cons.mp ha
    obtain ⟨hrun, hexec⟩ := running_act (s := s) a
    obtain ⟨hruns, hexecs⟩ := ih (h.act a) hlater
    refine ⟨hruns.trans hrun, ?_⟩
    rw [List.map_cons, steps_cons, step_act,
      since_append (passes_act h ha).log (passes_acts (h.act a) hlater).log, executions_append,
        hexec, hexecs,
      List.append_nil]

theorem passes_begin (hidle : s.running = none) (hdue : s.due? = some timer) :
    Passes [] s s.begin := by
  have hsince : since s s.begin = ((s.job timer.2).do_.map (Entry.ran timer.1 timer.2)).toList :=
    since_of_log (by rw [begin_eq hidle hdue])
  have hcancelled (handle i : Nat) : Entry.cancelled handle i ∉ since s s.begin := by
    rw [hsince]
    cases (s.job timer.2).do_ <;> simp
  have hrefl := Passes.refl s
  rw [begin_eq hidle hdue] at hcancelled ⊢
  exact { hrefl with
    log := List.prefix_append _ _
    cancels := fun handle i hi => absurd hi (hcancelled handle i)
    untouched := fun _ _ _ _ => rfl
    cancelled := fun i _ _ hcancel => by
      obtain ⟨handle, hi⟩ := hcancel
      exact absurd hi (hcancelled handle i) }

/-- What is left as it was when the job `j` is rescheduled. -/
structure Rescheduled (j : Nat) (s r : Scheduler) : Prop where
  now : r.now = s.now
  length : s.jobs.length ≤ r.jobs.length
  due : r.dueTimers = s.dueTimers
  kept : ∀ timer ∈ s.timers.entries, timer ∈ r.timers.entries
  fresh : ∀ timer ∈ r.timers.entries, timer ∈ s.timers.entries ∨ s.jobs.length ≤ timer.2
  handles : r.handles = s.handles
  log : r.log = s.log
  others : ∀ i < s.jobs.length, i ≠ j → r.job i = s.job i

theorem rescheduled (h : s.WellFormed) (j : Nat) : Rescheduled j s (s.reschedule j) := by
  unfold reschedule
  dsimp only
  split_ifs with hpos
  · have hadd := passes_add (h.cancel j) (s.job j).do_ hpos (s.job j).fixedDelay
    have hlength : (s.cancel j).jobs.length = s.jobs.length := List.length_set
    refine ⟨rfl, hlength ▸ hadd.length, dueTimers_add (h.cancel j) _ hpos _,
      fun timer htimer => mem_timers_of_mem htimer, fun timer htimer => ?_, rfl,
        rfl, fun i hlt hne => ?_⟩
    · obtain ⟨hmem, -⟩ | hlen := hadd.fresh timer htimer
      · exact .inl hmem
      · exact .inr (hlength ▸ hlen)
    · rw [job_edit, if_neg hlt.ne, if_neg hne]
  · exact ⟨rfl, le_rfl, rfl, fun _ h => h, fun _ h => .inl h, rfl, rfl, fun _ _ _ => rfl⟩

/-- After its call a job is rescheduled, and its timer is erased. -/
theorem passes_finish (h : s.WellFormed) (hrun : s.running = some j) : Passes [j] s s.finish := by
  have hr := rescheduled h j
  have hlog : s.finish.log = s.log := by rw [finish_eq hrun, hr.log]
  have hsince : since s s.finish = [] := since_of_log (by rw [hlog, List.append_nil])
  have hdue : s.finish.dueTimers = s.dueTimers.filter fun timer => timer.2 ∉ [j] := by
    rw [finish_eq hrun, ← hr.due]
    simp only [dueTimers, Multimap.erase, List.filter_filter, List.mem_singleton]
    refine List.filter_congr fun timer _ => ?_
    rw [Bool.and_comm, decide_not]
  have hmem (timer : Nat × Nat) :
      timer ∈ s.finish.timers.entries ↔ timer ∈ (s.reschedule j).timers.entries ∧ timer.2 ≠ j := by
    rw [finish_eq hrun]
    simp
  exact {
    now := by rw [finish_eq hrun, hr.now]
    length := by rw [finish_eq hrun]; exact hr.length
    due := hdue
    kept := fun timer htimer hnot =>
      (hmem timer).mpr ⟨hr.kept timer htimer, fun heq => hnot (List.mem_singleton.mpr heq)⟩
    fresh := by
      intro timer htimer
      obtain ⟨hmem, hne⟩ := (hmem timer).mp htimer
      obtain hold | hlen := hr.fresh timer hmem
      · exact .inl ⟨hold, fun heq => hne (List.mem_singleton.mp heq)⟩
      · exact .inr hlen
    handles := ⟨[], by rw [finish_eq hrun, hr.handles, List.append_nil]⟩
    held := by
      intro i hi
      rw [finish_eq hrun, hr.handles] at hi
      exact .inl hi
    log := ⟨[], by rw [hlog, List.append_nil]⟩
    cancels := by simp [hsince]
    untouched := fun i hlt hnot _ => by
      rw [job_finish hrun, hr.others i hlt fun heq => hnot (List.mem_singleton.mpr heq)]
    cancelled := by simp [CancelledIn, hsince] }

/-- What a round of the job of a timer does. -/
structure Turn (timer : Nat × Nat) (s t : Scheduler) : Prop where
  due : s.due? = some timer
  passes : Passes [timer.2] s t
  wellFormed : t.WellFormed
  idle : t.running = none
  executed :
    executions (since s t) = ((s.job timer.2).do_.map (Execution.mk timer.1 timer.2)).toList
  periodic : ¬ CancelledIn s t timer.2 → 0 < (s.job timer.2).fixedDelay.toInt → ∃ i,
    (t.clock.val + (s.job timer.2).fixedDelay.toInt.toNat, i) ∈ t.timers.entries ∧
      t.job i = s.job timer.2 ∧ s.jobs.length ≤ i ∧ i < t.jobs.length ∧ i ∉ t.handles

/-- What one round does. -/
theorem round_passes (hcode : code.Positive) (h : s.WellFormed) (hidle : s.running = none)
    (hround : s.round code = some t) : ∃ timer, Turn timer s t := by
  obtain ⟨timer, hdue, rfl⟩ := Option.map_eq_some_iff.mp hround
  refine ⟨timer, ?_⟩
  have hknown : timer.2 < s.jobs.length :=
    h.known timer (List.mem_of_mem_head? (due?_eq_some.mp hdue).1)
  have ha : ∀ a ∈ s.call code timer.2, a.Positive := by
    unfold call
    cases (s.job timer.2).do_ with
    | none => simp
    | some function => exact hcode function s
  have hevents : s.steps (s.roundEvents code timer.2) =
      (s.begin.steps ((s.call code timer.2).map .act)).finish := by
    simp [roundEvents]
  have hbegin := passes_begin hidle hdue
  have hacts := passes_acts h.begin ha
  have hwf := h.begin.steps ((s.call code timer.2).map .act)
  obtain ⟨hrun, hexec⟩ := running_acts h.begin ha
  rw [hevents]
  generalize s.begin.steps ((s.call code timer.2).map .act) = v at hacts hwf hrun hexec ⊢
  have hrunning : v.running = some timer.2 := by rw [hrun, begin_eq hidle hdue]
  have hcalled : Passes [] s v := hbegin.trans hacts
  have hfinish := passes_finish hwf hrunning
  refine ⟨hdue, hcalled.trans hfinish, hwf.finish, by rw [finish_eq hrunning], ?_, ?_⟩
  · have hsince : since v v.finish = [] :=
      since_of_log (by rw [finish_eq hrunning, (rescheduled hwf timer.2).log, List.append_nil])
    have hcall : since s s.begin = ((s.job timer.2).do_.map (Entry.ran timer.1 timer.2)).toList :=
      since_of_log (by rw [begin_eq hidle hdue])
    rw [since_append hcalled.log hfinish.log, since_append hbegin.log hacts.log, executions_append,
      executions_append, hexec, hsince, hcall]
    cases (s.job timer.2).do_ <;> rfl
  · intro hcancel hpos
    have hsame : v.job timer.2 = s.job timer.2 :=
      hcalled.untouched _ hknown List.not_mem_nil fun h =>
        hcancel ((hcalled.cancelledIn_iff hfinish).mpr (.inl h))
    rw [← hsame] at hpos ⊢
    obtain ⟨hmem, hjob, hlt⟩ := finish_periodic hrunning (hknown.trans_le hcalled.length) hpos
    refine ⟨v.jobs.length, hmem, hjob, hcalled.length, hlt, fun hheld => ?_⟩
    rw [finish_eq hrunning, (rescheduled hwf timer.2).handles] at hheld
    exact absurd (hwf.held _ hheld) (lt_irrefl _)

/-! ## A call of `run` -/

theorem round_eq_none : s.round code = none ↔ s.dueTimers = [] := by
  rw [round, Option.map_eq_none_iff, due?_eq_head, List.head?_eq_none_iff]

/-- A turn takes the first of the due timers. -/
theorem Turn.dueTimers_eq (h : Turn timer s t) (hwf : s.WellFormed) : s.dueTimers =
    timer :: t.dueTimers := by
  have hhead : s.dueTimers.head? = some timer := due?_eq_head ▸ h.due
  have hnodup : (s.dueTimers.map Prod.snd).Nodup := hwf.nodup.sublist (List.filter_sublist.map _)
  rw [h.passes.due]
  cases hdue : s.dueTimers with
  | nil => simp [hdue] at hhead
  | cons first rest =>
    rw [hdue, List.head?_cons] at hhead
    cases hhead
    rw [hdue, List.map_cons, List.nodup_cons] at hnodup
    rw [List.filter_cons_of_neg (by simp)]
    refine congrArg (timer :: ·) (List.filter_eq_self.mpr fun later hlater => ?_).symm
    have hne : later.2 ≠ timer.2 := fun heq => hnodup.1 (List.mem_map.mpr ⟨later, hlater, heq⟩)
    simpa using hne

/-- What the first rounds of a call do. -/
structure Turns (n : Nat) (s t : Scheduler) : Prop where
  le : n ≤ s.dueTimers.length
  passes : Passes ((s.dueTimers.take n).map Prod.snd) s t
  wellFormed : t.WellFormed
  idle : t.running = none
  rest : t.dueTimers = s.dueTimers.drop n
  executed : ((executions (since s t)).map fun e => (e.time, e.job)).Sublist (s.dueTimers.take n)

theorem rounds_turns (hcode : code.Positive) (hrounds : Rounds (round code) n s t)
    (h : s.WellFormed)
    (hidle : s.running = none) : Turns n s t := by
  induction hrounds with
  | zero s => exact ⟨Nat.zero_le _, .refl s, h, hidle, rfl, by simp [since, executions]⟩
  | @succ n s t u hround _ ih =>
    obtain ⟨timer, hturn⟩ := round_passes hcode h hidle hround
    obtain ⟨hle, hpasses, hwf, hidle', hrest, hexec⟩ := ih hturn.wellFormed hturn.idle
    have hdue := hturn.dueTimers_eq h
    have htake : s.dueTimers.take (n + 1) = timer :: t.dueTimers.take n := by
      rw [hdue, List.take_succ_cons]
    refine ⟨by rw [hdue]; simpa using hle, ?_, hwf, hidle', by
      rw [hrest, hdue, List.drop_succ_cons], ?_⟩
    · rw [htake, List.map_cons]
      exact hturn.passes.trans hpasses
    · rw [since_append hturn.passes.log hpasses.log, executions_append, List.map_append,
        hturn.executed, htake]
      cases (s.job timer.2).do_ with
      | none => exact hexec.cons timer
      | some function => exact hexec.cons_cons timer

/-- There is a round for each timer that is due. -/
theorem exists_rounds_due (hcode : code.Positive) (n : Nat) (s : Scheduler) (h : s.WellFormed)
    (hidle : s.running = none) (hn : n ≤ s.dueTimers.length) : ∃ t, Rounds (round code) n s t := by
  induction n generalizing s with
  | zero => exact ⟨s, .zero s⟩
  | succ n ih =>
    cases hround : s.round code with
    | none => simp [round_eq_none.mp hround] at hn
    | some t =>
      obtain ⟨timer, hturn⟩ := round_passes hcode h hidle hround
      rw [hturn.dueTimers_eq h, List.length_cons] at hn
      obtain ⟨u, hrounds⟩ := ih t hturn.wellFormed hturn.idle (by omega)
      exact ⟨u, .succ hround hrounds⟩

/-- The job of a timer that is not due is not that of one that is. -/
theorem notMem_due (h : s.WellFormed) (htimer : timer ∈ s.timers.entries)
    (hlater : s.now < timer.1) :
    timer.2 ∉ s.dueTimers.map Prod.snd := by
  intro hmem
  obtain ⟨other, hother, heq⟩ := List.mem_map.mp hmem
  obtain ⟨hmem, hdue⟩ := List.mem_filter.mp hother
  have hsame : other = timer := List.inj_on_of_nodup_map h.nodup hmem htimer heq
  rw [hsame, decide_eq_true_eq] at hdue
  omega

/-- The timers of a job that has one. -/
theorem filter_timers (h : s.WellFormed) (htimer : timer ∈ s.timers.entries) :
    s.timers.entries.filter (fun other => other.2 = timer.2) = [timer] := by
  have hnodup := h.nodup
  obtain ⟨before, after, heq⟩ := List.append_of_mem htimer
  rw [heq] at hnodup ⊢
  simp only [List.map_append, List.map_cons] at hnodup
  obtain ⟨-, hafter, hdisj⟩ := List.nodup_append.mp hnodup
  have hbefore : before.filter (fun other => other.2 = timer.2) = [] := by
    rw [List.filter_eq_nil_iff]
    intro other hother hsame
    exact hdisj _ (List.mem_map_of_mem hother) _ List.mem_cons_self (by simpa using hsame)
  have hafter : after.filter (fun other => other.2 = timer.2) = [] := by
    rw [List.filter_eq_nil_iff]
    intro other hother hsame
    refine (List.nodup_cons.mp hafter).1 ?_
    rw [← of_decide_eq_true hsame]
    exact List.mem_map_of_mem hother
  rw [List.filter_append, List.filter_cons, hbefore, hafter]
  simp

/-- The calls of a job's function between two states. -/
def callsOf (s t : Scheduler) (j : Nat) : List Execution :=
  (executions (since s t)).filter fun e => e.job = j

theorem callsOf_append (h : s.log <+: t.log) (h' : t.log <+: u.log) :
    callsOf s u j = callsOf s t j ++ callsOf t u j := by
  rw [callsOf, since_append h h', executions_append, List.filter_append]
  rfl

/-- No function is called of a job that had no turn. -/
theorem Turns.callsOf_eq_nil (h : Turns n s t) (hj : j ∉ (s.dueTimers.take n).map Prod.snd) :
    callsOf s t j = [] := by
  rw [callsOf, List.filter_eq_nil_iff]
  intro e he hjob
  refine hj (List.mem_map.mpr ⟨(e.time, e.job), h.executed.subset (List.mem_map_of_mem he), ?_⟩)
  exact of_decide_eq_true hjob

/-- A job that was rescheduled in a turn keeps its new timer, and is not cancelled: nobody has
it. -/
theorem Turns.pending (h : Turns n s t) (hwf : s.WellFormed) (htimer : timer ∈ s.timers.entries)
    (hlater : s.now < timer.1) (hheld : timer.2 ∉ s.handles) :
    t.timers.entries.filter (fun other => other.2 = timer.2) = [timer] ∧
      t.job timer.2 = s.job timer.2 := by
  have hlt := hwf.known timer htimer
  have hnot : timer.2 ∉ (s.dueTimers.take n).map Prod.snd := fun hmem =>
    notMem_due hwf htimer hlater (((List.take_sublist n _).map _).subset hmem)
  refine ⟨filter_timers h.wellFormed (h.passes.kept timer htimer hnot),
    h.passes.untouched _ hlt hnot ?_⟩
  rintro ⟨handle, hcancel⟩
  obtain hmem | hle := h.passes.held _ (h.passes.cancels handle _ hcancel)
  · exact hheld hmem
  · omega

/-- The turn of a due timer in a call of `run` from `s` to `t`, between `u` and `v`. If its job is
not cancelled before, its function is called once, and not at all otherwise; if it is not cancelled
before or during the call, it is pending once afterwards, as a new job, its fixed delay after the
time at which the call was over. -/
structure HasTurn (code : Code) (s t : Scheduler) (timer : Nat × Nat) (u v : Scheduler) : Prop where
  before : ∃ n, Rounds (round code) n s u
  due : u.due? = some timer
  turn : u.round code = some v
  after : ∃ n, Rounds (round code) n v t
  cancelled : CancelledIn s u timer.2 → callsOf s t timer.2 = []
  called : ¬ CancelledIn s u timer.2 →
    callsOf s t timer.2 = ((s.job timer.2).do_.map (Execution.mk timer.1 timer.2)).toList
  rescheduled : ¬ CancelledIn s v timer.2 → 0 < (s.job timer.2).fixedDelay.toInt → ∃ i,
    t.timers.entries.filter (fun later => later.2 = i) =
      [(v.clock.val + (s.job timer.2).fixedDelay.toInt.toNat, i)] ∧ t.job i = s.job timer.2

theorem hasTurn (hcode : code.Positive) (h : s.WellFormed) (hidle : s.running = none)
    (hrounds : Rounds (round code) s.dueTimers.length s t) (htimer : timer ∈ s.dueTimers) :
    ∃ u v, HasTurn code s t timer u v := by
  have hknown : timer.2 < s.jobs.length := h.known timer (List.mem_of_mem_filter htimer)
  have hnodup : (s.dueTimers.map Prod.snd).Nodup := h.nodup.sublist (List.filter_sublist.map _)
  obtain ⟨before, after, hdue⟩ := List.append_of_mem htimer
  have hlength : s.dueTimers.length = before.length + (after.length + 1) := by simp [hdue]
  rw [hlength] at hrounds
  obtain ⟨u, hbefore, hothers⟩ := hrounds.split
  cases hothers with
  | @succ _ _ v _ hround hafter =>
    have hu := rounds_turns hcode hbefore h hidle
    obtain ⟨first, hturn⟩ := round_passes hcode hu.wellFormed hu.idle hround
    have hv := rounds_turns hcode hafter hturn.wellFormed hturn.idle
    have hrest := hturn.dueTimers_eq hu.wellFormed
    rw [hu.rest, hdue, List.drop_left, List.cons.injEq] at hrest
    obtain ⟨rfl, hrest⟩ := hrest
    have htake : s.dueTimers.take before.length = before := by rw [hdue, List.take_left]
    rw [hdue, List.map_append, List.map_cons] at hnodup
    obtain ⟨-, hnodup, hdisj⟩ := List.nodup_append.mp hnodup
    have hnot : timer.2 ∉ (s.dueTimers.take before.length).map Prod.snd := fun hmem =>
      hdisj _ (htake ▸ hmem) _ List.mem_cons_self rfl
    have hnot' : timer.2 ∉ (v.dueTimers.take after.length).map Prod.snd := by
      rw [← hrest, List.take_length]
      exact (List.nodup_cons.mp hnodup).1
    have hcalls :
        callsOf s t timer.2 = ((u.job timer.2).do_.map (Execution.mk timer.1 timer.2)).toList := by
      rw [callsOf_append hu.passes.log (hturn.passes.log.trans hv.passes.log),
        callsOf_append hturn.passes.log hv.passes.log, hu.callsOf_eq_nil hnot,
          hv.callsOf_eq_nil hnot', callsOf,
        hturn.executed]
      cases (u.job timer.2).do_ <;> simp
    refine ⟨u, v, ⟨_, hbefore⟩, hturn.due, hround,
      ⟨_, hafter⟩, fun hcancel => ?_, fun hcancel => ?_,
      fun hcancel hpos => ?_⟩
    · rw [hcalls, hu.passes.cancelled _ hknown hnot hcancel]
      rfl
    · rw [hcalls, hu.passes.untouched _ hknown hnot hcancel]
    · rw [hu.passes.cancelledIn_iff hturn.passes, not_or] at hcancel
      have hsame := hu.passes.untouched _ hknown hnot hcancel.1
      rw [← hsame] at hpos ⊢
      obtain ⟨i, hmem, hjob, hle, hlt, hheld⟩ := hturn.periodic hcancel.2 hpos
      have hlater : v.now < v.clock.val + (u.job timer.2).fixedDelay.toInt.toNat := by
        have hsynced : v.now ≤ v.clock.val := hturn.wellFormed.synced
        omega
      obtain ⟨honce, hkept⟩ := hv.pending hturn.wellFormed hmem hlater hheld
      exact ⟨i, honce, hkept.trans hjob⟩

/-- What `run` returns is the time of a timer, and the least one; without timers it is the greatest
number. -/
theorem getNextJobTime_least (s : Scheduler) :
    (s.timers.entries = [] → s.getNextJobTime = UINT64_MAX) ∧
    (s.timers.entries ≠ [] → ∃ timer ∈ s.timers.entries, s.getNextJobTime = timer.1 ∧
      ∀ other ∈ s.timers.entries, s.getNextJobTime ≤ other.1) := by
  unfold getNextJobTime
  cases hhead : s.timers.entries.head? with
  | none => simp [List.head?_eq_none_iff.mp hhead]
  | some timer =>
    have hmem := List.mem_of_mem_head? hhead
    exact ⟨fun hnil => by simp [hnil] at hhead,
      fun _ => ⟨timer, hmem, rfl, Multimap.least_of_head hhead⟩⟩

/-- A call of `run` ends, and then: the calls are those of jobs that were due, in the order of their
times; each of these jobs had its turn, and is not pending; all timers that were not due are
pending; and what is returned is the time of the next one. -/
theorem run_exact (code : Code) (s : Scheduler) (hcode : code.Positive) (h : s.WellFormed)
    (hidle : s.running = none) :
    ∃ n t, Rounds (round code) n s t ∧ t.round code = none ∧
      (executions (since s t)).Pairwise (fun a b => a.time ≤ b.time) ∧
      (∀ e ∈ executions (since s t), (e.time, e.job) ∈ s.timers.entries ∧ e.time ≤ s.now) ∧
      (∀ timer ∈ s.timers.entries, timer.1 ≤ s.now →
        (∃ u v, HasTurn code s t timer u v) ∧ ∀ later ∈ t.timers.entries, later.2 ≠ timer.2) ∧
      (∀ timer ∈ s.timers.entries, s.now < timer.1 → timer ∈ t.timers.entries) ∧
      (t.timers.entries = [] → t.getNextJobTime = UINT64_MAX) ∧
      (t.timers.entries ≠ [] → ∃ timer ∈ t.timers.entries, t.getNextJobTime = timer.1 ∧
        ∀ other ∈ t.timers.entries, t.getNextJobTime ≤ other.1) := by
  obtain ⟨t, hrounds⟩ := exists_rounds_due hcode s.dueTimers.length s h hidle le_rfl
  have hturns := rounds_turns hcode hrounds h hidle
  have hexec := hturns.executed
  have hpasses := hturns.passes
  rw [List.take_length] at hexec hpasses
  have hdue (timer : Nat × Nat) (htimer : timer ∈ s.timers.entries) (hle : timer.1 ≤ s.now) :
      timer ∈ s.dueTimers := List.mem_filter.mpr ⟨htimer, decide_eq_true hle⟩
  refine ⟨_, t, hrounds, ?_, ?_, fun e he => ?_, fun timer htimer hle =>
    ⟨?_, fun later hlater heq => ?_⟩,
    fun timer htimer hlater => ?_, (getNextJobTime_least t).1, (getNextJobTime_least t).2⟩
  · rw [round_eq_none, hturns.rest, List.drop_length]
  · have hsorted : s.dueTimers.Pairwise fun a b => a.1 ≤ b.1 := s.timers.sorted.filter _
    have hcalls := hsorted.sublist hexec
    rw [List.pairwise_map] at hcalls
    exact hcalls
  · obtain ⟨hmem, hle⟩ := List.mem_filter.mp (hexec.subset (List.mem_map_of_mem he))
    exact ⟨hmem, of_decide_eq_true hle⟩
  · exact hasTurn hcode h hidle hrounds (hdue timer htimer hle)
  · have hmem := List.mem_map_of_mem (f := Prod.snd) (hdue timer htimer hle)
    obtain ⟨-, hnot⟩ | hlen := hpasses.fresh later hlater
    · exact hnot (heq ▸ hmem)
    · exact absurd (h.known timer htimer) (by omega)
  · exact hpasses.kept timer htimer (notMem_due h htimer hlater)

/-- A periodic job that is due. -/
def onePeriodic : Scheduler := (init 0).steps [.act (.add 1000 1000), .act (.wait 1000), .syncTime]

theorem run_exact_onePeriodic : ∃ n t, Rounds (round fun _ _ => []) n onePeriodic t ∧
    t.round (fun _ _ => []) = none ∧ onePeriodic.timers.entries = [(1000, 0)] := by
  obtain ⟨n, t, hrounds, hend, -⟩ := run_exact (fun _ _ => []) onePeriodic (by simp [Code.Positive])
    ((WellFormed.init 0).steps _) rfl
  exact ⟨n, t, hrounds, hend, by decide⟩

/-- A periodic job that cancels itself is called and not pending afterwards. Where `now` was set to
a time that is not there yet, one call of `run` calls a periodic job twice. -/
theorem run_inexact :
    (∃ (code : Code) (s t : Scheduler), code.Positive ∧ s.WellFormed ∧ s.running = none ∧
      s.round code = some t ∧ t.round code = none ∧ (s.job 0).fixedDelay = 1000 ∧
      since s t = [.ran 1000 0 0, .cancelled 0 0] ∧ t.timers.entries = []) ∧
    (∃ (code : Code) (s t u : Scheduler) (n : Nat), code.Positive ∧ s.WellFormed ∧
      s.running = none ∧ (s.syncTimeTo n).round code = some t ∧ t.round code = some u ∧
      since s u = [.ran 1000 0 0, .ran 2000 1 0]) := by
  constructor
  · exact ⟨fun _ _ => [.cancel 0], onePeriodic, _, by simp [Code.Positive, Action.Positive],
      (WellFormed.init 0).steps _, rfl, rfl, by decide, by decide, by decide, by decide⟩
  · exact ⟨fun _ _ => [], onePeriodic, _, _, 5000, by simp [Code.Positive],
      (WellFormed.init 0).steps _, rfl,
      rfl, rfl, by decide⟩

end Scheduler

end Boson
