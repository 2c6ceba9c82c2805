import Boson.Task.Moves

/-!
# The lists of the task manager

What the listeners of a task do to the manager is that new tasks come into the queue, or are left
out of it (`Grows`). So what can be said of the lists is said once for `add`, once for a task that
ends, and once for `start`.

- `Listed`: the queue holds each task once, those that wait to be started or were canceled
  meanwhile; a task is not in both lists. It holds in every state that is reached (`run_listed`).
-/

namespace Boson

namespace Tasks

variable {s s' : Tasks} {i : Nat} {t : Task}

/-- New tasks were created, and some of them have come into the queue. -/
structure Grows (s s' : Tasks) : Prop where
  running : s'.running = s.running
  peak : s'.peak = s.peak
  canceling : s'.canceling = s.canceling
  locked : s'.locked = s.locked
  isRunning : s'.isRunning = s.isRunning
  buckets : s'.buckets = s.buckets
  stuck : s.locked = false ∨ s.canceling = true → s'.stuck = s.stuck
  held : s.locked = true ∨ s.canceling = true → s'.queued = s.queued
  tasks : ∃ ts : List Task, s'.tasks = s.tasks ++ ts ∧
    ∀ t ∈ ts, t.started = false ∧ t.closest = 0 ∧ (t.state = .initial ∨ t.state = .queued)
  queued : ∃ new : List Nat, s'.queued = s.queued ++ new ∧ new.Nodup ∧
    ∀ k ∈ new, s.tasks.length ≤ k ∧ s'.stateOf k = .queued

theorem lt_of_stateOf {k : Nat} (h : s.stateOf k ≠ .initial) : k < s.tasks.length := by
  by_contra hk
  exact h (stateOf_eq_initial (List.getElem?_eq_none_iff.mpr (Nat.le_of_not_lt hk)))

/-- What `Grows` is about. -/
def view (s : Tasks) :=
  (s.tasks, s.queued, s.running, s.peak, s.canceling, s.locked, s.stuck, s.isRunning, s.buckets)

namespace Grows

theorem of_eq (h : s'.view = s.view) : Grows s s' := by
  simp only [view, Prod.mk.injEq] at h
  obtain ⟨htasks, hqueued, hrunning, hpeak, hcanceling, hlocked, hstuck, hisRunning, hbuckets⟩ := h
  exact ⟨hrunning, hpeak, hcanceling, hlocked, hisRunning,
    hbuckets, fun _ => hstuck, fun _ => hqueued,
    ⟨[], by simp [htasks], nofun⟩, ⟨[], by simp [hqueued], .nil, nofun⟩⟩

theorem refl (s : Tasks) : Grows s s := of_eq rfl

/-- The tasks of before are as they were. -/
theorem getElem? (h : Grows s s') {k : Nat} (hk : k < s.tasks.length) :
    s'.tasks[k]? = s.tasks[k]? := by
  obtain ⟨ts, hts, -⟩ := h.tasks
  rw [hts, List.getElem?_append_left hk]

theorem stateOf (h : Grows s s') {k : Nat} (hk : k < s.tasks.length) :
    s'.stateOf k = s.stateOf k := by
  rw [Tasks.stateOf, Tasks.stateOf, h.getElem? hk]

theorem length_le (h : Grows s s') : s.tasks.length ≤ s'.tasks.length := by
  obtain ⟨ts, hts, -⟩ := h.tasks
  simp [hts]

theorem trans {s₁ s₂ s₃ : Tasks} (h : Grows s₁ s₂) (h' : Grows s₂ s₃) : Grows s₁ s₃ := by
  have hlen := h.length_le
  obtain ⟨ts, hts, hnew⟩ := h.tasks
  obtain ⟨ts', hts', hnew'⟩ := h'.tasks
  obtain ⟨new, hqueued, hnodup, hstate⟩ := h.queued
  obtain ⟨new', hqueued', hnodup', hstate'⟩ := h'.queued
  have hlt : ∀ k ∈ new, k < s₂.tasks.length := fun k hk =>
      lt_of_stateOf (by rw [(hstate k hk).2]; nofun)
  refine ⟨h'.running.trans h.running, h'.peak.trans h.peak, h'.canceling.trans h.canceling,
    h'.locked.trans h.locked,
    h'.isRunning.trans h.isRunning, h'.buckets.trans h.buckets, fun hfree => ?_, fun hheld => ?_,
    ⟨ts ++ ts', ?_, ?_⟩, ⟨new ++ new', ?_, ?_, ?_⟩⟩
  · rw [h'.stuck (by rw [h.locked, h.canceling]; exact hfree), h.stuck hfree]
  · rw [h'.held (by rw [h.locked, h.canceling]; exact hheld), h.held hheld]
  · rw [hts', hts, List.append_assoc]
  · exact List.forall_mem_append.mpr ⟨hnew, hnew'⟩
  · rw [hqueued', hqueued, List.append_assoc]
  · refine hnodup.append hnodup' fun k hk hk' => ?_
    have := hlt k hk
    have := (hstate' k hk').1
    omega
  · refine List.forall_mem_append.mpr ⟨fun k hk =>
      ⟨(hstate k hk).1, ?_⟩, fun k hk => ⟨?_, (hstate' k hk).2⟩⟩
    · rw [h'.stateOf (hlt k hk), (hstate k hk).2]
    · exact hlen.trans (hstate' k hk).1

end Grows

/-- A new task that is given to the manager. -/
theorem spawn_grows (s : Tasks) (listener : Listener) : Grows s (s.spawn listener) := by
  have hnew : (s.newTask listener).tasks[s.tasks.length]? = some { listener := listener } := by
    simp [newTask]
  unfold spawn add
  split_ifs with hcanceling hlocked
  · exact ⟨rfl, rfl, rfl, rfl, rfl, rfl, fun _ => rfl, fun _ => rfl, ⟨_, rfl, by simp⟩,
      ⟨[], (List.append_nil _).symm, .nil, by simp⟩⟩
  · have hcanceling' : s.canceling = false := Bool.eq_false_of_not_eq_true hcanceling
    have hlocked' : s.locked = true := hlocked
    exact ⟨rfl, rfl, rfl, rfl, rfl, rfl, by simp [hlocked', hcanceling'], fun _ => rfl,
      ⟨_, rfl, by simp⟩,
      ⟨[], (List.append_nil _).symm, .nil, by simp⟩⟩
  · have hcanceling' : s.canceling = false := Bool.eq_false_of_not_eq_true hcanceling
    have hlocked' : s.locked = false := Bool.eq_false_of_not_eq_true hlocked
    rw [stateOf_eq hnew]
    dsimp only
    rw [modifyTask_eq hnew]
    refine ⟨rfl, rfl, rfl, rfl, rfl, rfl, fun _ => rfl, by simp [hlocked', hcanceling'],
      ⟨[{ listener := listener, state := .queued }], ?_, by simp⟩,
      ⟨[s.tasks.length], rfl, by simp, ?_⟩⟩
    · simp [enqueue, newTask]
    · simp [enqueue, newTask, stateOf]

theorem fillLoop_grows (fill n : Nat) (s : Tasks) : Grows s (fillLoop fill n s) := by
  induction n generalizing s with
  | zero => exact .refl s
  | succ n ih =>
    rw [fillLoop]
    split_ifs with hstuck
    · exact .refl s
    · have hop : Grows s { s with ops := s.ops + 1 } := .of_eq rfl
      exact (hop.trans (spawn_grows _ _)).trans (ih _)

theorem fillBuckets_grows (s : Tasks) : Grows s s.fillBuckets := by
  unfold fillBuckets
  split_ifs with hunfilled
  · exact .refl s
  · have hfill : Grows s { s with fills := s.fills ++ [{ total := s.unfilled }] } := .of_eq rfl
    exact hfill.trans (fillLoop_grows _ _ _)

theorem find_grows (s : Tasks) : Grows s s.find :=
  have hop : Grows s { s with ops := s.ops + 1 } := .of_eq rfl
  hop.trans (spawn_grows _ _)

theorem store_grows (s : Tasks) : Grows s s.store :=
  have hop : Grows s { s with ops := s.ops + 1 } := .of_eq rfl
  hop.trans (spawn_grows _ _)

theorem updateBootstrap_grows (s : Tasks) (now : UInt64) : Grows s (s.updateBootstrap now) := by
  unfold updateBootstrap
  split_ifs <;> exact .of_eq rfl

theorem fillHomeBucket_grows (s : Tasks) (j nodes : Nat) : Grows s (s.fillHomeBucket j nodes) := by
  unfold fillHomeBucket
  split
  · exact .of_eq rfl
  · have hround : Grows s
        { s with rounds := s.rounds.modify j fun r => { r with task := some s.tasks.length } } :=
          .of_eq rfl
    exact hround.trans (spawn_grows _ _)

theorem bootstrapCall_grows (s : Tasks) (j found : Nat) (now : UInt64) :
    Grows s (s.bootstrapCall j found now) := by
  unfold bootstrapCall
  split
  · exact .refl s
  rename_i r hj
  split
  · exact .refl s
  dsimp only
  split
  · have hround : Grows s
        { s with
          lastBootstrap := now
          rounds :=
            s.rounds.set j { r.ended found with filled := (r.ended found).filled + 1 } } :=
              .of_eq rfl
    exact hround.trans (fillHomeBucket_grows _ _ _)
  · exact .of_eq rfl

/-- The announcement is a new task, and the lookup has it nested. -/
theorem announce_grows {op : Nat} (hi : s.tasks[i]? = some t) :
    Grows { s with tasks := s.tasks.set i { t with nested := some s.tasks.length } }
      (s.announce i op) := by
  have hlt : i < s.tasks.length := (List.getElem?_eq_some_iff.mp hi).1
  have hget (new : Task) : (s.tasks ++ [new])[i]? = some t := by
    rw [List.getElem?_append_left hlt, hi]
  have hset (t' new : Task) : (s.tasks ++ [new]).set i t' = s.tasks.set i t' ++ [new] :=
    List.set_append_left _ _ hlt
  have hspawn :=
    spawn_grows { s with tasks := s.tasks.set i { t with nested := some s.tasks.length } }
      (.announced op)
  rw [spawn, newTask, List.length_set] at hspawn
  rw [announce, newTask, modifyTask_eq (hget _), hset]
  exact hspawn

/-- A task that was alive ends, and what its listener does then. -/
theorem terminate_grows (hi : s.tasks[i]? = some t) (ht : t.state.isTerminal = false)
    (state : TaskState) :
    ∃ nested, Grows { s with tasks := s.tasks.set i { t with state := state, nested := nested } }
      (s.terminate i state) := by
  have hlt : i < s.tasks.length := (List.getElem?_eq_some_iff.mp hi).1
  have hended : (s.tasks.set i { t with state := state })[i]? = some { t with state := state } :=
    List.getElem?_set_self hlt
  rw [terminate, stateOf_eq hi, if_neg (by simp [ht]), modifyTask_eq hi, notify, hended]
  dsimp only [listen]
  split
  · exact ⟨t.nested, .of_eq rfl⟩
  · rename_i op _
    split_ifs
    · exact ⟨t.nested, .of_eq rfl⟩
    · exact ⟨t.nested, .of_eq rfl⟩
    · have hannounce :
          Grows _ ({ s with tasks := s.tasks.set i { t with state := state } }.announce i op) :=
        announce_grows hended
      rw [List.set_set] at hannounce
      exact ⟨_, hannounce⟩
  · exact ⟨t.nested, .of_eq rfl⟩
  · refine ⟨t.nested, ?_⟩
    have hreset : Grows { s with tasks := s.tasks.set i { t with state := state } }
        { s with tasks := s.tasks.set i { t with state := state }, bootstrapping := false } :=
          .of_eq rfl
    split_ifs
    · exact hreset
    · exact hreset.trans (fillBuckets_grows _)
    · exact hreset
  · exact ⟨t.nested, .of_eq rfl⟩
  · exact ⟨t.nested, .of_eq rfl⟩

/-- The lists and the states of the tasks. The queue holds each task once, and what was started is
not in it. -/
structure Listed (s : Tasks) : Prop where
  nodup : s.queued.Nodup
  disjoint : ∀ i ∈ s.queued, i ∉ s.running
  queued : ∀ i ∈ s.queued, s.stateOf i = .queued ∨ s.stateOf i = .canceled
  running : ∀ i ∈ s.running, s.stateOf i ≠ .initial ∧ s.stateOf i ≠ .queued
  waiting : ∀ t ∈ s.tasks, t.state = .initial ∨ t.state = .queued → t.started = false
  closest : ∀ t ∈ s.tasks, t.started = false → t.closest = 0

namespace Listed

theorem congr (h : s.Listed) (htasks : s'.tasks = s.tasks) (hqueued : s'.queued = s.queued)
    (hrunning : s'.running = s.running) : s'.Listed := by
  have hstate (k : Nat) : s'.stateOf k = s.stateOf k := by rw [stateOf, stateOf, htasks]
  constructor
  · rw [hqueued]; exact h.nodup
  · rw [hqueued, hrunning]; exact h.disjoint
  · simp only [hqueued, hstate]; exact h.queued
  · simp only [hrunning, hstate]; exact h.running
  · rw [htasks]; exact h.waiting
  · rw [htasks]; exact h.closest

theorem queued_lt (h : s.Listed) (hi : i ∈ s.queued) : i < s.tasks.length :=
  lt_of_stateOf (by obtain h | h := h.queued i hi <;> rw [h] <;> nofun)

theorem running_lt (h : s.Listed) (hi : i ∈ s.running) : i < s.tasks.length :=
  lt_of_stateOf (h.running i hi).1

/-- New tasks. -/
theorem grows (h : s.Listed) (hgrows : Grows s s') : s'.Listed := by
  obtain ⟨new, hqueued, hnodup, hnew⟩ := hgrows.queued
  obtain ⟨ts, htasks, hts⟩ := hgrows.tasks
  have hfresh : ∀ k ∈ new, ∀ i ∈ s.queued, k ≠ i := by
    rintro k hk _ hi rfl
    exact absurd (h.queued_lt hi) (Nat.not_lt.mpr (hnew k hk).1)
  constructor
  · rw [hqueued]
    exact h.nodup.append hnodup fun i hi hk => hfresh i hk i hi rfl
  · rw [hqueued, hgrows.running]
    refine List.forall_mem_append.mpr ⟨h.disjoint, fun k hk hrun => ?_⟩
    exact absurd (h.running_lt hrun) (Nat.not_lt.mpr (hnew k hk).1)
  · rw [hqueued]
    refine List.forall_mem_append.mpr ⟨fun i hi => ?_, fun k hk => .inl (hnew k hk).2⟩
    rw [hgrows.stateOf (h.queued_lt hi)]
    exact h.queued i hi
  · intro i hi
    rw [hgrows.running] at hi
    rw [hgrows.stateOf (h.running_lt hi)]
    exact h.running i hi
  · rw [htasks]
    exact List.forall_mem_append.mpr ⟨h.waiting, fun t ht _ => (hts t ht).1⟩
  · rw [htasks]
    exact List.forall_mem_append.mpr ⟨h.closest, fun t ht _ => (hts t ht).2.1⟩

/-- A task changes. -/
theorem set (h : s.Listed) (hi : s.tasks[i]? = some t) {t' : Task}
    (hqueued : i ∈ s.queued → t'.state = .queued ∨ t'.state = .canceled)
    (hrunning : i ∈ s.running → t'.state ≠ .initial ∧ t'.state ≠ .queued)
    (hwaiting : t'.state = .initial ∨ t'.state = .queued → t'.started = false)
    (hclosest : t'.started = false → t'.closest = 0) :
    Listed { s with tasks := s.tasks.set i t' } := by
  have hlt : i < s.tasks.length := (List.getElem?_eq_some_iff.mp hi).1
  have hself : stateOf { s with tasks := s.tasks.set i t' } i = t'.state :=
    stateOf_eq (List.getElem?_set_self hlt)
  have hother {k : Nat} (hk : i ≠ k) :
      stateOf { s with tasks := s.tasks.set i t' } k = s.stateOf k := by
    rw [stateOf, stateOf, List.getElem?_set_ne hk]
  refine ⟨h.nodup, h.disjoint, fun k hk => ?_, fun k hk => ?_, fun u hu => ?_, fun u hu => ?_⟩
  · by_cases hik : i = k
    · subst hik; rw [hself]; exact hqueued hk
    · rw [hother hik]; exact h.queued k hk
  · by_cases hik : i = k
    · subst hik; rw [hself]; exact hrunning hk
    · rw [hother hik]; exact h.running k hk
  · obtain hu | rfl := List.mem_or_eq_of_mem_set hu
    · exact h.waiting u hu
    · exact hwaiting
  · obtain hu | rfl := List.mem_or_eq_of_mem_set hu
    · exact h.closest u hu
    · exact hclosest

/-- A task ends. One that is in the queue has not finished. -/
theorem terminate (h : s.Listed) {state : TaskState} (hstate : state.isTerminal = true)
    (hqueued : state = .finished → i ∉ s.queued) : (s.terminate i state).Listed := by
  cases hi : s.tasks[i]? with
  | none => rw [terminate_eq_self_of_none hi]; exact h
  | some t =>
    cases ht : t.state.isTerminal with
    | true => rw [terminate_eq_self hi ht]; exact h
    | false =>
      obtain ⟨nested, hgrows⟩ := terminate_grows hi ht state
      have hcases : state = .finished ∨ state = .canceled := by
        simpa [TaskState.isTerminal] using hstate
      refine (h.set hi ?_ ?_ ?_ ?_).grows hgrows
      · intro hmem
        exact .inr (hcases.resolve_left fun hf => hqueued hf hmem)
      · intro
        obtain rfl | rfl := hcases <;> exact ⟨(fun h => by cases h), (fun h => by cases h)⟩
      · obtain rfl | rfl := hcases <;> rintro (h | h) <;> cases h
      · exact h.closest t (List.mem_of_getElem? hi)

theorem cancel (h : s.Listed) : (s.cancel i).Listed := by
  have hfirst : (s.terminate i .canceled).Listed := h.terminate rfl nofun
  unfold Tasks.cancel
  dsimp only
  split
  · exact hfirst.terminate rfl nofun
  · exact hfirst

theorem foldl_cancel (is : List Nat) (s : Tasks) (h : s.Listed) :
    (is.foldl Tasks.cancel s).Listed := by
  induction is generalizing s with
  | nil => exact h
  | cons i is ih => exact ih _ h.cancel

theorem cancelAll (h : s.Listed) : s.cancelAll.Listed := by
  rw [cancelAll_eq]
  have hstart : Listed { s with locked := true, canceling := true } := h.congr rfl rfl rfl
  exact (foldl_cancel (s.running ++ s.queued) _ hstart).congr rfl rfl rfl

theorem add (h : s.Listed) (hlt : i < s.tasks.length) (prior : Bool) : (s.add i prior).Listed := by
  obtain ⟨t, hi⟩ : ∃ t, s.tasks[i]? = some t := ⟨_, List.getElem?_eq_getElem hlt⟩
  unfold Tasks.add
  split
  · exact h
  split
  · exact h.congr rfl rfl rfl
  split
  · rename_i hstate
    refine ⟨h.nodup, fun k hk hmem => ?_, h.queued, ?_, h.waiting, h.closest⟩
    · obtain hmem | hmem := List.mem_append.mp hmem
      · exact h.disjoint k hk hmem
      · obtain rfl : k = i := List.mem_singleton.mp hmem
        obtain hq | hq := h.queued k hk <;> simp [hstate] at hq
    · refine List.forall_mem_append.mpr ⟨h.running, List.forall_mem_singleton.mpr ?_⟩
      exact (⟨by rw [hstate]; nofun, by rw [hstate]; nofun⟩ : s.stateOf i ≠ .initial ∧
        s.stateOf i ≠ .queued)
  · rename_i hstate
    have hq : i ∉ s.queued := by
      intro hmem
      obtain hq | hq := h.queued i hmem <;> simp [hstate] at hq
    have hr : i ∉ s.running := fun hmem => (h.running i hmem).1 hstate
    have ht : t.state = .initial := (stateOf_eq hi).symm.trans hstate
    have hmem := List.mem_of_getElem? hi
    have hset : Listed { s with tasks := s.tasks.set i { t with state := .queued } } :=
      h.set hi (fun hmem => absurd hmem hq) (fun hmem => absurd hmem hr)
        (fun _ => h.waiting t hmem (.inl ht))
        (h.closest t hmem)
    have hself :
        stateOf { s with tasks := s.tasks.set i { t with state := .queued } } i = .queued := by
      rw [stateOf_eq (List.getElem?_set_self hlt)]
    rw [modifyTask_eq hi]
    refine ⟨?_, ?_, ?_, hset.running, hset.waiting, hset.closest⟩
    · cases prior
      · exact h.nodup.append (List.nodup_singleton i) (by simpa using hq)
      · exact List.nodup_cons.mpr ⟨hq, h.nodup⟩
    · cases prior
      · exact List.forall_mem_append.mpr ⟨h.disjoint, List.forall_mem_singleton.mpr hr⟩
      · exact List.forall_mem_cons.mpr ⟨hr, h.disjoint⟩
    · cases prior
      · exact List.forall_mem_append.mpr ⟨hset.queued, List.forall_mem_singleton.mpr (.inl hself)⟩
      · exact List.forall_mem_cons.mpr ⟨.inl hself, hset.queued⟩
  · exact h

theorem removeTask (h : s.Listed) (i : Nat) : (s.removeTask i).Listed := by
  refine ⟨h.nodup.filter _, fun k hk hmem => ?_, fun k hk => ?_, fun k hk => ?_,
    h.waiting, h.closest⟩
  · exact h.disjoint k (List.mem_of_mem_filter hk) (List.mem_of_mem_filter hmem)
  · exact h.queued k (List.mem_of_mem_filter hk)
  · exact h.running k (List.mem_of_mem_filter hk)

theorem removeIfFinished (h : s.Listed) (i : Nat) : (s.removeIfFinished i).Listed := by
  unfold Tasks.removeIfFinished
  split_ifs
  · exact h.removeTask i
  · exact h

/-- The first task of the queue was canceled. -/
theorem pop (h : s.Listed) {queued : List Nat} (hqueued : s.queued = i :: queued) :
    Listed { s with queued := queued } := by
  have hsub : ∀ k ∈ queued, k ∈ s.queued := fun k hk => by
    rw [hqueued]; exact List.mem_cons_of_mem i hk
  have hnodup := h.nodup
  rw [hqueued] at hnodup
  exact ⟨hnodup.of_cons, fun k hk => h.disjoint k (hsub k hk), fun k hk => h.queued k (hsub k hk),
    h.running, h.waiting, h.closest⟩

end Listed

/-- The task `i` runs, and `queued` are still in the queue. -/
def begun (s : Tasks) (i : Nat) (queued : List Nat) (t : Task) : Tasks :=
  { s with
    queued := queued
    running := s.running ++ [i]
    peak := max s.peak (s.running.length + 1)
    tasks := s.tasks.set i { t with state := .running, started := true } }

/-- The first task of the queue is started. -/
theorem start_eq (h : s.Listed) {queued : List Nat} (hqueued : s.queued = i :: queued)
    (halive : (s.stateOf i).isTerminal = false) (done : Bool) :
    ∃ t, s.tasks[i]? = some t ∧ t.state = .queued ∧ t.closest = 0 ∧
      (({ s with queued := queued } : Tasks).emplace i).start i done =
        (if done then (s.begun i queued t).finish i else s.begun i queued
          t).removeIfFinished i := by
  have hmem : i ∈ s.queued := by rw [hqueued]; exact List.mem_cons_self
  obtain ⟨t, hi⟩ : ∃ t, s.tasks[i]? = some t := ⟨_, List.getElem?_eq_getElem (h.queued_lt hmem)⟩
  have hstate : s.stateOf i = .queued := by
    obtain hq | hq := h.queued i hmem
    · exact hq
    · simp [hq, TaskState.isTerminal] at halive
  have ht : t.state = .queued := (stateOf_eq hi).symm.trans hstate
  have hstarted : t.started = false := h.waiting t (List.mem_of_getElem? hi) (.inr ht)
  have hstate' : (({ s with queued := queued } : Tasks).emplace i).stateOf i = .queued := hstate
  have hi' : (({ s with queued := queued } : Tasks).emplace i).tasks[i]? = some t := hi
  refine ⟨t, hi, ht, h.closest t (List.mem_of_getElem? hi) hstarted, ?_⟩
  rw [start, hstate', modifyTask_eq hi']
  rfl

namespace Listed

theorem begun (h : s.Listed) {queued : List Nat} (hqueued : s.queued = i :: queued)
    (hi : s.tasks[i]? = some t) :
    (s.begun i queued t).Listed := by
  have hlt : i < s.tasks.length := (List.getElem?_eq_some_iff.mp hi).1
  have hnot : i ∉ queued := by
    have hnodup := h.nodup
    rw [hqueued] at hnodup
    exact (List.nodup_cons.mp hnodup).1
  have hset :
      Listed { s with
      queued := queued, tasks := s.tasks.set i { t with state := .running, started := true } } :=
    (h.pop hqueued).set hi (fun hmem => absurd hmem hnot) (fun _ => ⟨nofun, nofun⟩)
      (by rintro (h | h) <;> cases h) nofun
  refine ⟨hset.nodup, fun k hk hmem => ?_, hset.queued, ?_, hset.waiting, hset.closest⟩
  · obtain hmem | hmem := List.mem_append.mp hmem
    · exact hset.disjoint k hk hmem
    · obtain rfl : k = i := List.mem_singleton.mp hmem
      exact hnot hk
  · refine List.forall_mem_append.mpr ⟨hset.running, List.forall_mem_singleton.mpr ?_⟩
    have hself : (s.begun i queued t).stateOf i = .running := by
      rw [stateOf_eq (List.getElem?_set_self hlt)]
    exact ⟨by rw [hself]; nofun, by rw [hself]; nofun⟩

theorem start (h : s.Listed) {queued : List Nat} (hqueued : s.queued = i :: queued)
    (halive : (s.stateOf i).isTerminal = false) (done : Bool) :
    ((({ s with queued := queued } : Tasks).emplace i).start i done).Listed := by
  obtain ⟨t, hi, -, -, heq⟩ := start_eq h hqueued halive done
  have hbegun := h.begun hqueued hi
  have hnot : i ∉ (s.begun i queued t).queued := fun hmem =>
    hbegun.disjoint i hmem (List.mem_append_right _ List.mem_cons_self)
  rw [heq]
  refine removeIfFinished ?_ i
  split
  · exact hbegun.terminate rfl fun _ => hnot
  · exact hbegun

theorem dequeueLoop (done : Nat → Bool) (n : Nat) (s : Tasks) (h : s.Listed) :
    (dequeueLoop done n s).Listed := by
  induction n generalizing s with
  | zero => exact h
  | succ n ih =>
    rw [Tasks.dequeueLoop]
    split
    · exact h
    split
    · exact h
    · rename_i i queued hqueued
      dsimp only
      split
      · exact ih _ (h.pop hqueued)
      · rename_i halive
        exact ih _ (h.start hqueued (Bool.eq_false_of_not_eq_true halive) (done i))

/-- What runs is not in the queue. -/
theorem notMem_queued (h : s.Listed) (hi : s.tasks[i]? = some t) (hstarted : t.started = true)
    (ht : t.state.isTerminal = false) : t.state = .running ∧ i ∉ s.queued := by
  have hmem := List.mem_of_getElem? hi
  have hwaiting := h.waiting t hmem
  have hrunning : t.state = .running := by
    cases hstate : t.state <;> simp_all [TaskState.isTerminal]
  refine ⟨hrunning, fun hq => ?_⟩
  obtain hstate | hstate :=
    h.queued i hq <;> rw [stateOf_eq hi, hrunning] at hstate <;> cases hstate

/-- The closest set of a task that runs changes. -/
theorem setClosest (h : s.Listed) (hi : s.tasks[i]? = some t) (hstarted : t.started = true)
    (ht : t.state.isTerminal = false) (closest : Nat) :
    Listed (s.modifyTask i fun t => { t with closest := closest }) := by
  obtain ⟨hrunning, hnot⟩ := h.notMem_queued hi hstarted ht
  rw [modifyTask_eq hi]
  refine h.set hi (fun hmem => absurd hmem hnot) (fun _ => ?_) ?_ fun hs => by simp [hstarted] at hs
  · exact ⟨by rw [hrunning]; nofun, by rw [hrunning]; nofun⟩
  · rintro (hs | hs) <;> rw [hrunning] at hs <;> cases hs

theorem update (h : s.Listed) (i : Nat) (outcome : Outcome) (closest : Nat) :
    (s.update i outcome closest).Listed := by
  unfold Tasks.update
  split
  · exact h
  rename_i t hi
  split
  · exact h
  rename_i hstarted
  refine removeIfFinished ?_ i
  split
  · exact h
  rename_i ht
  obtain ⟨-, hnot⟩ := h.notMem_queued hi (by simpa using hstarted) (by simpa using ht)
  have hset := h.setClosest hi (by simpa using hstarted) (by simpa using ht) closest
  have hnot' : i ∉ (s.modifyTask i fun t => { t with closest := closest }).queued := hnot
  dsimp only
  split
  · exact hset
  · exact hset.terminate rfl fun _ => hnot'
  · split
    · exact hset.cancel
    · exact hset

theorem step (h : s.Listed) (e : Event) : (s.step e).Listed := by
  unfold Tasks.step
  split
  · exact h
  cases e with
  | find => exact h.grows s.find_grows
  | store => exact h.grows s.store_grows
  | refresh => exact h.grows (s.spawn_grows _)
  | add i prior =>
    dsimp only [react]
    split
    · rename_i hlt
      exact h.add hlt prior
    · exact h
  | dequeue done =>
    have hlock : Listed { s with locked := true } := h.congr rfl rfl rfl
    exact congr (dequeueLoop done s.queued.length _ hlock) rfl rfl rfl
  | update i outcome closest => exact h.update i outcome closest
  | cancel i => exact h.cancel
  | cancelAll => exact h.cancelAll
  | stop =>
    have hstopped : Listed { s with isRunning := false } := h.congr rfl rfl rfl
    dsimp only [react, stop]
    split
    · exact hstopped.cancelAll
    · exact h
  | updateBootstrap now => exact h.grows (s.updateBootstrap_grows now)
  | bootstrapCall j found now => exact h.grows (s.bootstrapCall_grows j found now)
  | table buckets => exact h.congr rfl rfl rfl
  | bootstrap added =>
    dsimp only [react]
    split
    · exact h
    · exact h.congr rfl rfl rfl

end Listed

theorem run_listed (n : Nat) (events : List Event) : ((init n).run events).Listed := by
  induction events using List.reverseRecOn with
  | nil => exact ⟨.nil, nofun, nofun, nofun, nofun, nofun⟩
  | append_singleton events e ih =>
    rw [run_concat]
    exact ih.step e

/-! ## The lock -/

/-- The home bucket's listener goes on to fill the other buckets. -/
def FillsBuckets (s : Tasks) : Prop :=
  s.isRunning = true ∧ s.numBucketEntries > MAX_ENTRIES_PER_BUCKET + 2 ∧ s.unfilled ≠ 0

instance (s : Tasks) : Decidable s.FillsBuckets :=
  inferInstanceAs (Decidable (s.isRunning = true ∧ s.numBucketEntries > MAX_ENTRIES_PER_BUCKET + 2 ∧
    s.unfilled ≠ 0))

/-- A task is given to the manager by the thread that holds the lock. -/
theorem spawn_stuck (hlocked : s.locked = true) (hcanceling : s.canceling = false)
    (listener : Listener) :
    (s.spawn listener).stuck = true := by
  have hcanceling' : (s.newTask listener).canceling = false := hcanceling
  have hlocked' : (s.newTask listener).locked = true := hlocked
  simp [spawn, add, hcanceling', hlocked']

theorem fillLoop_of_stuck (fill n : Nat) (hstuck : s.stuck = true) : fillLoop fill n s = s := by
  cases n with
  | zero => rfl
  | succ n => rw [fillLoop, if_pos hstuck]

theorem fillBuckets_stuck_iff (hlocked : s.locked = true) (hcanceling : s.canceling = false)
    (hstuck : s.stuck = false) :
    s.fillBuckets.stuck = true ↔ s.unfilled ≠ 0 := by
  unfold fillBuckets
  split_ifs with hunfilled
  · simp [hunfilled, hstuck]
  · obtain ⟨n, hn⟩ := Nat.exists_eq_succ_of_ne_zero hunfilled
    have hspawn : ∀ s' : Tasks, s'.locked = true → s'.canceling = false → s'.stuck = false →
        (fillLoop s.fills.length (n + 1) s').stuck = true := by
      intro s' hlocked hcanceling hstuck
      have hfirst :=
        spawn_stuck (s := { s' with ops := s'.ops + 1 }) hlocked hcanceling
          (.bucket s'.ops s.fills.length)
      rw [fillLoop, if_neg (by simp [hstuck]), fillLoop_of_stuck _ _ hfirst]
      exact hfirst
    rw [hn]
    exact iff_of_true (hspawn _ hlocked hcanceling hstuck) (by simp)

/-- A task that the manager has just started finishes: the thread is stuck if it fills the
buckets. -/
theorem finish_stuck_iff (hlocked : s.locked = true) (hcanceling : s.canceling = false)
    (hstuck : s.stuck = false) (hi : s.tasks[i]? = some t) (ht : t.state.isTerminal = false)
    (hclosest : t.closest = 0) :
    (s.finish i).stuck = true ↔ t.listener = .homeBucket ∧ s.FillsBuckets := by
  have hlt : i < s.tasks.length := (List.getElem?_eq_some_iff.mp hi).1
  have hended : (s.tasks.set i { t with state := .finished })[i]? =
      some { t with state := .finished } :=
    List.getElem?_set_self hlt
  rw [finish, terminate, stateOf_eq hi, if_neg (by simp [ht]), modifyTask_eq hi, notify, hended]
  dsimp only [listen]
  split <;> rename_i hlistener
  · simp [hlistener, complete, hstuck]
  · simp [hlistener, hclosest, complete, hstuck]
  · simp [hlistener, complete, hstuck]
  · rw [and_iff_right hlistener]
    split_ifs with hstopped hentries
    · simp_all [FillsBuckets]
    · rw [fillBuckets_stuck_iff (by exact hlocked) (by exact hcanceling) (by exact hstuck)]
      have hrunning : s.isRunning = true := by simpa using hstopped
      exact ⟨fun hunfilled => ⟨hrunning, hentries, hunfilled⟩, fun h => h.2.2⟩
    · exact iff_of_false (by simp [hstuck]) fun h => hentries h.2.1
  · simp [hlistener, complete, hstuck]
  · simp [hlistener, hstuck]

/-- What `dequeue` does with a task that it starts, when it does not get stuck. -/
structure Started (s s' : Tasks) (i : Nat) (queued : List Nat) (done : Bool) : Prop where
  queued : s'.queued = queued
  running : s'.running = if done then s.running else s.running ++ [i]
  peak : s'.peak = max s.peak (s.running.length + 1)
  locked : s'.locked = s.locked
  canceling : s'.canceling = s.canceling
  stuck : s'.stuck = false
  isRunning : s'.isRunning = s.isRunning
  buckets : s'.buckets = s.buckets
  state : done = false → s'.stateOf i = .running
  others : ∀ k < s.tasks.length, k ≠ i → s'.tasks[k]? = s.tasks[k]?

/-- The task fills the home bucket. -/
def isHome (s : Tasks) (i : Nat) : Bool := s.tasks[i]?.any (·.listener = .homeBucket)

@[simp] theorem removeIfFinished_stuck (s : Tasks) (i : Nat) :
    (s.removeIfFinished i).stuck = s.stuck := by
  unfold removeIfFinished
  split_ifs <;> rfl

theorem filter_ne_self {is : List Nat} (hi : i ∉ is) : is.filter (fun k => k ≠ i) = is :=
  List.filter_eq_self.mpr fun k hk => decide_eq_true fun hki : k = i => hi (hki ▸ hk)

/-- One round of the loop of `dequeue`. -/
theorem start_spec (h : s.Listed) {queued : List Nat} (hqueued : s.queued = i :: queued)
    (halive : (s.stateOf i).isTerminal = false) (hlocked : s.locked = true)
    (hcanceling : s.canceling = false) (hstuck : s.stuck = false) (done : Bool) :
    (((({ s with queued := queued } : Tasks).emplace i).start i done).stuck = true ↔
      done = true ∧ s.isHome i = true ∧ s.FillsBuckets) ∧
    (((({ s with queued := queued } : Tasks).emplace i).start i done).stuck = false →
      Started s ((({ s with queued := queued } : Tasks).emplace i).start i done) i
        queued done) := by
  obtain ⟨t, hi, ht, hclosest, heq⟩ := start_eq h hqueued halive done
  have hlt : i < s.tasks.length := (List.getElem?_eq_some_iff.mp hi).1
  have hbegun : (s.begun i queued t).tasks[i]? =
      some { t with state := .running, started := true } :=
    List.getElem?_set_self hlt
  have hother {k : Nat} (hk : k ≠ i) (u : Task) : (s.tasks.set i u)[k]? = s.tasks[k]? :=
    List.getElem?_set_ne hk.symm
  have hhome : s.isHome i = decide (t.listener = .homeBucket) := by simp [isHome, hi]
  rw [heq]
  cases done with
  | false =>
    have hrunning : (s.begun i queued t).stateOf i = .running := stateOf_eq hbegun
    rw [if_neg Bool.false_ne_true, removeIfFinished,
      if_neg (by simp [hrunning, TaskState.isTerminal])]
    refine ⟨by simp [begun, hstuck], fun _ => ?_⟩
    exact ⟨rfl, rfl, rfl, rfl, rfl, hstuck, rfl, rfl, fun _ => hrunning, fun k _ hk => hother hk _⟩
  | true =>
    have hiff :=
      finish_stuck_iff (s := s.begun i queued t) hlocked hcanceling hstuck hbegun rfl hclosest
    obtain ⟨nested, hgrows⟩ := terminate_grows hbegun rfl .finished
    obtain ⟨t', hi', ht'⟩ :=
      terminate_isTerminal _ hbegun (rfl : TaskState.finished.isTerminal = true)
    have hterminal : (((s.begun i queued t).finish i).stateOf i).isTerminal = true := by
      rw [finish, stateOf_eq hi']
      exact ht'
    have hnodup : i ∉ queued ∧ queued.Nodup := List.nodup_cons.mp (hqueued ▸ h.nodup)
    have hnot : i ∉ s.running := h.disjoint i (by rw [hqueued]; exact List.mem_cons_self)
    rw [if_pos rfl, removeIfFinished_stuck, hiff, hhome]
    refine ⟨by simp [FillsBuckets, begun, numBucketEntries, unfilled], fun hfree => ?_⟩
    have hremove : ((s.begun i queued t).finish i).removeIfFinished i =
        ((s.begun i queued t).finish i).removeTask i :=
      if_pos (by rw [hfree, hterminal]; rfl)
    rw [hremove]
    refine ⟨?_, ?_, hgrows.peak, hgrows.locked, hgrows.canceling, hfree, hgrows.isRunning,
      hgrows.buckets, by simp, ?_⟩
    · have hsame : ((s.begun i queued t).finish i).queued = queued := hgrows.held (.inl hlocked)
      rw [removeTask, hsame]
      exact filter_ne_self hnodup.1
    · have hsame : ((s.begun i queued t).finish i).running = s.running ++ [i] := hgrows.running
      rw [removeTask, hsame, List.filter_append, filter_ne_self hnot]
      simp
    · intro k hk hki
      have hlt' : k < ((s.tasks.set i { t with state := .running, started := true }).set i
          { t with state := .finished, started := true, nested := nested }).length := by
            simpa using hk
      refine (hgrows.getElem? hlt').trans ?_
      rw [← hother hki { t with state := .running, started := true }]
      exact List.getElem?_set_ne hki.symm

end Tasks

end Boson
