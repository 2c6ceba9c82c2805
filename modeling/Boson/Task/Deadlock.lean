import Boson.Lib.Runs
import Boson.Task.Progress
import Boson.Task.Queue

/-!
# The lock of the task manager

`dequeue` and `cancelAll` start and cancel tasks under `taskman_mtx`. While `cancelAll` runs, `add`
returns before it takes the lock. While `dequeue` runs, a task that is done as soon as it starts
calls its listeners, and the one that fills the home bucket goes on to `RoutingTable::fillBuckets`,
which gives lookups to the manager: the thread then waits for itself.

In a run the thread never gets stuck if and only if no `dequeue` comes to such a task while the
routing table has enough entries and a bucket to fill (`run_not_stuck_iff`).

- `dequeueLoop_stuck_iff` follows the loop of `dequeue` through the queue.
- Outside `dequeue` the lock is free whenever `add` asks for it (`react_free`).
- The lookup for the home bucket is done at once if neither the bootstrap nor the routing table has
  a node to ask (`LookupTask.homeBucket_finished_iff`).
-/

namespace Boson

namespace Tasks

variable {s : Tasks} {i : Nat} {t : Task}

/-- A task of the queue that is in `running` after `dequeue` has passed it. -/
def stays (s : Tasks) (done : Nat → Bool) (i : Nat) : Bool := !(s.stateOf i).isTerminal && !done i

/-- A task of the queue that calls `add` as soon as it is started. -/
def deadly (s : Tasks) (done : Nat → Bool) (i : Nat) : Bool :=
  !(s.stateOf i).isTerminal && done i && s.isHome i

/-- The first of a list, or one of the others. -/
theorem exists_split_cons {α : Type} {a : α} {l : List α} {P : List α → α → Prop} :
    (∃ pre x post, a :: l = pre ++ x :: post ∧ P pre x) ↔
      P [] a ∨ ∃ pre x post, l = pre ++ x :: post ∧ P (a :: pre) x := by
  constructor
  · rintro ⟨pre, x, post, heq, hP⟩
    cases pre with
    | nil =>
      obtain ⟨rfl, rfl⟩ := List.cons.inj heq
      exact .inl hP
    | cons b pre =>
      obtain ⟨rfl, rfl⟩ := List.cons.inj heq
      exact .inr ⟨pre, x, post, rfl, hP⟩
  · rintro (hP | ⟨pre, x, post, rfl, hP⟩)
    · exact ⟨[], a, l, rfl, hP⟩
    · exact ⟨a :: pre, x, post, rfl, hP⟩

theorem dequeueLoop_of_stuck (done : Nat → Bool) (n : Nat) (hstuck : s.stuck = true) :
    dequeueLoop done n s = s := by
  cases n with
  | zero => rfl
  | succ n => rw [dequeueLoop, if_pos (by simp [hstuck])]

/-- A state of the loop of `dequeue`. `s₀` is the state before the loop. -/
structure Dequeuing (s₀ s : Tasks) : Prop where
  listed : s.Listed
  locked : s.locked = true
  canceling : s.canceling = false
  stuck : s.stuck = false
  same : ∀ k ∈ s.queued, s.tasks[k]? = s₀.tasks[k]?
  isRunning : s.isRunning = s₀.isRunning
  buckets : s.buckets = s₀.buckets

namespace Dequeuing

variable {s₀ : Tasks} {queued : List Nat} {done : Nat → Bool}

theorem lock (h : s.Listed) (hcanceling : s.canceling = false) (hstuck : s.stuck = false) :
    Dequeuing s { s with locked := true } :=
  ⟨h.congr rfl rfl rfl, rfl, hcanceling, hstuck, fun _ _ => rfl, rfl, rfl⟩

theorem stateOf (h : Dequeuing s₀ s) (hi : i ∈ s.queued) : s.stateOf i = s₀.stateOf i := by
  rw [Tasks.stateOf, Tasks.stateOf, h.same i hi]

theorem isHome (h : Dequeuing s₀ s) (hi : i ∈ s.queued) : s.isHome i = s₀.isHome i := by
  rw [Tasks.isHome, Tasks.isHome, h.same i hi]

theorem fillsBuckets_iff (h : Dequeuing s₀ s) : s.FillsBuckets ↔ s₀.FillsBuckets := by
  simp only [FillsBuckets, numBucketEntries, unfilled, h.isRunning, h.buckets]

theorem mem_queued (hqueued : s.queued = i :: queued) {k : Nat} (hk : k ∈ queued) :
    k ∈ s.queued := by
  rw [hqueued]
  exact List.mem_cons_of_mem i hk

theorem pop (h : Dequeuing s₀ s) (hqueued : s.queued = i :: queued) :
    Dequeuing s₀ { s with queued := queued } where
  listed := h.listed.pop hqueued
  locked := h.locked
  canceling := h.canceling
  stuck := h.stuck
  same k hk := h.same k (mem_queued hqueued hk)
  isRunning := h.isRunning
  buckets := h.buckets

theorem start (h : Dequeuing s₀ s) (hqueued : s.queued = i :: queued)
    (halive : (s.stateOf i).isTerminal = false) {finished : Bool}
    (hstarted : Started s ((({ s with queued := queued } : Tasks).emplace i).start i finished) i
      queued finished) :
    Dequeuing s₀ ((({ s with queued := queued } : Tasks).emplace i).start i finished) where
  listed := h.listed.start hqueued halive finished
  locked := hstarted.locked.trans h.locked
  canceling := hstarted.canceling.trans h.canceling
  stuck := hstarted.stuck
  same k hk := by
    rw [hstarted.queued] at hk
    have hki : k ≠ i := by
      rintro rfl
      exact (List.nodup_cons.mp (hqueued ▸ h.listed.nodup)).1 hk
    have hmem := mem_queued hqueued hk
    rw [hstarted.others k (h.listed.queued_lt hmem) hki, h.same k hmem]
  isRunning := hstarted.isRunning.trans h.isRunning
  buckets := hstarted.buckets.trans h.buckets

/-- The loop starts the first task of the queue and gets stuck exactly at a deadly one. -/
theorem start_stuck_iff (h : Dequeuing s₀ s) (hqueued : s.queued = i :: queued)
    (halive : (s.stateOf i).isTerminal = false) :
    ((({ s with queued := queued } : Tasks).emplace i).start i (done i)).stuck = true ↔
      s₀.FillsBuckets ∧ s₀.deadly done i = true := by
  have hmem : i ∈ s.queued := by
    rw [hqueued]
    exact List.mem_cons_self
  have halive' : (s₀.stateOf i).isTerminal = false := h.stateOf hmem ▸ halive
  rw [(start_spec h.listed hqueued halive h.locked h.canceling h.stuck (done i)).1, h.isHome hmem,
    h.fillsBuckets_iff, deadly, halive']
  simp only [Bool.not_false, Bool.true_and, Bool.and_eq_true]
  tauto

end Dequeuing

/-- The loop of `dequeue` gets stuck at a task that it comes to. -/
theorem dequeueLoop_stuck_iff (s₀ : Tasks) (done : Nat → Bool) (n : Nat) (s : Tasks)
    (h : Dequeuing s₀ s) (hn : s.queued.length ≤ n) :
    (dequeueLoop done n s).stuck = true ↔
      s₀.FillsBuckets ∧ ∃ pre i post, s.queued = pre ++ i :: post ∧
        s.running.length + (pre.filter (s₀.stays done)).length ≤ MAX_ACTIVE_TASKS ∧
          s₀.deadly done i = true := by
  induction n generalizing s with
  | zero =>
    have hnil : s.queued = [] := List.length_eq_zero_iff.mp (Nat.le_zero.mp hn)
    simp [dequeueLoop, h.stuck, hnil]
  | succ n ih =>
    rw [dequeueLoop]
    cases hqueued : s.queued with
    | nil => simp [h.stuck]
    | cons i queued =>
      have hmem : i ∈ s.queued := by
        rw [hqueued]
        exact List.mem_cons_self
      have hlength : queued.length ≤ n := by
        rw [hqueued, List.length_cons] at hn
        omega
      rw [exists_split_cons]
      by_cases hcan : s.running.length ≤ MAX_ACTIVE_TASKS
      · rw [if_neg (by simp [h.stuck, canStartTask, h.canceling, hcan])]
        dsimp only
        split
        · -- the first one was canceled
          rename_i hterminal
          have hterminal' : (s₀.stateOf i).isTerminal = true := h.stateOf hmem ▸ hterminal
          have hdeadly : s₀.deadly done i = false := by simp [deadly, hterminal']
          have hstays : s₀.stays done i = false := by simp [stays, hterminal']
          rw [ih _ (h.pop hqueued) hlength]
          simp [hdeadly, hstays]
        · rename_i hterminal
          have halive : (s.stateOf i).isTerminal = false := Bool.eq_false_of_not_eq_true hterminal
          have halive' : (s₀.stateOf i).isTerminal = false := h.stateOf hmem ▸ halive
          have hiff :
              ((({ s with queued := queued } : Tasks).emplace i).start i (done i)).stuck = true ↔
              s₀.FillsBuckets ∧ s₀.deadly done i = true := h.start_stuck_iff hqueued halive
          cases hnext :
            ((({ s with queued := queued } : Tasks).emplace i).start i (done i)).stuck with
          | true =>
            obtain ⟨hfills, hdeadly⟩ := hiff.mp hnext
            rw [dequeueLoop_of_stuck done n hnext]
            exact iff_of_true hnext ⟨hfills, .inl ⟨by simpa using hcan, hdeadly⟩⟩
          | false =>
            have hs :=
              (start_spec h.listed hqueued halive h.locked h.canceling h.stuck (done i)).2 hnext
            rw [ih _ (h.start hqueued halive hs)
              ((congrArg List.length hs.queued).trans_le hlength), hs.queued, hs.running]
            refine and_congr_right fun hfills => ?_
            have hdeadly : s₀.deadly done i = false := by
              by_contra hdeadly
              exact absurd (hiff.mpr ⟨hfills, by simpa using hdeadly⟩) (by simp [hnext])
            cases hdone : done i with
            | true => simp [hdeadly, stays, hdone]
            | false => simp [hdeadly, stays, hdone, halive', Nat.add_assoc, Nat.add_comm 1]
      · rw [if_pos (by simp [canStartTask, hcan]), h.stuck]
        refine iff_of_false Bool.false_ne_true ?_
        rintro ⟨-, ⟨hle, -⟩ | ⟨pre, k, post, -, hle, -⟩⟩ <;> omega

/-- While no task is started, the lock is free when `add` asks for it. -/
structure Free (s : Tasks) : Prop where
  canceling : s.canceling = false
  locked : s.locked = s.stuck

theorem Free.grows {s' : Tasks} (h : s.Free) (hstuck : s.stuck = false) (hgrows : Grows s s') :
    s'.Free ∧ s'.stuck = false := by
  have hlocked : s.locked = false := h.locked.trans hstuck
  have hsame := (hgrows.stuck (.inl hlocked)).trans hstuck
  exact ⟨⟨hgrows.canceling.trans h.canceling, by rw [hgrows.locked, hlocked, hsame]⟩, hsame⟩

theorem Free.terminate (h : s.Free) (hstuck : s.stuck = false) (i : Nat) (state : TaskState) :
    (s.terminate i state).Free ∧ (s.terminate i state).stuck = false := by
  cases hi : s.tasks[i]? with
  | none => rw [terminate_eq_self_of_none hi]; exact ⟨h, hstuck⟩
  | some t =>
    cases ht : t.state.isTerminal with
    | true => rw [terminate_eq_self hi ht]; exact ⟨h, hstuck⟩
    | false =>
      obtain ⟨nested, hgrows⟩ := terminate_grows hi ht state
      exact Free.grows (s :=
        { s with tasks := s.tasks.set i { t with state := state, nested := nested } })
        ⟨h.canceling, h.locked⟩ hstuck hgrows

theorem Free.cancel (h : s.Free) (hstuck : s.stuck = false) (i : Nat) :
    (s.cancel i).Free ∧ (s.cancel i).stuck = false := by
  obtain ⟨hfirst, hstuck'⟩ := h.terminate hstuck i .canceled
  unfold Tasks.cancel
  dsimp only
  split
  · exact hfirst.terminate hstuck' _ _
  · exact ⟨hfirst, hstuck'⟩

theorem Free.removeIfFinished (h : s.Free ∧ s.stuck = false) (i : Nat) :
    (s.removeIfFinished i).Free ∧ (s.removeIfFinished i).stuck = false := by
  unfold Tasks.removeIfFinished
  split
  · exact ⟨⟨h.1.canceling, h.1.locked⟩, h.2⟩
  · exact h

theorem Free.add (h : s.Free) (hstuck : s.stuck = false) (i : Nat) (prior : Bool) :
    (s.add i prior).Free ∧ (s.add i prior).stuck = false := by
  have hlocked : s.locked = false := h.locked.trans hstuck
  rw [Tasks.add, if_neg (by simp [h.canceling]), if_neg (by simp [hlocked])]
  split
  · exact ⟨⟨h.canceling, h.locked⟩, hstuck⟩
  · exact ⟨⟨h.canceling, h.locked⟩, hstuck⟩
  · exact ⟨h, hstuck⟩

theorem Free.update (h : s.Free) (hstuck : s.stuck = false) (i : Nat) (outcome : Outcome)
    (closest : Nat) :
    (s.update i outcome closest).Free ∧ (s.update i outcome closest).stuck = false := by
  unfold Tasks.update
  split
  · exact ⟨h, hstuck⟩
  split
  · exact ⟨h, hstuck⟩
  refine Free.removeIfFinished ?_ i
  split
  · exact ⟨h, hstuck⟩
  have hset : (s.modifyTask i fun t => { t with closest := closest }).Free :=
    ⟨h.canceling, h.locked⟩
  dsimp only
  split
  · exact ⟨hset, hstuck⟩
  · exact hset.terminate hstuck i _
  · split
    · exact hset.cancel hstuck i
    · exact ⟨hset, hstuck⟩

theorem cancelAll_free (hstuck : s.stuck = false) : s.cancelAll.Free ∧
    s.cancelAll.stuck = false := by
  have hlists :=
    foldl_cancel_lists (s.running ++ s.queued) { s with locked := true, canceling := true } rfl
  have hfree :
      ((s.running ++ s.queued).foldl Tasks.cancel
      { s with locked := true, canceling := true }).stuck = false :=
    (congrArg Lists.stuck hlists).trans hstuck
  rw [cancelAll_eq]
  exact ⟨⟨rfl, hstuck.trans hfree.symm⟩, hfree⟩

theorem terminate_canceling (s : Tasks) (i : Nat) (state : TaskState) :
    (s.terminate i state).canceling = s.canceling := by
  cases hi : s.tasks[i]? with
  | none => rw [terminate_eq_self_of_none hi]
  | some t =>
    cases ht : t.state.isTerminal with
    | true => rw [terminate_eq_self hi ht]
    | false =>
      obtain ⟨nested, hgrows⟩ := terminate_grows hi ht state
      exact hgrows.canceling

theorem start_canceling (s : Tasks) (i : Nat) (done : Bool) :
    (s.start i done).canceling = s.canceling := by
  have hremove (s' : Tasks) : (s'.removeIfFinished i).canceling = s'.canceling := by
    unfold removeIfFinished
    split_ifs <;> rfl
  unfold start
  dsimp only
  split_ifs
  · exact (hremove _).trans (terminate_canceling _ i .finished)
  · exact hremove _
  · rfl

theorem dequeueLoop_canceling (done : Nat → Bool) (n : Nat) (s : Tasks) :
    (dequeueLoop done n s).canceling = s.canceling := by
  induction n generalizing s with
  | zero => rfl
  | succ n ih =>
    rw [dequeueLoop]
    split
    · rfl
    split
    · rfl
    · dsimp only
      split
      · exact ih _
      · exact (ih _).trans (start_canceling _ _ _)

/-- The event makes the thread that handles it wait for itself: a `dequeue` that comes to a task for
the home bucket, which is done at once and has other buckets to fill. -/
def Deadlocks (s : Tasks) : Event → Prop
  | .dequeue done => s.stuck = false ∧ s.FillsBuckets ∧ ∃ pre i post, s.queued = pre ++ i :: post ∧
      s.running.length + (pre.filter (s.stays done)).length ≤ MAX_ACTIVE_TASKS ∧
        s.deadly done i = true
  | _ => False

theorem dequeue_free (h : s.Listed) (hfree : s.Free) (hstuck : s.stuck = false)
    (done : Nat → Bool) :
    (s.dequeue done).Free ∧ ((s.dequeue done).stuck = true ↔ s.Deadlocks (.dequeue done)) := by
  refine ⟨⟨(dequeueLoop_canceling done _ _).trans hfree.canceling, rfl⟩, ?_⟩
  have hiff := dequeueLoop_stuck_iff s done s.queued.length { s with locked := true }
    (.lock h hfree.canceling hstuck) le_rfl
  exact hiff.trans (and_iff_right hstuck).symm

/-- Every other event finds the lock free. -/
theorem react_free (hfree : s.Free) (hstuck : s.stuck = false) {e : Event}
    (he : ∀ done, e ≠ .dequeue done) :
    (s.react e).Free ∧ (s.react e).stuck = false := by
  cases e with
  | find => exact hfree.grows hstuck s.find_grows
  | store => exact hfree.grows hstuck s.store_grows
  | refresh => exact hfree.grows hstuck (s.spawn_grows _)
  | add i prior =>
    dsimp only [react]
    split
    · exact hfree.add hstuck i prior
    · exact ⟨hfree, hstuck⟩
  | dequeue done => exact absurd rfl (he done)
  | update i outcome closest => exact hfree.update hstuck i outcome closest
  | cancel i => exact hfree.cancel hstuck i
  | cancelAll => exact cancelAll_free hstuck
  | stop =>
    dsimp only [react, stop]
    split
    · exact cancelAll_free (s := { s with isRunning := false }) hstuck
    · exact ⟨hfree, hstuck⟩
  | updateBootstrap now => exact hfree.grows hstuck (s.updateBootstrap_grows now)
  | bootstrapCall j found now => exact hfree.grows hstuck (s.bootstrapCall_grows j found now)
  | table buckets => exact ⟨⟨hfree.canceling, hfree.locked⟩, hstuck⟩
  | bootstrap added =>
    dsimp only [react]
    split
    · exact ⟨hfree, hstuck⟩
    · exact ⟨⟨hfree.canceling, hfree.locked⟩, hstuck⟩

/-- One event. -/
theorem step_free (h : s.Listed) (hfree : s.Free) (e : Event) :
    (s.step e).Free ∧ ((s.step e).stuck = true ↔ s.stuck = true ∨ s.Deadlocks e) := by
  cases hstuck : s.stuck with
  | true =>
    rw [step, if_pos hstuck]
    exact ⟨hfree, by simp [hstuck]⟩
  | false =>
    rw [step, if_neg (by simp [hstuck])]
    by_cases he : ∃ done, e = .dequeue done
    · obtain ⟨done, rfl⟩ := he
      obtain ⟨hnext, hiff⟩ := dequeue_free h hfree hstuck done
      exact ⟨hnext, hiff.trans (by simp)⟩
    · obtain ⟨hnext, hsame⟩ := react_free hfree hstuck fun done h => he ⟨done, h⟩
      refine ⟨hnext, iff_of_false (by simp [hsame]) ?_⟩
      rintro (h | h)
      · cases h
      · cases e with
        | dequeue done => exact he ⟨done, rfl⟩
        | _ => exact h

theorem run_free (n : Nat) (events : List Event) : ((init n).run events).Free := by
  induction events using List.reverseRecOn with
  | nil => exact ⟨rfl, rfl⟩
  | append_singleton events e ih =>
    rw [run_concat]
    exact (step_free (run_listed n events) ih e).1

/-- In a run the thread never waits for itself, if and only if none of its events makes it do so. -/
theorem run_not_stuck_iff (n : Nat) (events : List Event) :
    ((init n).run events).stuck = false ↔
      Runs.Every (fun pre e => ¬ ((init n).run pre).Deadlocks e) events := by
  refine Runs.iff_every (Q := fun pre => ((init n).run pre).stuck = false) rfl
    (fun pre e => ?_) events
  rw [← Bool.not_eq_true, ← Bool.not_eq_true, run_concat,
    (step_free (run_listed n pre) (run_free n pre) e).2, not_or]

/-- The bootstrap nodes do not answer, and the lookup for the home bucket has no node to ask: it is
done when `dequeue` starts it. -/
theorem homeBucket_stuck : ¬ ∀ (n : Nat) (events : List Event),
    ((init n).run events).stuck = false := by
  intro h
  have hstuck := h 1
    [.table [8, 3], .updateBootstrap 240000, .bootstrapCall 0 0 240001, .dequeue fun _ => true]
  exact absurd hstuck (by decide +kernel)

end Tasks

/-! ## When a lookup is done at once -/

namespace LookupTask

variable {t : LookupTask}

/-- A lookup without a call in flight and with an empty closest set is done if it has no candidates;
otherwise it asks one of them. -/
theorem serializedUpdate_finished_iff (hstate : t.state = .running) (hidle : t.inFlight = [])
    (hset : t.closestSet.isEligible = false)
    (hfresh : ∀ n ∈ t.closestCandidates.closest, n.isEligible = true)
    (now : UInt64) : (t.serializedUpdate now).state = .finished ↔ t.closestCandidates.size = 0 := by
  have hrunning : t.isFinished = false := by simp [isFinished, hstate, TaskState.isTerminal]
  have hdone : t.isDone = decide (t.closestCandidates.size = 0) := by simp [isDone, hidle, hset]
  have hupdate (t' : LookupTask) :
      (if t'.isFinished then { t' with isRunning := false } else t').state = t'.state := by
    split <;> rfl
  rw [serializedUpdate_eq, hupdate]
  by_cases hsize : t.closestCandidates.size = 0
  · have hfinish : t.finishIfDone.state = .finished := by
      rw [finishIfDone, if_pos (by simp [hdone, hsize]), finish, terminate, hrunning]
      rfl
    refine iff_of_true ?_ hsize
    rw [afterChecks, if_neg (by simp [isFinished, hfinish, TaskState.isTerminal]), hfinish]
  · obtain ⟨hst, -, hend, -, hgrows⟩ := update_spec ∅ t now
    have hasks : (t.update now).inFlight ≠ [] := by
      intro hnil
      have hsame : t.update now = t := hgrows.resolve_right (by simp [hnil])
      rw [hsame, hidle] at hend
      have hnext :=
        ClosestCandidates.next_eq_none.mp
          (hend.resolve_left (by simp [MAX_CONCURRENT_TASK_REQUESTS]))
      obtain ⟨n, hn⟩ := List.exists_mem_of_length_pos (Nat.pos_of_ne_zero hsize)
      exact absurd (hfresh n hn) (by simp [hnext n hn])
    refine iff_of_false ?_ hsize
    have hwaits : t.finishIfDone = t := by rw [finishIfDone, if_neg (by simp [hdone, hsize])]
    have hnot : (t.update now).isDone = false := by
      simp [isDone, hasks, isFinished, hst, hstate, TaskState.isTerminal]
    rw [afterChecks, hwaits,
      if_pos (by simp [canDoRequest, hidle, hrunning, MAX_CONCURRENT_TASK_REQUESTS]),
      finishIfDone, hnot]
    simp [hst, hstate]

/-- A lookup that has asked nobody is done as soon as it is started if it has no node to ask. -/
theorem start_finished_iff (hstate : t.state = .initial) (hidle : t.inFlight = [])
    (hset : t.closestSet.isEligible = false)
    (hfresh : ∀ n ∈ t.closestCandidates.closest, n.isEligible = true) (nodes : List NodeRef)
    (now : UInt64) :
    (t.step (now, .start nodes)).state = .finished ↔
    (t.addCandidates nodes).closestCandidates.size = 0 := by
  have hsame :
      ({ t with state := .running, isRunning := true }.addCandidates nodes).closestCandidates =
      (t.addCandidates nodes).closestCandidates := by
    unfold addCandidates
    dsimp only
    split_ifs <;> rfl
  have hstart : t.step (now, .start nodes) =
      ({ t with state := .running, isRunning := true }.addCandidates
        nodes).serializedUpdate now := by
    simp [step, handle, hstate]
  obtain ⟨cc, heq, -, -, hnew⟩ :=
    addCandidates_eq { t with state := .running, isRunning := true } nodes
  rw [← hsame, hstart, heq]
  exact serializedUpdate_finished_iff (t :=
    { t with state := .running, isRunning := true, closestCandidates := cc }) rfl
    hidle hset (fun n hn => (hnew n hn).elim (hfresh n) id) now

/-- The lookup of `fillHomeBucket`, with the nodes that the bootstrap has found. -/
theorem homeBucket_finished_iff (lookup : Lookup) (found nodes : List NodeRef) (now : UInt64) :
    (((new lookup).addCandidates found).step (now, .start nodes)).state = .finished ↔
      (((new lookup).addCandidates found).addCandidates nodes).closestCandidates.size = 0 := by
  obtain ⟨cc, heq, -, -, hfresh⟩ := addCandidates_eq (new lookup) found
  rw [heq]
  exact start_finished_iff rfl rfl rfl (fun n hn =>
    (hfresh n hn).resolve_left (by simp [new])) nodes now

end LookupTask

end Boson
