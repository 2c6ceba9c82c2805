import Boson.Task.Deadlock

/-!
# The bounds of the task manager

A task is in one of the lists at most, and there once; what is in `running` runs; and `running`
never holds more than `MAX_ACTIVE_TASKS`. This is so in every run (`run_bounded`) in which

- no `dequeue` starts a task while `running` is full: `canStartTask` admits one more,
- no task of `running` is canceled from outside: `cancel` and `cancelAll` leave it in the list,
- a task that already runs is only added if it is in no list and `running` is not full.
-/

namespace Boson

namespace Tasks

open Ledger

variable {s : Tasks} {i : Nat} {t : Task}

/-- The lists as they should be. A thread that is stuck has not come to the end of its step. -/
structure Bounded (s : Tasks) : Prop where
  nodup : (s.queued ++ s.running).Nodup
  running : s.stuck = false → ∀ i ∈ s.running, s.stateOf i = .running
  length : s.running.length ≤ s.peak
  peak : s.peak ≤ MAX_ACTIVE_TASKS

/-- What runs is in the list once, and the list is not too long. -/
structure Full (s : Tasks) : Prop where
  nodup : s.running.Nodup
  running : s.stuck = false → ∀ i ∈ s.running, s.stateOf i = .running
  length : s.running.length ≤ s.peak
  peak : s.peak ≤ MAX_ACTIVE_TASKS

/-- What a task that ends leaves as it was. -/
theorem terminate_frame (s : Tasks) (i : Nat) (state : TaskState) :
    (s.terminate i state).running = s.running ∧ (s.terminate i state).peak = s.peak ∧
      ∀ k < s.tasks.length, k ≠ i → (s.terminate i state).tasks[k]? = s.tasks[k]? := by
  cases hi : s.tasks[i]? with
  | none => rw [terminate_eq_self_of_none hi]; exact ⟨rfl, rfl, fun _ _ _ => rfl⟩
  | some t =>
    cases ht : t.state.isTerminal with
    | true => rw [terminate_eq_self hi ht]; exact ⟨rfl, rfl, fun _ _ _ => rfl⟩
    | false =>
      obtain ⟨nested, hgrows⟩ := terminate_grows hi ht state
      refine ⟨hgrows.running, hgrows.peak, fun k hk hki => ?_⟩
      rw [hgrows.getElem? (by simpa using hk)]
      exact List.getElem?_set_ne hki.symm

/-- What `start` does to `running`, also when the thread gets stuck. -/
theorem start_running (h : s.Listed) {queued : List Nat} (hqueued : s.queued = i :: queued)
    (halive : (s.stateOf i).isTerminal = false) (done : Bool) :
    ((({ s with queued := queued } : Tasks).emplace i).start i done).running.Sublist
    (s.running ++ [i]) ∧
      ((({ s with queued := queued } : Tasks).emplace i).start i done).peak =
        max s.peak (s.running.length + 1) := by
  have hremove (s' : Tasks) :
      (s'.removeIfFinished i).running.Sublist s'.running ∧
        (s'.removeIfFinished i).peak = s'.peak := by
    unfold removeIfFinished
    split
    · exact ⟨List.filter_sublist, rfl⟩
    · exact ⟨.refl _, rfl⟩
  obtain ⟨t, hi, -, -, heq⟩ := start_eq h hqueued halive done
  rw [heq]
  obtain ⟨hsub, hpeak⟩ :=
    hremove (if done then (s.begun i queued t).finish i else s.begun i queued t)
  cases done with
  | false => exact ⟨hsub, hpeak⟩
  | true =>
    obtain ⟨hrunning, hpeak', -⟩ := terminate_frame (s.begun i queued t) i .finished
    have hbegun : ((s.begun i queued t).finish i).running.Sublist (s.running ++ [i]) := by
      rw [finish, hrunning]
      exact List.Sublist.refl _
    exact ⟨hsub.trans hbegun, hpeak.trans hpeak'⟩

namespace Full

/-- The lists stay, and so do the states of what runs. -/
theorem congr {s' : Tasks} (h : s.Full) (hrunning : s'.running = s.running)
    (hpeak : s'.peak = s.peak)
    (hstuck : s'.stuck = false → s.stuck = false)
    (hstate : ∀ k ∈ s.running, s'.stateOf k = s.stateOf k) : s'.Full := by
  refine ⟨by rw [hrunning]; exact h.nodup, fun hs k hk => ?_, by
    rw [hrunning, hpeak]; exact h.length,
    by rw [hpeak]; exact h.peak⟩
  rw [hrunning] at hk
  rw [hstate k hk]
  exact h.running (hstuck hs) k hk

theorem grows {s' : Tasks} (h : s.Full) (hlisted : s.Listed) (hstuck : s.stuck = false)
    (hgrows : Grows s s') : s'.Full :=
  h.congr hgrows.running hgrows.peak (fun _ => hstuck) fun _ hk =>
    hgrows.stateOf (hlisted.running_lt hk)

/-- A task that is not in `running` ends. -/
theorem terminate (h : s.Full) (hlisted : s.Listed) (hstuck : s.stuck = false) (hi : i ∉ s.running)
    (state : TaskState) :
    (s.terminate i state).Full := by
  obtain ⟨hrunning, hpeak, hothers⟩ := terminate_frame s i state
  refine h.congr hrunning hpeak (fun _ => hstuck) fun k hk => ?_
  rw [stateOf, stateOf, hothers k (hlisted.running_lt hk) fun hki => hi (hki ▸ hk)]

/-- A task of `running` ends, and is removed. -/
theorem terminate_removeTask (h : s.Full) (hlisted : s.Listed) (hstuck : s.stuck = false) (i : Nat)
    (state : TaskState) :
    ((s.terminate i state).removeTask i).Full := by
  obtain ⟨hrunning, hpeak, hothers⟩ := terminate_frame s i state
  have hsub : ((s.terminate i state).removeTask i).running.Sublist s.running := by
    rw [removeTask, hrunning]
    exact List.filter_sublist
  refine ⟨h.nodup.sublist hsub, fun _ k hk => ?_, ?_, ?_⟩
  · have hk' : k ∈ s.running := hsub.subset hk
    have hki : k ≠ i := by simpa using (List.mem_filter.mp hk).2
    have hsame : ((s.terminate i state).removeTask i).stateOf k = s.stateOf k := by
      rw [stateOf, stateOf, ← hothers k (hlisted.running_lt hk') hki]
      rfl
    rw [hsame]
    exact h.running hstuck k hk'
  · exact (hsub.length_le.trans h.length).trans_eq hpeak.symm
  · exact hpeak.trans_le h.peak

theorem add (h : s.Full) (hstuck : s.stuck = false) (hlocked : s.locked = false)
    (hlisted : s.Listed)
    (horderly : s.stateOf i = .running → i ∉ s.running ∧ s.running.length < MAX_ACTIVE_TASKS)
    (prior : Bool) :
    (s.add i prior).Full := by
  unfold Tasks.add
  split
  · exact h
  rw [if_neg (by simp [hlocked])]
  split
  · rename_i hstate
    obtain ⟨hnot, hlength⟩ := horderly hstate
    refine ⟨h.nodup.append (List.nodup_singleton i) (by simpa using hnot), fun _ => ?_, ?_, ?_⟩
    · exact List.forall_mem_append.mpr ⟨h.running hstuck, List.forall_mem_singleton.mpr hstate⟩
    · simp [emplace]
    · have := h.peak
      simp only [emplace]
      omega
  · rename_i hstate
    refine h.congr rfl rfl (fun _ => hstuck) fun k hk => ?_
    have hki : i ≠ k := by
      rintro rfl
      exact (hlisted.running i hk).1 hstate
    rw [enqueue, stateOf, stateOf, modifyTask]
    simp [hki]
  · exact h

/-- A task that ends is removed. -/
theorem terminate_removeIfFinished (h : s.Full) (hlisted : s.Listed) (hfree : s.Free)
    (hstuck : s.stuck = false) {t : Task} (hi : s.tasks[i]? = some t) {state : TaskState}
    (hstate : state.isTerminal = true) :
    ((s.terminate i state).removeIfFinished i).Full := by
  obtain ⟨u, hu, hterminal⟩ := s.terminate_isTerminal hi hstate
  rw [removeIfFinished, if_pos]
  · exact h.terminate_removeTask hlisted hstuck i state
  · rw [(hfree.terminate hstuck i state).2, stateOf_eq hu, hterminal]
    rfl

theorem setClosest (h : s.Full) (hstuck : s.stuck = false) (i closest : Nat) :
    (s.modifyTask i fun t => { t with closest := closest }).Full := by
  refine h.congr rfl rfl (fun _ => hstuck) fun k _ => ?_
  rw [modifyTask, stateOf, stateOf, List.getElem?_modify]
  cases s.tasks[k]? with
  | none => rfl
  | some u => by_cases hik : i = k <;> simp [hik]

theorem update (h : s.Full) (hlisted : s.Listed) (hlinked : s.ledger.Linked) (hfree : s.Free)
    (hstuck : s.stuck = false)
    (i : Nat) (outcome : Outcome) (closest : Nat) : (s.update i outcome closest).Full := by
  unfold Tasks.update
  split
  · exact h
  rename_i t hi
  split
  · exact h
  rename_i hstarted
  split
  · rename_i ht
    have hsame : ((s.terminate i .finished).removeIfFinished i).Full :=
      h.terminate_removeIfFinished hlisted hfree hstuck hi rfl
    rwa [terminate_eq_self hi ht] at hsame
  rename_i ht
  have ht' : t.state.isTerminal = false := Bool.eq_false_of_not_eq_true ht
  have hlt : i < s.tasks.length := (List.getElem?_eq_some_iff.mp hi).1
  have hi' : (s.modifyTask i fun t => { t with closest := closest }).tasks[i]? =
      some { t with closest := closest } := by
    rw [modifyTask_eq hi, List.getElem?_set_self hlt]
  have hlisted' := hlisted.setClosest hi (by simpa using hstarted) ht' closest
  have hclosest : Moves (fun _ => False) s.ledger (s.modifyTask i fun t =>
      { t with closest := closest }).ledger :=
    setClosest_moves hi (by simpa using hstarted) ht' closest
  have hlinked' := hlinked.moves hclosest
  have hfree' : (s.modifyTask i fun t => { t with closest := closest }).Free :=
    ⟨hfree.canceling, hfree.locked⟩
  have hfull' := h.setClosest hstuck i closest
  have hwaits :
      ((s.modifyTask i fun t => { t with closest := closest }).removeIfFinished i).Full := by
    rw [removeIfFinished, stateOf_eq hi', if_neg (by simp [ht'])]
    exact hfull'
  dsimp only
  split
  · exact hwaits
  · exact hfull'.terminate_removeIfFinished hlisted' hfree' hstuck hi' rfl
  · split
    · rw [cancel_eq_terminate hlinked' hi' ht']
      exact hfull'.terminate_removeIfFinished hlisted' hfree' hstuck hi' rfl
    · exact hwaits

theorem cancel (h : s.Full) (hlisted : s.Listed) (hlinked : s.ledger.Linked)
    (hstuck : s.stuck = false) (hnot : i ∉ s.running)
    (hnested : ∀ n, s.tasks[i]?.bind (·.nested) = some n → n ∉ s.running) :
    (s.cancel i).Full := by
  cases hi : s.tasks[i]? with
  | none =>
    rw [Tasks.cancel, terminate_eq_self_of_none hi, hi]
    exact h
  | some t =>
    cases ht : t.state.isTerminal with
    | false =>
      rw [cancel_eq_terminate hlinked hi ht]
      exact h.terminate hlisted hstuck hnot .canceled
    | true =>
      rw [Tasks.cancel, terminate_eq_self hi ht]
      split
      · rename_i n hn
        exact h.terminate hlisted hstuck (hnested n hn) .canceled
      · exact h

theorem cancelAll (h : s.Full) (hrunning : s.running = []) : s.cancelAll.Full := by
  have hlists :=
    foldl_cancel_lists (s.running ++ s.queued) { s with locked := true, canceling := true } rfl
  have hempty : s.cancelAll.running = s.running := by
    rw [cancelAll_eq]
    exact congrArg Lists.running hlists
  have hpeak : s.cancelAll.peak = s.peak := by
    rw [cancelAll_eq]
    exact congrArg Lists.peak hlists
  refine ⟨by rw [hempty]; exact h.nodup, ?_, by rw [hempty, hpeak]; exact h.length, by
    rw [hpeak]; exact h.peak⟩
  rw [hempty, hrunning]
  exact fun _ => nofun

/-- The first task of the queue is started, while `running` has room for it. -/
theorem start (h : s.Full) (hlisted : s.Listed) {queued : List Nat}
    (hqueued : s.queued = i :: queued) (halive : (s.stateOf i).isTerminal = false)
    (hlocked : s.locked = true) (hcanceling : s.canceling = false) (hstuck : s.stuck = false)
    (hroom : s.running.length < MAX_ACTIVE_TASKS) (done : Bool) :
    ((({ s with queued := queued } : Tasks).emplace i).start i done).Full := by
  have hnot : i ∉ s.running := hlisted.disjoint i (by rw [hqueued]; exact List.mem_cons_self)
  have hnodup : (s.running ++ [i]).Nodup :=
    h.nodup.append (List.nodup_singleton i) (by simpa using hnot)
  obtain ⟨hsub, hpeak⟩ := start_running hlisted hqueued halive done
  have hlength := hsub.length_le
  rw [List.length_append, List.length_singleton] at hlength
  refine ⟨hnodup.sublist hsub, fun hfree k hk => ?_, ?_, ?_⟩
  · have hs := (start_spec hlisted hqueued halive hlocked hcanceling hstuck done).2 hfree
    have hothers (hmem : k ∈ s.running) :
        ((({ s with queued := queued } : Tasks).emplace i).start i done).stateOf k = .running := by
      rw [stateOf, hs.others k (hlisted.running_lt hmem) fun hki => hnot (hki ▸ hmem)]
      exact h.running hstuck k hmem
    rw [hs.running] at hk
    cases done with
    | true => exact hothers hk
    | false =>
      obtain hk | hk := List.mem_append.mp hk
      · exact hothers hk
      · obtain rfl : k = i := List.mem_singleton.mp hk
        exact hs.state rfl
  · omega
  · have := h.peak
    omega

/-- The loop of `dequeue`, if it starts no task while `running` is full. `s₀` is the state before
the loop. -/
theorem dequeueLoop (s₀ : Tasks) (done : Nat → Bool) (n : Nat) (s : Tasks) (h : s.Full)
    (hdequeuing : Dequeuing s₀ s)
    (horderly : ∀ pre i post, s.queued = pre ++ i :: post → (s₀.stateOf i).isTerminal = false →
      s.running.length + (pre.filter (s₀.stays done)).length < MAX_ACTIVE_TASKS) :
    (dequeueLoop done n s).Full := by
  induction n generalizing s with
  | zero => exact h
  | succ n ih =>
    rw [Tasks.dequeueLoop]
    split
    · exact h
    cases hqueued : s.queued with
    | nil => exact h
    | cons i queued =>
      have hmem : i ∈ s.queued := by
        rw [hqueued]
        exact List.mem_cons_self
      have hstate : s.stateOf i = s₀.stateOf i := hdequeuing.stateOf hmem
      dsimp only
      split
      · rename_i hterminal
        have hterminal' : (s.stateOf i).isTerminal = true := hterminal
        have hstays : s₀.stays done i = false := by simp [stays, ← hstate, hterminal']
        refine ih { s with queued := queued } ?_
          (hdequeuing.pop hqueued) fun pre k post heq hk => ?_
        · exact h.congr rfl rfl id fun _ _ => rfl
        · have hle := horderly (i :: pre) k post (by rw [hqueued, List.cons_append, ← heq]) hk
          rwa [List.filter_cons_of_neg (by simp [hstays])] at hle
      · rename_i halive
        have halive' : (s.stateOf i).isTerminal = false := Bool.eq_false_of_not_eq_true halive
        have hroom : s.running.length < MAX_ACTIVE_TASKS := by
          simpa using horderly [] i queued hqueued (hstate ▸ halive')
        have hfull :=
          h.start hdequeuing.listed hqueued halive' hdequeuing.locked hdequeuing.canceling
          hdequeuing.stuck hroom (done i)
        cases hnext :
          ((({ s with queued := queued } : Tasks).emplace i).start i (done i)).stuck with
        | true =>
          rw [dequeueLoop_of_stuck done n hnext]
          exact hfull
        | false =>
          have hs :=
            (start_spec hdequeuing.listed hqueued halive' hdequeuing.locked hdequeuing.canceling
            hdequeuing.stuck (done i)).2 hnext
          refine ih _ hfull (hdequeuing.start hqueued halive' hs) fun pre k post heq hk => ?_
          rw [hs.queued] at heq
          have hle := horderly (i :: pre) k post (by rw [hqueued, List.cons_append, ← heq]) hk
          rw [hs.running]
          cases hdone : done i with
          | true =>
            rw [List.filter_cons_of_neg (by simp [stays, hdone])] at hle
            exact hle
          | false =>
            rw [List.filter_cons_of_pos (by simp [stays, hdone, ← hstate, halive'])] at hle
            simp only [List.length_cons] at hle
            simp
            omega

end Full

end Tasks

end Boson
