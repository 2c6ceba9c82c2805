import Boson.Lib.Runs
import Boson.Task.Progress

/-!
# Lookups converge

`isDone` compares the head of the candidates, which is the closest of them, with the tail of the
closest set, which is the numerically last member and not the farthest one (see `ClosestSet`).

* `Converged`: no candidate is left, or the closest set is full and no candidate that was never
  queried is closer than a member of it.
* `Gap`: such a candidate lies between the numerically last member and a farther one.
* `run_converged_iff`: a run only finishes converged exactly if it never finishes at a gap.
* `run_converged_of_farthest`: there is no gap where the numerically last member is the farthest
  one.
-/

namespace Boson

namespace LookupTask

variable {t : LookupTask} {now : UInt64}

/-- What a finished lookup should have done. -/
def Converged (self : LookupTask) : Prop :=
  self.closestCandidates.closest = [] ∨
    (self.closestSet.reachedCapacity = true ∧
      ∀ n ∈ self.closestCandidates.closest, n.pinged = 0 → ∀ m ∈ self.closestSet.closest,
        self.target.distance m.nodeId ≤ self.target.distance n.nodeId)

/-- A candidate that was never queried lies between the tail of the closest set and a farther
member. -/
def Gap (self : LookupTask) : Prop :=
  ∃ n ∈ self.closestCandidates.closest, n.pinged = 0 ∧ ∃ m ∈ self.closestSet.closest,
    self.target.distance self.closestSet.tail ≤ self.target.distance n.nodeId ∧
      self.target.distance n.nodeId < self.target.distance m.nodeId

instance (t : LookupTask) : Decidable (Converged t) := by unfold Converged; infer_instance

/-- For a task that is done, a gap is all that can be wrong. -/
theorem converged_iff (hwf : t.closestCandidates.WF)
    (htarget : t.closestCandidates.target = t.target)
    (hdone : t.isDone = true) : Converged t ↔ ¬ Gap t := by
  simp only [isDone, Bool.and_eq_true, Bool.or_eq_true, decide_eq_true_eq] at hdone
  rcases hdone.2 with hnone | ⟨helig, hle⟩
  · have hnil : t.closestCandidates.closest = [] := List.length_eq_zero_iff.mp hnone
    refine ⟨?_, fun _ => .inl hnil⟩
    rintro - ⟨n, hn, -⟩
    rw [hnil] at hn
    cases hn
  · have hfull : t.closestSet.reachedCapacity = true := by
      rw [ClosestSet.isEligible, Bool.and_eq_true] at helig
      exact helig.1
    have htail : ∀ n ∈ t.closestCandidates.closest,
        t.target.distance t.closestSet.tail ≤ t.target.distance n.nodeId := by
      intro n hn
      have hhead := hwf.head_le hn
      rw [htarget] at hhead
      exact le_trans (Id.threeWayCompare_le_iff_distance.mp hle) hhead
    constructor
    · rintro hconv ⟨n, hn, hnew, m, hm, -, hlt⟩
      rcases hconv with hnil | ⟨-, hfar⟩
      · rw [hnil] at hn
        cases hn
      · exact absurd (hfar n hn hnew m hm) (not_le.mpr hlt)
    · intro hgap
      refine .inr ⟨hfull, fun n hn hnew m hm => ?_⟩
      by_contra hlt
      exact hgap ⟨n, hn, hnew, m, hm, htail n hn, not_le.mp hlt⟩

/-! ## When a task finishes -/

/-- An update finishes a task exactly if it is done already: a request that is sent is in flight. -/
theorem afterChecks_finished (hst : t.isFinished = false) :
    (t.afterChecks now).state = .finished ↔ t.isDone = true := by
  have hrun : t.state ≠ .finished := by
    rintro h
    simp [isFinished, h, TaskState.isTerminal] at hst
  constructor
  · intro hfin
    by_contra hdone
    rw [Bool.not_eq_true] at hdone
    have hsame : t.finishIfDone = t := by simp [finishIfDone, hdone]
    unfold afterChecks at hfin
    simp only [hsame] at hfin
    split at hfin
    · obtain ⟨hst', -, -, -, heq | hlt⟩ := update_spec ∅ t now
      · rw [heq, hsame] at hfin
        exact hrun hfin
      · have hndone : (t.update now).isDone = false := by
          have hf : (t.update now).isFinished = false := by rw [isFinished, hst']; exact hst
          have hne : (t.update now).inFlight.isEmpty = false := by
            rw [List.isEmpty_eq_false_iff]
            rintro hnil
            rw [hnil] at hlt
            simp at hlt
          simp [isDone, hf, hne]
        rw [finishIfDone, hndone] at hfin
        exact hrun (hst'.symm.trans hfin)
    · exact hrun hfin
  · intro hdone
    have hfin : t.finishIfDone = { t with state := .finished, notified := t.notified + 1 } := by
      rw [finishIfDone, if_pos hdone, finish, terminate, if_neg (by simp [hst])]
    unfold afterChecks
    rw [hfin]
    simp [isFinished, TaskState.isTerminal]

/-- The task that an update finishes has the nodes it had before. -/
theorem serializedUpdate_of_isDone (hst : t.isFinished = false) (hdone : t.isDone = true) :
    t.serializedUpdate now =
      { t with state := .finished, notified := t.notified + 1, isRunning := false } := by
  have hfin : t.finishIfDone = { t with state := .finished, notified := t.notified + 1 } := by
    rw [finishIfDone, if_pos hdone, finish, terminate, if_neg (by simp [hst])]
  have hafter : t.afterChecks now = { t with state := .finished, notified := t.notified + 1 } := by
    unfold afterChecks
    simp only [hfin]
    rw [if_neg (by simp [isFinished, TaskState.isTerminal])]
  rw [serializedUpdate_eq, hafter, if_pos (by rfl)]

theorem serializedUpdate_finished (hst : t.isFinished = false) :
    (t.serializedUpdate now).state = .finished ↔ t.isDone = true := by
  rw [← afterChecks_finished hst, serializedUpdate_eq]
  split <;> exact Iff.rfl

/-! ## Events do not finish a task -/

/-- The state is the same, or the task was canceled. -/
def SameOrCanceled (t t' : LookupTask) : Prop := t'.state = t.state ∨ t'.state = .canceled

theorem SameOrCanceled.trans {t t' t'' : LookupTask} (h : SameOrCanceled t t')
    (h' : SameOrCanceled t' t'') : SameOrCanceled t t'' := by
  rcases h' with h' | h'
  · exact h.imp h'.trans h'.trans
  · exact .inr h'

theorem sameOrCanceled_cancel : SameOrCanceled t t.cancel := by
  unfold cancel terminate
  split
  · exact .inl rfl
  · exact .inr rfl

theorem sameOrCanceled_addCandidates (nodes : List NodeRef) :
    SameOrCanceled t (t.addCandidates nodes) := by
  obtain ⟨cc, heq, -⟩ := addCandidates_eq t nodes
  rw [heq]
  exact .inl rfl

theorem sameOrCanceled_addNodes (nodes : List NodeInfo) : SameOrCanceled t (t.addNodes nodes) := by
  unfold addNodes
  split
  · exact sameOrCanceled_addCandidates _
  · exact .inl rfl

theorem sameOrCanceled_handleResult (r : Responded) (result : LookupResult) :
    SameOrCanceled t (t.handleResult r result) := by
  unfold handleResult
  simp only
  split
  · exact sameOrCanceled_cancel (t := { t with results := t.results ++ [result] })
  · exact .inl rfl

theorem sameOrCanceled_addResponder (now : UInt64) (id : Id) (token : Int) :
    SameOrCanceled t (t.addResponder now id token) := by
  unfold addResponder
  split <;> exact .inl rfl

theorem sameOrCanceled_foldl (r : Responded) (nodes : List NodeInfo) :
    SameOrCanceled t (nodes.foldl (fun t n => t.handleResult r (.node n)) t) := by
  induction nodes generalizing t with
  | nil => exact .inl rfl
  | cons n nodes ih => exact (sameOrCanceled_handleResult r _).trans ih

theorem sameOrCanceled_callResponsed (id : Id) (r : Responded) :
    SameOrCanceled t (t.callResponsed now id r).1 := by
  have hadd := sameOrCanceled_addResponder (t := t) now id r.getToken
  unfold callResponsed
  split
  · unfold nodeResponsed
    simp only
    split
    · exact hadd
    · split
      · exact (hadd.trans (sameOrCanceled_addNodes _)).trans (sameOrCanceled_foldl r _)
      · exact hadd
  · unfold valueResponsed
    simp only
    repeat' split
    all_goals first
      | exact .inl rfl
      | exact hadd
      | exact hadd.trans (sameOrCanceled_handleResult r _)
      | exact hadd.trans (sameOrCanceled_addNodes _)
  · unfold peerResponsed
    simp only
    repeat' split
    all_goals first
      | exact .inl rfl
      | exact hadd
      | exact hadd.trans (sameOrCanceled_handleResult r _)
      | exact hadd.trans (sameOrCanceled_addNodes _)

theorem sameOrCanceled_onStateChange (call : LookupCall) (e : CallEvent) :
    SameOrCanceled t (t.onStateChange now call e).1 := by
  cases e with
  | responded r =>
    unfold onStateChange
    simp only
    split
    · exact .inl rfl
    · exact sameOrCanceled_callResponsed (t :=
        { t with inFlight := t.inFlight.erase call }) call.target r
  | err =>
    unfold onStateChange
    simp only
    split <;> exact .inl rfl
  | timeout =>
    unfold onStateChange callTimeout
    simp only
    repeat' split
    all_goals exact .inl rfl
  | stalled => exact .inl rfl

/-- What happens before an update does not finish a task. -/
theorem handle_ne_finished (hst : t.state ≠ .finished) (now : UInt64) (e : LookupEvent) :
    (t.handle now e).1.state ≠ .finished := by
  have hkeep : ∀ t', SameOrCanceled t t' → t'.state ≠ .finished := by
    rintro t' (h | h) hfin
    · exact hst (h.symm.trans hfin)
    · rw [h] at hfin
      cases hfin
  cases e with
  | inject nodes =>
    unfold handle
    simp only
    split
    · exact hkeep _ (sameOrCanceled_addCandidates nodes)
    · exact hst
  | start nodes =>
    unfold handle
    simp only
    split
    · obtain ⟨cc, heq, -⟩ :=
        addCandidates_eq { t with state := .running, isRunning := true } nodes
      rw [heq]
      intro hfin
      cases hfin
    · exact hst
  | cancel => exact hkeep _ sameOrCanceled_cancel
  | call key e =>
    unfold handle
    simp only
    split
    · split
      · exact hkeep _ (sameOrCanceled_onStateChange _ e)
      · exact hst
    · exact hst

/-- Nothing happens to a finished task: no call of it is in flight. -/
theorem step_of_finished {S : Set Id} (h : Inv S t) (hst : t.state = .finished)
    (e : UInt64 × LookupEvent) : t.step e = t := by
  obtain ⟨now, e⟩ := e
  have hhandle : t.handle now e = (t, false) := by
    cases e with
    | inject nodes => simp [handle, hst]
    | start nodes => simp [handle, hst]
    | cancel => simp [handle, cancel, terminate, isFinished, hst, TaskState.isTerminal]
    | call key e => simp [handle, h.drained hst]
  simp [step, hhandle]

theorem serializedUpdate_state_of_isFinished (hf : t.isFinished = true) :
    (t.serializedUpdate now).state = t.state := by
  have hsame : t.finishIfDone = t := by
    unfold finishIfDone
    split
    · simp [finish, terminate, hf]
    · rfl
  have hafter : t.afterChecks now = t := by
    unfold afterChecks
    rw [hsame]
    simp [hf]
  rw [serializedUpdate_eq, hafter, if_pos hf]

/-- The step that finishes a task is an update that finds it done. -/
theorem done_of_step_finished (hst : t.state ≠ .finished) {e : UInt64 × LookupEvent}
    (hfin : (t.step e).state = .finished) : (t.handle e.1 e.2).2 = true ∧
      (t.handle e.1 e.2).1.isFinished = false ∧ (t.handle e.1 e.2).1.isDone = true := by
  have hne := handle_ne_finished hst e.1 e.2
  unfold step at hfin
  simp only at hfin
  split at hfin
  · rename_i hupdate
    have hf : (t.handle e.1 e.2).1.isFinished = false := by
      by_contra hf
      rw [serializedUpdate_state_of_isFinished (by simpa using hf)] at hfin
      exact hne hfin
    exact ⟨hupdate, hf, (serializedUpdate_finished hf).mp hfin⟩
  · exact absurd hfin hne

/-! ## Runs -/

/-- The step finishes the task. -/
def Finishes (self : LookupTask) (e : UInt64 × LookupEvent) : Prop :=
  (self.handle e.1 e.2).2 = true ∧ (self.handle e.1 e.2).1.isFinished = false ∧
    (self.handle e.1 e.2).1.isDone = true

/-- The step finishes the task, at a gap. -/
def FinishesAtGap (self : LookupTask) (e : UInt64 × LookupEvent) : Prop :=
  self.Finishes e ∧ (self.handle e.1 e.2).1.Gap

/-- A step that finishes the task leaves it converged, except at a gap. -/
theorem Finishes.converged_iff {e : UInt64 × LookupEvent} (hfin : t.Finishes e)
    (h : Inv Set.univ t) :
    (t.step e).state = .finished ∧ (Converged (t.step e) ↔ ¬ (t.handle e.1 e.2).1.Gap) := by
  obtain ⟨hupdate, hf, hdone⟩ := hfin
  have hhandle := handle_inv h e.1 e.2 fun _ => rfl
  have hstep : t.step e = (t.handle e.1 e.2).1.serializedUpdate e.1 := by
    unfold step
    simp only [hupdate, if_true]
  have hconv : Converged (t.handle e.1 e.2).1 ↔ ¬ (t.handle e.1 e.2).1.Gap :=
    LookupTask.converged_iff hhandle.wf hhandle.target hdone
  rw [hstep, serializedUpdate_of_isDone hf hdone]
  exact ⟨rfl, hconv⟩

/-- A step keeps a lookup converged, if it has finished, exactly if it does not finish it at a
gap. -/
theorem step_converged_iff (h : Inv Set.univ t) (ht : t.state = .finished → Converged t)
    (e : UInt64 × LookupEvent) :
    ((t.step e).state = .finished → Converged (t.step e)) ↔ ¬ t.FinishesAtGap e := by
  constructor
  · rintro hconverged ⟨hfinishes, hgap⟩
    obtain ⟨hfin, hconv⟩ := hfinishes.converged_iff h
    exact hconv.mp (hconverged hfin) hgap
  · intro hnot hfin
    by_cases hst : t.state = .finished
    · rw [step_of_finished h hst]
      exact ht hst
    · have hfinishes : t.Finishes e := done_of_step_finished hst hfin
      exact (hfinishes.converged_iff h).2.mpr fun hgap => hnot ⟨hfinishes, hgap⟩

/-- After each step of a run a finished lookup is converged, exactly if the step did not finish it
at a gap. -/
theorem run_step_converged_iff (lookup : Lookup) {pre : List (UInt64 × LookupEvent)}
    (hpre : ((new lookup).run pre).state = .finished → Converged ((new lookup).run pre))
    (e : UInt64 × LookupEvent) :
    (((new lookup).run (pre ++ [e])).state = .finished →
      Converged ((new lookup).run (pre ++ [e]))) ↔
      ¬ ((new lookup).run pre).FinishesAtGap e := by
  rw [show (new lookup).run (pre ++ [e]) = ((new lookup).run pre).step e from run_append pre [e]]
  exact step_converged_iff (run_inv (new_inv lookup) pre fun _ _ _ _ _ => rfl) hpre e

/-- A lookup finishes converged in all states of a run exactly if no step finishes it at a gap. -/
theorem run_converged_iff (lookup : Lookup) (events : List (UInt64 × LookupEvent)) :
    (∀ pre, pre <+: events → ((new lookup).run pre).state = .finished →
      Converged ((new lookup).run pre)) ↔
    ∀ pre e post, events = pre ++ e :: post → ¬ ((new lookup).run pre).FinishesAtGap e := by
  have hnew : ((new lookup).run []).state = .finished → Converged ((new lookup).run []) :=
    fun hfin => by cases hfin
  rw [Runs.forall_initial_iff (Q := fun pre => ((new lookup).run pre).state = .finished →
    Converged ((new lookup).run pre)) hnew]
  exact Runs.every_iff_of_inv (I := fun pre => ((new lookup).run pre).state = .finished →
    Converged ((new lookup).run pre)) hnew (fun _ _ _ h => h)
      (fun pre e hpre => run_step_converged_iff lookup hpre e) events

/-- The numerically last member of the closest set is also the farthest one. -/
def TailFarthest (self : LookupTask) : Prop :=
  ∀ m ∈ self.closestSet.closest, self.target.distance m.nodeId ≤
    self.target.distance self.closestSet.tail

theorem TailFarthest.not_gap (h : t.TailFarthest) : ¬ t.Gap := by
  rintro ⟨n, -, -, m, hm, htail, hlt⟩
  exact absurd (htail.trans_lt hlt) (not_lt.mpr (h m hm))

/-- A lookup that only finishes when the numerically last member of its closest set is the farthest
one finishes converged. -/
theorem run_converged_of_farthest (lookup : Lookup) (events : List (UInt64 × LookupEvent))
    (hfarthest : Runs.Every (fun pre e => ((new lookup).run pre).Finishes e →
      (((new lookup).run pre).handle e.1 e.2).1.TailFarthest) events) :
    ((new lookup).run events).state = .finished → Converged ((new lookup).run events) :=
  hfarthest.inv (I := fun pre => ((new lookup).run pre).state = .finished →
    Converged ((new lookup).run pre))
    (fun hfin => by cases hfin) fun _ e hpre he =>
      (run_step_converged_iff lookup hpre e).mpr fun hgap => (he hgap.1).not_gap hgap.2

/-- The node `b` answers the call `key` with the nodes `bs`. -/
def answerNodes (key : Nat) (b : UInt8) (bs : List UInt8) : UInt64 × LookupEvent :=
  (2, answer key b (.findNodeResponse { nodes4 := bs.map nodeAt }))

/-- A node lookup for `0x80...` starts with the nodes `0x01...` to `0x07...` and `0x81...`. All
answer, the last with nine nodes from `0x82...` on. These answer too, the last with the node
`0x8b...`. -/
def stopsShort : List (UInt64 × LookupEvent) :=
  [(1, .start ([1, 2, 3, 4, 5, 6, 7, 0x81].map fun b => .info (nodeAt b))),
    answerNodes 0 0x81 [], answerNodes 1 1 [], answerNodes 2 2 [], answerNodes 3 3 [],
    answerNodes 4 4 [], answerNodes 5 5 [], answerNodes 6 6 [],
    answerNodes 7 7 [0x82, 0x83, 0x84, 0x85, 0x86, 0x87, 0x88, 0x89, 0x8a],
    answerNodes 8 0x82 [], answerNodes 9 0x83 [], answerNodes 10 0x84 [], answerNodes 11 0x85 [],
    answerNodes 12 0x86 [], answerNodes 13 0x87 [], answerNodes 14 0x88 [], answerNodes 15 0x89 [],
    answerNodes 16 0x8a [0x8b]]

/-- The closest set is `0x01...` to `0x07...` and `0x81...`, and the lookup finishes, though
`0x8b...` is closer than all of these but the last. -/
theorem not_converged_stopsShort : ((new (lookupAt .node 0x80)).run stopsShort).state = .finished ∧
    ¬ Converged ((new (lookupAt .node 0x80)).run stopsShort) := by
  decide +kernel

end LookupTask

end Boson
