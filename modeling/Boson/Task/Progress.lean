import Boson.Task.LookupTask

/-!
# Lookups make progress

* `Inv S`: every candidate of a task that has not ended has a call in flight or may be queried
  again, except for those in `S`. With every id in `S` it is the part that holds in all runs.
* `serializedUpdate_settled`: then an update leaves a call in flight or ends the task.
* `Mismatch`: the events that break the invariant. `ValueLookup` and `PeerLookup` ignore a response
  that does not fit their request, and leave its candidate as it was sent.
* `run_settled`: without such an event, no run gets stuck.
-/

namespace Boson

namespace LookupTask

variable {t : LookupTask} {S : Set Id} {id : Id} {now : UInt64}

/-! ## Candidates that can make progress -/

/-- A call to the node is in flight, or the node may be queried. -/
def Covered (self : LookupTask) (n : CandidateNode) : Prop :=
  (∃ c ∈ self.inFlight, c.target = n.nodeId) ∨ n.isEligible = true

/-- The invariant of a task, where the candidates in `S` may have been lost. `live` is about a task
that has not ended: after that, the candidates are left as they are. -/
structure Inv (S : Set Id) (t : LookupTask) : Prop where
  target : t.closestCandidates.target = t.target
  wf : t.closestCandidates.WF
  live : t.isFinished = false → ∀ n ∈ t.closestCandidates.closest, n.nodeId ∉ S → t.Covered n
  counted : t.notified = if t.isFinished then 1 else 0
  drained : t.state = .finished → t.inFlight = []

theorem new_inv (lookup : Lookup) : Inv S (new lookup) where
  target := rfl
  wf := ClosestCandidates.wf_empty _ _
  live _ n hn := by simp [new] at hn
  counted := rfl
  drained h := by cases h

theorem isEligible_of_fresh {n : CandidateNode} (h : n.lastSent = 0 ∧ n.pinged = 0) :
    n.isEligible = true := by
  simp [CandidateNode.isEligible, h.1, h.2]

/-! ## Adding candidates, and ending -/

/-- `addCandidates` changes only the candidates, and new ones may be queried. -/
theorem addCandidates_eq (t : LookupTask) (nodes : List NodeRef) :
    ∃ cc, t.addCandidates nodes = { t with closestCandidates := cc } ∧
      cc.target = t.closestCandidates.target ∧ (t.closestCandidates.WF → cc.WF) ∧
      ∀ n ∈ cc.closest, n ∈ t.closestCandidates.closest ∨ n.isEligible = true := by
  unfold addCandidates
  simp only
  split
  · refine ⟨_, rfl, ClosestCandidates.add_target _ _, fun h => h.add _, fun n hn => ?_⟩
    exact (ClosestCandidates.mem_add hn).imp_right isEligible_of_fresh
  · exact ⟨_, rfl, rfl, id, fun n hn => .inl hn⟩

theorem Inv.addCandidates (h : Inv S t) (nodes : List NodeRef) : Inv S (t.addCandidates nodes) := by
  obtain ⟨cc, heq, htarget, hwf, hmem⟩ := addCandidates_eq t nodes
  rw [heq]
  refine ⟨htarget.trans h.target, hwf h.wf, fun hf n hn hS => ?_, h.counted, h.drained⟩
  rcases hmem n hn with hn | hn
  · exact h.live hf n hn hS
  · exact .inr hn

theorem Inv.addNodes (h : Inv S t) (nodes : List NodeInfo) : Inv S (t.addNodes nodes) := by
  unfold LookupTask.addNodes
  split
  · exact h.addCandidates _
  · exact h

theorem Inv.terminate (h : Inv S t) {st : TaskState} (hst : st.isTerminal = true)
    (hdrained : t.isFinished = false → st = .finished → t.inFlight = []) :
    Inv S (t.terminate st) := by
  unfold LookupTask.terminate
  split
  · exact h
  · rename_i hf
    refine ⟨h.target, h.wf, fun hlive => ?_, ?_, hdrained (by simpa using hf)⟩
    · have hf' : st.isTerminal = false := hlive
      rw [hst] at hf'
      cases hf'
    · simp only [h.counted, hf]
      exact (if_pos hst).symm

theorem Inv.cancel (h : Inv S t) : Inv S t.cancel := h.terminate rfl fun _ hst => by cases hst

theorem Inv.finishIfDone (h : Inv S t) : Inv S t.finishIfDone := by
  unfold LookupTask.finishIfDone
  split
  · rename_i hdone
    refine h.terminate rfl fun hf _ => ?_
    rw [isDone, hf, Bool.or_false, Bool.and_eq_true] at hdone
    exact List.isEmpty_iff.mp hdone.1
  · exact h

theorem Inv.handleResult (h : Inv S t) (r : Responded) (result : LookupResult) :
    Inv S (t.handleResult r result) := by
  have hresult : Inv S { t with results := t.results ++ [result] } := ⟨h.1, h.2, h.3, h.4, h.5⟩
  unfold LookupTask.handleResult
  simp only
  split
  · exact hresult.cancel
  · exact hresult

/-! ## Updates -/

/-- A candidate that is sent a request has a call in flight. -/
theorem Inv.sendCall (h : Inv S t) (hf : t.isFinished = false) (now : UInt64)
    (candidate : CandidateNode) :
    Inv S (t.sendCall now candidate) := by
  refine ⟨h.target, h.wf.modify _ fun _ => rfl, fun _ n hn hS => ?_, h.counted, fun hst => ?_⟩
  · obtain ⟨m, hm, rfl⟩ := List.mem_map.mp hn
    by_cases hid : m.nodeId = candidate.nodeId
    · refine .inl ⟨_, List.mem_append_right _ (List.mem_singleton_self _), ?_⟩
      rw [if_pos hid]
      exact hid.symm
    · rw [if_neg hid] at hS ⊢
      refine (h.live hf m hm hS).imp_left fun ⟨c, hc, htarget⟩ => ?_
      exact ⟨c, List.mem_append_left _ hc, htarget⟩
  · have hst' : t.state = .finished := hst
    simp [isFinished, hst', TaskState.isTerminal] at hf

/-- After an update no more requests can be sent, or none is left to be sent. -/
theorem update_spec (S : Set Id) (t : LookupTask) (now : UInt64) :
    (t.update now).state = t.state ∧ t.inFlight.length ≤ (t.update now).inFlight.length ∧
      (MAX_CONCURRENT_TASK_REQUESTS ≤ (t.update now).inFlight.length ∨
        (t.update now).closestCandidates.next = none) ∧
      (Inv S t → t.isFinished = false → Inv S (t.update now)) ∧
      (t.update now = t ∨ t.inFlight.length < (t.update now).inFlight.length) := by
  fun_induction update t now with
  | case1 t hlt hnext => exact ⟨rfl, Nat.le_refl _, .inr hnext, fun h _ => h, .inl rfl⟩
  | case2 t hlt candidate hnext ih =>
    obtain ⟨hst, hlen, hend, hinv, -⟩ := ih
    have hsent : (t.sendCall now candidate).inFlight.length = t.inFlight.length + 1 := by
      simp [sendCall]
    exact ⟨hst, by omega, hend, fun h hf => hinv (h.sendCall hf now candidate) hf, .inr (by omega)⟩
  | case3 t hge => exact ⟨rfl, Nat.le_refl _, .inl (Nat.not_lt.mp hge), fun h _ => h, .inl rfl⟩

/-- With nothing in flight and nobody left to query, a task is done. -/
theorem Inv.isDone_of_idle (h : Inv ∅ t) (hf : t.isFinished = false) (hidle : t.inFlight = [])
    (hnext : t.closestCandidates.next = none) : t.isDone = true := by
  have hnone : t.closestCandidates.closest = [] := by
    rw [List.eq_nil_iff_forall_not_mem]
    intro n hn
    rcases h.live hf n hn (Set.notMem_empty _) with ⟨c, hc, -⟩ | helig
    · rw [hidle] at hc
      cases hc
    · rw [ClosestCandidates.next_eq_none.mp hnext n hn] at helig
      cases helig
  simp [isDone, hidle, ClosestCandidates.size, hnone]

theorem isFinished_finish : t.finish.isFinished = true := by
  unfold finish terminate
  split
  · assumption
  · rfl

theorem isFinished_finishIfDone (h : t.isDone = true) : t.finishIfDone.isFinished = true := by
  rw [finishIfDone, if_pos h]
  exact isFinished_finish

/-- The middle of `serializedUpdate`: the task after its two checks. -/
def afterChecks (self : LookupTask) (now : UInt64) : LookupTask :=
  let self := self.finishIfDone
  if self.canDoRequest && !self.isFinished then (self.update now).finishIfDone else self

theorem serializedUpdate_eq (t : LookupTask) (now : UInt64) : t.serializedUpdate now =
    if (t.afterChecks now).isFinished then { t.afterChecks now with isRunning := false }
    else t.afterChecks now := rfl

theorem Inv.afterChecks (h : Inv S t) (now : UInt64) : Inv S (t.afterChecks now) := by
  unfold LookupTask.afterChecks
  simp only
  split
  · rename_i hcond
    simp only [Bool.and_eq_true, Bool.not_eq_true'] at hcond
    exact ((update_spec S _ now).2.2.2.1 h.finishIfDone hcond.2).finishIfDone
  · exact h.finishIfDone

theorem Inv.serializedUpdate (h : Inv S t) (now : UInt64) : Inv S (t.serializedUpdate now) := by
  rw [serializedUpdate_eq]
  split
  · have := h.afterChecks now
    exact ⟨this.1, this.2, this.3, this.4, this.5⟩
  · exact h.afterChecks now

/-- After an update the task has a call in flight, or it has ended. -/
theorem afterChecks_idle (h : Inv ∅ t) (hidle : (t.afterChecks now).inFlight = []) :
    (t.afterChecks now).isFinished = true := by
  by_contra hf
  rw [Bool.not_eq_true] at hf
  have hne : t.finishIfDone.isFinished = false → t.isDone = false := by
    intro hf'
    by_contra hdone
    rw [isFinished_finishIfDone (by simpa using hdone)] at hf'
    cases hf'
  unfold LookupTask.afterChecks at hidle hf
  simp only at hidle hf
  split at hidle
  · rename_i hcond
    rw [if_pos hcond] at hf
    simp only [Bool.and_eq_true, Bool.not_eq_true'] at hcond
    obtain ⟨hst, -, hend, hinv, -⟩ := update_spec ∅ t.finishIfDone now
    have hndone : (t.finishIfDone.update now).isDone = false := by
      by_contra hdone
      rw [isFinished_finishIfDone (by simpa using hdone)] at hf
      cases hf
    have hsame : (t.finishIfDone.update now).finishIfDone = t.finishIfDone.update now := by
      rw [finishIfDone, hndone]
      rfl
    rw [hsame] at hidle hf
    rcases hend with hfull | hnext
    · rw [hidle] at hfull
      simp [MAX_CONCURRENT_TASK_REQUESTS] at hfull
    · rw [(hinv h.finishIfDone hcond.2).isDone_of_idle hf hidle hnext] at hndone
      cases hndone
  · rename_i hcond
    rw [if_neg hcond] at hf
    refine hcond ?_
    simp [canDoRequest, hidle, hf, MAX_CONCURRENT_TASK_REQUESTS]

/-- With no call in flight, the task has ended: its manager has removed it, and its listeners were
notified. -/
def Settled (t : LookupTask) : Prop :=
  t.inFlight = [] → t.isFinished = true ∧ t.isRunning = false ∧ t.notified = 1

instance (t : LookupTask) : Decidable (Settled t) := by unfold Settled; infer_instance

theorem serializedUpdate_settled (h : Inv ∅ t) : Settled (t.serializedUpdate now) := by
  have hafter := h.afterChecks now
  rw [serializedUpdate_eq]
  split
  · rename_i hf
    intro _
    exact ⟨hf, rfl, by rw [hafter.counted, if_pos hf]⟩
  · rename_i hf
    intro hidle
    exact absurd (afterChecks_idle h hidle) hf

/-! ## Events -/

/-- The candidate whose call has just ended may be lost. -/
theorem Inv.erase (h : Inv S t) (call : LookupCall) :
    Inv (insert call.target S) { t with inFlight := t.inFlight.erase call } := by
  refine ⟨h.target, h.wf, fun hf n hn hS => ?_, h.counted, fun hst => ?_⟩
  · rw [Set.mem_insert_iff, not_or] at hS
    refine (h.live hf n hn hS.2).imp_left fun ⟨c, hc, htarget⟩ => ⟨c, ?_, htarget⟩
    refine (List.mem_erase_of_ne ?_).mpr hc
    rintro rfl
    exact hS.1 htarget.symm
  · simp [h.drained hst]

theorem Inv.of_finished (h : Inv (insert id S) t) (hf : t.isFinished = true) : Inv S t :=
  ⟨h.target, h.wf, fun hf' => absurd (hf.symm.trans hf') (by decide), h.counted, h.drained⟩

theorem get_eq_none {cc : ClosestCandidates} (h : cc.get id = none) : ∀ n ∈ cc.closest,
    n.nodeId ≠ id := by
  simpa [ClosestCandidates.get] using h

theorem Inv.of_get_none (h : Inv (insert id S) t)
    (hget : t.closestCandidates.get id = none) : Inv S t :=
  ⟨h.target, h.wf, fun hf n hn hS => h.live hf n hn (by simp [get_eq_none hget n hn, hS]),
    h.counted, h.drained⟩

theorem Inv.remove (h : Inv (insert id S) t) : Inv S (t.callError id) := by
  refine ⟨h.target, h.wf.remove id, fun hf n hn hS => ?_, h.counted, h.drained⟩
  obtain ⟨hn, hne⟩ := h.wf.mem_remove.mp hn
  exact h.live hf n hn (by simp [hne, hS])

theorem Inv.callTimeout (h : Inv (insert id S) t) : Inv S (t.callTimeout id) := by
  unfold LookupTask.callTimeout
  split
  · rename_i hget
    exact h.of_get_none hget
  · rename_i candidate hget
    split
    · exact h.remove
    · -- it was tried fewer than three times, and may be queried again
      rename_i hreach
      refine ⟨h.target, h.wf.modify _ fun _ => rfl, fun hf n hn hS => ?_, h.counted, h.drained⟩
      obtain ⟨m, hm, rfl⟩ := List.mem_map.mp hn
      by_cases hid : m.nodeId = id
      · have hmem := List.mem_of_find?_eq_some hget
        have hcid : candidate.nodeId = id := by simpa using List.find?_some hget
        obtain rfl : m = candidate :=
          List.inj_on_of_nodup_map h.wf.nodup hm hmem (hid.trans hcid.symm)
        rw [if_pos hid]
        refine .inr ?_
        simp only [CandidateNode.isUnreachable, ge_iff_le, decide_eq_true_eq, not_le] at hreach
        simp [CandidateNode.isEligible, CandidateNode.clearSent, hreach]
      · rw [if_neg hid] at hS ⊢
        exact h.live hf m hm (by simp [hid, hS])

theorem Inv.addResponder (h : Inv (insert id S) t) (now : UInt64) (token : Int) :
    Inv S (t.addResponder now id token) := by
  unfold LookupTask.addResponder
  split
  · rename_i hget
    exact h.of_get_none hget
  · have hrm := h.remove
    exact ⟨hrm.1, hrm.2, hrm.3, hrm.4, hrm.5⟩

theorem foldl_handleResult_inv (r : Responded) (nodes : List NodeInfo) (h : Inv S t) :
    Inv S (nodes.foldl (fun t n => t.handleResult r (.node n)) t) := by
  induction nodes generalizing t with
  | nil => exact h
  | cons n nodes ih => exact ih (h.handleResult r _)

/-- `NodeLookup` takes the candidate out for every response. -/
theorem Inv.nodeResponsed (h : Inv (insert id S) t) (now : UInt64) (r : Responded) :
    Inv S (t.nodeResponsed now id r) := by
  have hadd := h.addResponder now r.getToken
  unfold LookupTask.nodeResponsed
  simp only
  split
  · exact hadd
  · split
    · exact foldl_handleResult_inv r _ (hadd.addNodes _)
    · exact hadd

/-- `ValueLookup` takes the candidate out for a response that fits. -/
theorem Inv.valueResponsed (h : Inv (insert id S) t) (now : UInt64) {r : Responded}
    (hfits : r.fits id .findValue = true) :
    Inv S (t.valueResponsed now id r).1 := by
  have hadd := h.addResponder now r.getToken
  unfold LookupTask.valueResponsed
  simp only [hfits, Bool.not_true, Bool.false_eq_true, if_false]
  split
  · split
    · split
      · exact hadd
      · repeat' split
        all_goals first
          | exact hadd
          | exact hadd.handleResult r _
    · exact hadd.addNodes _
  · exact hadd

/-- `PeerLookup` takes the candidate out for a response that fits. -/
theorem Inv.peerResponsed (h : Inv (insert id S) t) (now : UInt64) {r : Responded}
    (hfits : r.fits id .findPeer = true) :
    Inv S (t.peerResponsed now id r) := by
  have hadd := h.addResponder now r.getToken
  unfold LookupTask.peerResponsed
  simp only [hfits, Bool.not_true, Bool.false_eq_true, if_false]
  split
  · split
    · split
      · exact hadd.handleResult r _
      · exact hadd
    · exact hadd.addNodes _
  · exact hadd

/-- The response is ignored: the lookup is none for nodes, and the response is not from the node
asked, or of another method. -/
def Ignores (self : LookupTask) (id : Id) (r : Responded) : Prop :=
  self.kind = .value ∧ r.fits id .findValue = false ∨
    self.kind = .peer ∧ r.fits id .findPeer = false

instance (t : LookupTask) (id : Id) (r : Responded) : Decidable (t.Ignores id r) := by
  unfold Ignores; infer_instance

/-- A `ValueLookup` or `PeerLookup` that has not ended gets a response that it ignores. -/
def Mismatch (self : LookupTask) : LookupEvent → Prop
  | .call key (.responded r) => ∃ call, self.inFlight.find? (·.key = key) = some call ∧
      self.rx = true ∧ self.isFinished = false ∧ self.Ignores call.target r
  | _ => False

theorem callResponsed_of_ignores {r : Responded} (h : t.Ignores id r) :
    t.callResponsed now id r = (t, false) := by
  unfold callResponsed
  rcases h with ⟨hkind, hfits⟩ | ⟨hkind, hfits⟩
  · simp [hkind, valueResponsed, hfits]
  · simp [hkind, peerResponsed, hfits]

/-- The candidate of a response that is not ignored is taken out; one that is ignored may be
lost. -/
theorem Inv.callResponsed (h : Inv (insert id S) t) (now : UInt64) (r : Responded)
    (hok : t.Ignores id r → S = Set.univ) : Inv S (t.callResponsed now id r).1 := by
  by_cases hig : t.Ignores id r
  · rw [callResponsed_of_ignores hig]
    rw [hok hig] at h ⊢
    simpa using h
  · unfold LookupTask.callResponsed
    split
    · exact h.nodeResponsed now r
    · rename_i hkind
      refine h.valueResponsed now ?_
      by_contra hno
      exact hig (.inl ⟨hkind, by simpa using hno⟩)
    · rename_i hkind
      refine h.peerResponsed now ?_
      by_contra hno
      exact hig (.inr ⟨hkind, by simpa using hno⟩)

theorem onStateChange_inv (h : Inv S t) (now : UInt64) (call : LookupCall) (e : CallEvent)
    (hok : ∀ r, e = .responded r → t.isFinished = false → t.Ignores call.target r → S = Set.univ) :
    Inv S (t.onStateChange now call e).1 := by
  have hbut := h.erase call
  cases e with
  | responded r =>
    unfold onStateChange
    simp only
    split
    · rename_i hf
      exact hbut.of_finished hf
    · rename_i hf
      exact hbut.callResponsed now r (hok r rfl ((Bool.not_eq_true _).mp hf))
  | err =>
    unfold onStateChange
    simp only
    split
    · rename_i hf
      exact hbut.of_finished hf
    · exact hbut.remove
  | timeout =>
    unfold onStateChange
    simp only
    split
    · rename_i hf
      exact hbut.of_finished hf
    · exact hbut.callTimeout
  | stalled => exact h

theorem handle_inv (h : Inv S t) (now : UInt64) (e : LookupEvent)
    (hok : t.Mismatch e → S = Set.univ) :
    Inv S (t.handle now e).1 := by
  cases e with
  | inject nodes =>
    unfold handle
    simp only
    split
    · exact h.addCandidates nodes
    · exact h
  | start nodes =>
    unfold handle
    simp only
    split
    · rename_i hst
      have hf : t.isFinished = false := by
        rcases Bool.or_eq_true_iff.mp hst with hst | hst <;>
          simp [isFinished, of_decide_eq_true hst, TaskState.isTerminal]
      have hstart : Inv S { t with state := .running, isRunning := true } := by
        refine ⟨h.target, h.wf, fun _ => h.live hf, ?_, fun hst => by cases hst⟩
        rw [h.counted, hf]
        rfl
      exact hstart.addCandidates nodes
    · exact h
  | cancel => exact h.cancel
  | call key e =>
    unfold handle
    simp only
    split
    · rename_i call hfind
      split
      · rename_i hrx
        have hchange := onStateChange_inv h now call e fun r he hf hig => by
          subst he
          exact hok ⟨call, hfind, hrx, hf, hig⟩
        exact ⟨hchange.1, hchange.2, hchange.3, hchange.4, hchange.5⟩
      · exact h
    · exact h

/-- One step keeps the invariant, unless a response is ignored. -/
theorem step_inv (h : Inv S t) (e : UInt64 × LookupEvent) (hok : t.Mismatch e.2 → S = Set.univ) :
    Inv S (t.step e) := by
  have hhandle := handle_inv h e.1 e.2 hok
  unfold step
  simp only
  split
  · exact hhandle.serializedUpdate e.1
  · exact hhandle

theorem run_append (pre post : List (UInt64 × LookupEvent)) :
    t.run (pre ++ post) = (t.run pre).run post :=
  List.foldl_append

theorem run_inv (h : Inv S t) (events : List (UInt64 × LookupEvent))
    (hok : ∀ pre e post, events = pre ++ e :: post → (t.run pre).Mismatch e.2 → S = Set.univ) :
    Inv S (t.run events) := by
  induction events generalizing t with
  | nil => exact h
  | cons e rest ih =>
    refine ih (step_inv h e (hok [] e rest rfl)) fun pre e' post heq => ?_
    exact hok (e :: pre) e' post (by rw [heq]; rfl)

/-- In a run where every response that a `ValueLookup` or `PeerLookup` gets fits its request, the
task has a call in flight or has ended after every update. -/
theorem run_settled (lookup : Lookup) (events : List (UInt64 × LookupEvent))
    (hok : ∀ pre e post, events = pre ++ e :: post → ¬ ((new lookup).run pre).Mismatch e.2)
    (pre : List (UInt64 × LookupEvent)) (e : UInt64 × LookupEvent)
    (post : List (UInt64 × LookupEvent)) (hevents : events = pre ++ e :: post)
    (hupdate : (((new lookup).run pre).handle e.1 e.2).2 = true) :
    Settled (((new lookup).run pre).step e) := by
  have hinv : Inv ∅ ((new lookup).run pre) := by
    refine run_inv (new_inv lookup) pre fun p e' q heq hmis => ?_
    refine absurd hmis (hok p e' (q ++ e :: post) ?_)
    rw [hevents, heq, List.append_assoc, List.cons_append]
  have hhandle := handle_inv hinv e.1 e.2 fun hmis => absurd hmis (hok pre e post hevents)
  unfold step
  simp only [hupdate, if_true]
  exact serializedUpdate_settled hhandle

/-! ## Two short runs -/

/-- The address `8.8.8.b`, for the examples. -/
def addressAt (b : UInt8) : SocketAddress := .inet ⟨[8, 8, 8, b], by simp⟩ 39001

/-- A node whose id starts with the byte `b`, for the examples. -/
def nodeAt (b : UInt8) : NodeInfo := { nodeId := Id.zero.setByte 0 b, sockaddr := addressAt b }

/-- A lookup on the node `0`, for the examples. No signature is checked in them. -/
def lookupAt (kind : LookupKind) (b : UInt8) : Lookup where
  kind := kind
  target := Id.zero.setByte 0 b
  network := .ipv4
  selfId := Id.zero
  selfAddress := addressAt 0
  crypto := { sha256 := fun _ => Id.zero, verify := fun _ _ _ => false }

/-- The node `b` answers the call `key`. -/
def answer (key : Nat) (b : UInt8) (content : Content) : LookupEvent :=
  .call key (.responded
    { response := { id := (nodeAt b).nodeId, origin := addressAt b, content := content } })

/-- A value lookup asks its only candidate, which has no value. -/
def answered : List (UInt64 × LookupEvent) :=
  [(1, .start [.info (nodeAt 1)]), (2, answer 0 1 (.findValueResponse {} {}))]

theorem run_settled_answered : Settled ((new (lookupAt .value 0x80)).run answered) := by
  refine run_settled (lookupAt .value 0x80) answered ?_ [(1, .start [.info (nodeAt 1)])]
    (2, answer 0 1 (.findValueResponse {} {})) [] rfl (by decide +kernel)
  rintro (_ | ⟨_, _ | ⟨_, pre⟩⟩) e post heq
  · obtain ⟨rfl, -⟩ := List.cons.inj heq
    exact id
  · obtain ⟨rfl, htail⟩ := List.cons.inj heq
    obtain ⟨rfl, -⟩ := List.cons.inj htail
    rintro ⟨call, hfind, -, -, hmis⟩
    have hcall : some { key := 0, target := (nodeAt 1).nodeId } = some call :=
      (by decide +kernel : _ = _).trans hfind
    obtain rfl := Option.some.inj hcall
    revert hmis
    decide +kernel
  · simp [answered] at heq

/-- The same with a response of another method: the call is over, the candidate counts as asked, and
the task goes on for ever. -/
theorem not_settled_mismatch :
    (((new (lookupAt .value 0x80)).run [(1, .start [.info (nodeAt 1)])]).handle 2
      (answer 0 1 (.findNodeResponse {}))).2 = true ∧
    ¬ Settled (((new (lookupAt .value 0x80)).run [(1, .start [.info (nodeAt 1)])]).step
      (2, answer 0 1 (.findNodeResponse {}))) := by
  decide +kernel

end LookupTask

end Boson
