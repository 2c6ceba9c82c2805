import Boson.KBucket.Backoff
import Boson.Task.LookupTask

/-!
# Ping refreshes (`src/core/task/ping_refresh_task.*`, `RoutingTable::tryPingMaintenance`)

A ping refresh sends a ping to the entries of a bucket, at most ten at a time, and may remove those
from the routing table that do not answer. An entry that turns out not to need a ping any more is
left out, unless all are checked.

The entries of a bucket are shared with it, so an event says which of them need a ping by then.
Sending may throw, as `update` expects: the task has the call in flight by then. If its transaction
id is in use, the server does not have the call, and nobody hears of it again. If it is `sendData`
that throws, the server has it, with its timer set, and it times out like any other. As for lookups,
a call is named by a key, and no update runs inside another one.

* `run_pings`: what a ping refresh does in every run.
* `Maintenance`: the ping refreshes of a routing table. `run_maintained`: of one bucket, there is at
  most one at a time.
-/

namespace Boson

/-- `PingRefreshTask::Options`. -/
inductive PingOption where
  | checkAll
  | removeOnTimeout
  | probeCache
  deriving DecidableEq

/-- Where `RPCServer::sendCall` throws: the transaction id is in use, or the message cannot be
sent. -/
inductive ServerThrow where
  | txid
  | sendData
  deriving DecidableEq

/-- An `RPCCall` of a ping refresh. -/
structure PingCall where
  key : Nat
  target : KBucketEntry
  /-- `RPCServer::sendCall` threw before it had the call. -/
  lost : Bool
  deriving DecidableEq

/-- `PingRefreshTask`, with the part of `Task` under it. What it does is recorded: its calls, the
entries that it leaves out, and the nodes that it removes from the routing table. -/
structure PingRefreshTask where
  checkAll : Bool
  removeOnTimeout : Bool
  probeCache : Bool
  state : TaskState := .initial
  todo : List KBucketEntry
  inFlight : List PingCall := []
  nextKey : Nat := 0
  isRunning : Bool := false
  notified : Nat := 0
  sent : List PingCall := []
  skipped : List KBucketEntry := []
  removed : List Id := []

/-- What an update finds: the entries that need a ping by now, and the calls that the server throws
for. -/
structure PingSurroundings where
  needsPing : KBucketEntry → Bool
  throws : Nat → Option ServerThrow

/-- What happens to a ping refresh. -/
inductive PingEvent where
  | start (now : PingSurroundings)
  | cancel
  | call (key : Nat) (e : LookupTask.CallEvent) (now : PingSurroundings)

/-- What an update of this event finds. -/
def PingEvent.surroundings : PingEvent → PingSurroundings
  | .start now | .call _ _ now => now
  | .cancel => ⟨fun _ => false, fun _ => none⟩

namespace PingRefreshTask

/-- `PingRefreshTask::addBucket`. The entries are looked at in a new task. -/
def addBucket (self : PingRefreshTask) (needsPing : KBucketEntry → Bool) (bucket : KBucket) :
    PingRefreshTask :=
  { self with
    todo := self.todo ++ bucket.entries.filter fun entry => needsPing entry || self.checkAll ||
      self.removeOnTimeout }

/-- `PingRefreshTask::PingRefreshTask`. -/
def new (options : List PingOption) (needsPing : KBucketEntry → Bool) (bucket : KBucket) :
    PingRefreshTask :=
  addBucket
    { checkAll := options.contains .checkAll
      removeOnTimeout := options.contains .removeOnTimeout
      probeCache := options.contains .probeCache
      todo := [] }
    needsPing bucket

/-- `Task::isFinished`. -/
def isFinished (self : PingRefreshTask) : Bool := self.state.isTerminal

/-- `Task::canDoRequest`. -/
def canDoRequest (self : PingRefreshTask) : Bool :=
  self.inFlight.length < MAX_CONCURRENT_TASK_REQUESTS

/-- The end of a task, by `finish` or `cancel`. -/
def terminate (self : PingRefreshTask) (state : TaskState) : PingRefreshTask :=
  if self.isFinished then self else { self with state := state, notified := self.notified + 1 }

/-- `Task::finish`. -/
def finish (self : PingRefreshTask) : PingRefreshTask := self.terminate .finished

/-- `Task::cancel`. -/
def cancel (self : PingRefreshTask) : PingRefreshTask := self.terminate .canceled

/-- `PingRefreshTask::isDone`. -/
def isDone (self : PingRefreshTask) : Bool :=
  self.todo.isEmpty && (self.inFlight.isEmpty || self.isFinished)

/-- `Task::sendCall`, with the callback that takes the entry out of `todo`. What the server throws
is caught in `update`; a call that `sendData` throws for has its timer set by then. -/
def sendCall (self : PingRefreshTask) (now : PingSurroundings) (candidateNode : KBucketEntry) :
    PingRefreshTask :=
  let call : PingCall :=
    { key := self.nextKey, target := candidateNode, lost := now.throws self.nextKey = some .txid }
  { self with
    todo := self.todo.tail
    inFlight := self.inFlight ++ [call]
    nextKey := self.nextKey + 1
    sent := self.sent ++ [call] }

/-- An entry that was updated while the task is running is left out. -/
def skip (self : PingRefreshTask) (candidateNode : KBucketEntry) : PingRefreshTask :=
  { self with todo := self.todo.tail, skipped := self.skipped ++ [candidateNode] }

/-- `PingRefreshTask::update`. -/
def update (self : PingRefreshTask) (now : PingSurroundings) : PingRefreshTask :=
  match _h : self.todo with
  | [] => self
  | candidateNode :: _ =>
    if self.canDoRequest then
      if !self.checkAll && !now.needsPing candidateNode then (self.skip candidateNode).update now
      else (self.sendCall now candidateNode).update now
    else self
termination_by self.todo.length
decreasing_by
  · simp [skip, _h]
  · simp [sendCall, _h]

/-- `if (isDone()) finish()`. -/
def finishIfDone (self : PingRefreshTask) : PingRefreshTask :=
  if self.isDone then self.finish else self

/-- `Task::serializedUpdate`, with `TaskManager::removeTask`. -/
def serializedUpdate (self : PingRefreshTask) (now : PingSurroundings) : PingRefreshTask :=
  let self := self.finishIfDone
  let self := if self.canDoRequest && !self.isFinished then (self.update now).finishIfDone else self
  if self.isFinished then { self with isRunning := false } else self

/-- `PingRefreshTask::callTimeout`. -/
def callTimeout (self : PingRefreshTask) (call : PingCall) : PingRefreshTask :=
  if !self.removeOnTimeout then self
  else { self with removed := self.removed ++ [call.target.nodeId] }

/-- The state change handler that `Task::sendCall` sets, up to `serializedUpdate`. -/
def onStateChange (self : PingRefreshTask) (call : PingCall) : LookupTask.CallEvent →
    PingRefreshTask
  | .stalled => self
  | .timeout =>
    let self := { self with inFlight := self.inFlight.erase call }
    if !self.isFinished then self.callTimeout call else self
  | _ => { self with inFlight := self.inFlight.erase call }

/-- The call with this key, if it was sent and has not ended. -/
def awaited (self : PingRefreshTask) (key : Nat) : Option PingCall :=
  self.inFlight.find? fun c => c.key = key && !c.lost

/-- One step. -/
def step (self : PingRefreshTask) : PingEvent → PingRefreshTask
  | .start now =>
    if self.state = .initial || self.state = .queued then
      { self with state := .running, isRunning := true }.serializedUpdate now
    else self
  | .cancel => self.cancel
  | .call key e now =>
    match self.awaited key with
    | some call => (self.onStateChange call e).serializedUpdate now
    | none => self

/-- A sequence of steps. -/
def run (self : PingRefreshTask) (events : List PingEvent) : PingRefreshTask :=
  events.foldl step self

/-! ## What should happen -/

/-- The call that ends with an event. -/
def ends (self : PingRefreshTask) : PingEvent → Option PingCall
  | .call _ .stalled _ => none
  | .call key _ _ => self.awaited key
  | _ => none

/-- The call that times out with an event. -/
def timesOut (self : PingRefreshTask) : PingEvent → Option PingCall
  | .call key .timeout _ => self.awaited key
  | _ => none

/-- The calls of the events of a run. -/
def along (which : PingRefreshTask → PingEvent → Option PingCall) (self : PingRefreshTask) :
    List PingEvent → List PingCall
  | [] => []
  | e :: events => (which self e).toList ++ along which (self.step e) events

/-- The entries have been dealt with from the front: some were sent a ping, and the others were left
out. -/
def Dealt (all : List KBucketEntry) (t : PingRefreshTask) : Prop :=
  ∃ front, all = front ++ t.todo ∧ (t.sent.map (·.target)).Sublist front ∧
    (t.sent.map (·.target) ++ t.skipped).Perm front

/-- Between two states, pings were only sent to entries that needed one, and only others were left
out. -/
def Chooses (now : PingSurroundings) (t t' : PingRefreshTask) : Prop :=
  ∃ calls out, t'.sent = t.sent ++ calls ∧ t'.skipped = t.skipped ++ out ∧
    (∀ c ∈ calls, t.checkAll = true ∨ now.needsPing c.target = true) ∧
    ∀ entry ∈ out, t.checkAll = false ∧ now.needsPing entry = false

variable {all : List KBucketEntry} {ended timeouts : List PingCall} {now : PingSurroundings}
    {t t₀ : PingRefreshTask}

theorem Chooses.refl (now : PingSurroundings) (t : PingRefreshTask) : Chooses now t t :=
  ⟨[], [], by simp, by simp, by simp, by simp⟩

theorem Chooses.trans {t' t'' : PingRefreshTask} (h : Chooses now t t') (h' : Chooses now t' t'')
    (hsame : t'.checkAll = t.checkAll) : Chooses now t t'' := by
  obtain ⟨calls, out, hsent, hskipped, hcalls, hout⟩ := h
  obtain ⟨calls', out', hsent', hskipped', hcalls', hout'⟩ := h'
  rw [hsame] at hcalls' hout'
  refine ⟨calls ++ calls', out ++ out', ?_, ?_, ?_, ?_⟩
  · rw [hsent', hsent, List.append_assoc]
  · rw [hskipped', hskipped, List.append_assoc]
  · exact List.forall_mem_append.mpr ⟨hcalls, hcalls'⟩
  · exact List.forall_mem_append.mpr ⟨hout, hout'⟩

/-! ## Updates -/

/-- A ping refresh that was `t₀`, was started and not cancelled, in the middle of something. -/
structure Pinging (t₀ : PingRefreshTask) (ended timeouts : List PingCall)
    (t : PingRefreshTask) : Prop where
  checkAll : t.checkAll = t₀.checkAll
  removeOnTimeout : t.removeOnTimeout = t₀.removeOnTimeout
  dealt : Dealt t₀.todo t
  calls : (t.inFlight ++ ended).Perm t.sent
  heard : ∀ c ∈ ended, c.lost = false
  bounded : t.inFlight.length ≤ MAX_CONCURRENT_TASK_REQUESTS
  removed : t.removed = if t₀.removeOnTimeout then timeouts.map (·.target.nodeId) else []

/-- The task has nothing left to do. -/
def Complete (self : PingRefreshTask) : Prop := self.todo = [] ∧ self.inFlight = []

/-- What holds after an update: entries are left only while no more pings may be sent, and the task
has finished exactly if it has nothing left to do. -/
structure Updated (t₀ : PingRefreshTask) (ended timeouts : List PingCall)
    (t : PingRefreshTask) : Prop
    extends Pinging t₀ ended timeouts t where
  full : t.todo = [] ∨ t.inFlight.length = MAX_CONCURRENT_TASK_REQUESTS
  live : t.state = .running ∨ t.state = .finished
  complete : t.state = .finished ↔ t.Complete

theorem isDone_iff (ht : t.isFinished = false) : t.isDone = true ↔ t.Complete := by
  unfold isDone Complete
  simp [ht]

theorem Dealt.skip {entry : KBucketEntry} {todo : List KBucketEntry} (h : Dealt all t)
    (htodo : t.todo = entry :: todo) :
    Dealt all (t.skip entry) := by
  obtain ⟨front, hall, hsent, hperm⟩ := h
  refine ⟨front ++ [entry], ?_, hsent.trans (List.sublist_append_left _ _), ?_⟩
  · rw [hall, htodo, PingRefreshTask.skip, htodo]
    simp
  · rw [PingRefreshTask.skip, ← List.append_assoc]
    exact hperm.append_right _

theorem Dealt.sendCall {entry : KBucketEntry} {todo : List KBucketEntry} (now : PingSurroundings)
    (h : Dealt all t)
    (htodo : t.todo = entry :: todo) : Dealt all (t.sendCall now entry) := by
  obtain ⟨front, hall, hsent, hperm⟩ := h
  refine ⟨front ++ [entry], ?_, ?_, ?_⟩
  · rw [hall, htodo, PingRefreshTask.sendCall, htodo]
    simp
  · rw [PingRefreshTask.sendCall, List.map_append]
    exact hsent.append_right _
  · rw [PingRefreshTask.sendCall, List.map_append, List.append_assoc]
    refine (List.Perm.append_left _ List.perm_append_comm).trans ?_
    rw [← List.append_assoc]
    exact hperm.append_right _

theorem Pinging.skip {entry : KBucketEntry} {todo : List KBucketEntry}
    (h : Pinging t₀ ended timeouts t) (htodo : t.todo = entry :: todo) :
    Pinging t₀ ended timeouts (t.skip entry) :=
  ⟨h.checkAll, h.removeOnTimeout, h.dealt.skip htodo, h.calls, h.heard, h.bounded, h.removed⟩

theorem Pinging.sendCall {entry : KBucketEntry} {todo : List KBucketEntry}
    (h : Pinging t₀ ended timeouts t) (htodo : t.todo = entry :: todo)
    (hroom : t.canDoRequest = true) :
    Pinging t₀ ended timeouts (t.sendCall now entry) where
  checkAll := h.checkAll
  removeOnTimeout := h.removeOnTimeout
  dealt := h.dealt.sendCall now htodo
  calls := by
    rw [PingRefreshTask.sendCall, List.append_assoc]
    refine (List.Perm.append_left _ List.perm_append_comm).trans ?_
    rw [← List.append_assoc]
    exact h.calls.append_right _
  heard := h.heard
  bounded := by
    simp only [canDoRequest, decide_eq_true_eq] at hroom
    simp only [PingRefreshTask.sendCall, List.length_append, List.length_singleton]
    omega
  removed := h.removed

/-- An update deals with entries until none is left, or no more pings may be sent. -/
theorem Pinging.update (now : PingSurroundings) (h : Pinging t₀ ended timeouts t) :
    Pinging t₀ ended timeouts (t.update now) ∧ (t.update now).state = t.state ∧
      Chooses now t (t.update now) ∧
      ((t.update now).todo = [] ∨
        (t.update now).inFlight.length = MAX_CONCURRENT_TASK_REQUESTS) := by
  fun_induction PingRefreshTask.update t now with
  | case1 t htodo => exact ⟨h, rfl, .refl now t, .inl htodo⟩
  | case2 t entry todo htodo hroom hneeds ih =>
    obtain ⟨hpinging, hstate, hchooses, hfull⟩ := ih (h.skip htodo)
    have hskip : Chooses now t (t.skip entry) :=
      ⟨[], [entry], by simp [PingRefreshTask.skip], rfl, by simp, by simpa using hneeds⟩
    exact ⟨hpinging, hstate, hskip.trans hchooses rfl, hfull⟩
  | case3 t entry todo htodo hroom hneeds ih =>
    obtain ⟨hpinging, hstate, hchooses, hfull⟩ := ih (h.sendCall htodo hroom)
    have hneeded : t.checkAll = true ∨ now.needsPing entry = true := by
      rw [Bool.not_eq_true, Bool.and_eq_false_iff, Bool.not_eq_false', Bool.not_eq_false'] at hneeds
      exact hneeds
    have hsend : Chooses now t (t.sendCall now entry) :=
      ⟨[_], [], rfl, by simp [PingRefreshTask.sendCall],
        List.forall_mem_singleton.mpr hneeded, by simp⟩
    exact ⟨hpinging, hstate, hsend.trans hchooses rfl, hfull⟩
  | case4 t entry todo htodo hfull =>
    refine ⟨h, rfl, .refl now t, .inr (le_antisymm h.bounded ?_)⟩
    simpa [canDoRequest] using hfull

/-- The state, and what the manager knows, do not matter. -/
theorem Pinging.of_same {t' : PingRefreshTask} (h : Pinging t₀ ended timeouts t) (state : TaskState)
    (notified : Nat) (isRunning : Bool)
    (heq : t' = { t with state := state, notified := notified, isRunning := isRunning }) :
    Pinging t₀ ended timeouts t' := by
  subst heq
  exact ⟨h.checkAll, h.removeOnTimeout, h.dealt, h.calls, h.heard, h.bounded, h.removed⟩

/-- `finish` for a task that is alive. -/
theorem finish_eq (ht : t.state = .running) :
    t.finish = { t with state := .finished, notified := t.notified + 1 } := by
  rw [finish, terminate, if_neg (by simp [isFinished, ht, TaskState.isTerminal])]

/-- A task that is alive is checked: it finishes if it has nothing left to do. -/
theorem Pinging.finishIfDone (now : PingSurroundings) (h : Pinging t₀ ended timeouts t)
    (ht : t.state = .running)
    (hfull : t.todo = [] ∨ t.inFlight.length = MAX_CONCURRENT_TASK_REQUESTS) :
    Updated t₀ ended timeouts t.finishIfDone ∧ Chooses now t t.finishIfDone := by
  have halive : t.isFinished = false := by simp [isFinished, ht, TaskState.isTerminal]
  unfold PingRefreshTask.finishIfDone
  split_ifs with hdone
  · rw [finish_eq ht]
    exact ⟨⟨h.of_same .finished _ _ rfl, hfull, .inr rfl,
      iff_of_true rfl ((isDone_iff halive).mp hdone)⟩, .refl now t⟩
  · refine ⟨⟨h, hfull, .inl ht, iff_of_false ?_ fun hcomplete =>
      hdone ((isDone_iff halive).mpr hcomplete)⟩, .refl now t⟩
    rw [ht]
    decide

/-- The task after the two checks of `serializedUpdate`. -/
def afterChecks (self : PingRefreshTask) (now : PingSurroundings) : PingRefreshTask :=
  if self.finishIfDone.canDoRequest && !self.finishIfDone.isFinished then
    (self.finishIfDone.update now).finishIfDone
  else self.finishIfDone

theorem serializedUpdate_eq (t : PingRefreshTask) (now : PingSurroundings) :
    t.serializedUpdate now =
    if (t.afterChecks now).isFinished then { t.afterChecks now with isRunning := false }
    else t.afterChecks now := rfl

theorem Pinging.afterChecks (now : PingSurroundings) (h : Pinging t₀ ended timeouts t)
    (hlive : t.state = .running ∨ t.state = .finished)
    (hcomplete : t.state = .finished → t.Complete) :
    Updated t₀ ended timeouts (t.afterChecks now) ∧ Chooses now t (t.afterChecks now) := by
  unfold PingRefreshTask.afterChecks
  obtain ht | ht := hlive
  · have halive : t.isFinished = false := by simp [isFinished, ht, TaskState.isTerminal]
    by_cases hdone : t.isDone = true
    · have hchecked := h.finishIfDone now ht (.inl ((isDone_iff halive).mp hdone).1)
      have hfinished : t.finishIfDone.isFinished = true := by
        rw [PingRefreshTask.finishIfDone, if_pos hdone, finish_eq ht]
        rfl
      rwa [hfinished, Bool.not_true, Bool.and_false, if_neg Bool.false_ne_true]
    · have hsame : t.finishIfDone = t := by rw [PingRefreshTask.finishIfDone, if_neg hdone]
      rw [hsame]
      split_ifs with hroom
      · obtain ⟨hpinging, hstate, hchooses, hfull⟩ := h.update now
        obtain ⟨hupdated, hsame'⟩ := hpinging.finishIfDone now (hstate.trans ht) hfull
        exact ⟨hupdated, hchooses.trans hsame' (hpinging.checkAll.trans h.checkAll.symm)⟩
      · have hfull : t.inFlight.length = MAX_CONCURRENT_TASK_REQUESTS := by
          refine le_antisymm h.bounded ?_
          simpa [halive, canDoRequest] using hroom
        have hchecked := h.finishIfDone now ht (.inr hfull)
        rwa [hsame] at hchecked
  · have hended : t.isFinished = true := by simp [isFinished, ht, TaskState.isTerminal]
    have hsame : t.finishIfDone = t := by
      unfold PingRefreshTask.finishIfDone
      split_ifs
      · rw [finish, terminate, if_pos hended]
      · rfl
    rw [hsame, hended, Bool.not_true, Bool.and_false, if_neg Bool.false_ne_true]
    exact ⟨⟨h, .inl (hcomplete ht).1, .inr ht, iff_of_true ht (hcomplete ht)⟩, .refl now t⟩

/-- `serializedUpdate` of a task that is alive, or has finished because it had nothing left to
do. -/
theorem Pinging.serializedUpdate (now : PingSurroundings) (h : Pinging t₀ ended timeouts t)
    (hlive : t.state = .running ∨ t.state = .finished)
    (hcomplete : t.state = .finished → t.Complete) :
    Updated t₀ ended timeouts (t.serializedUpdate now) ∧
      Chooses now t (t.serializedUpdate now) := by
  obtain ⟨hupdated, hchooses⟩ := h.afterChecks now hlive hcomplete
  rw [serializedUpdate_eq]
  split_ifs
  · exact ⟨⟨hupdated.of_same _ _ false rfl, hupdated.full, hupdated.live, hupdated.complete⟩,
      hchooses⟩
  · exact ⟨hupdated, hchooses⟩

/-! ## Steps and runs -/

theorem Updated.start (t₀ : PingRefreshTask) (now : PingSurroundings) (hstate : t₀.state = .initial)
    (hcalls : t₀.inFlight = []) (hsent : t₀.sent = []) (hskipped : t₀.skipped = [])
    (hremoved : t₀.removed = []) :
    Updated t₀ [] [] (t₀.step (.start now)) ∧ Chooses now t₀ (t₀.step (.start now)) := by
  have hstep :
      t₀.step (.start now) =
      { t₀ with state := .running, isRunning := true }.serializedUpdate now := by
    simp [PingRefreshTask.step, hstate]
  have hpinging : Pinging t₀ [] [] { t₀ with state := .running, isRunning := true } :=
    ⟨rfl, rfl, ⟨[], rfl, by simp [hsent], by simp [hsent, hskipped]⟩, by
      simp [hcalls, hsent], by simp,
      by simp [hcalls], by simp [hremoved]⟩
  have hchoose : Chooses now t₀ { t₀ with state := .running, isRunning := true } := .refl now t₀
  obtain ⟨hupdated, hchooses⟩ := hpinging.serializedUpdate now (.inl rfl) fun h => by cases h
  rw [hstep]
  exact ⟨hupdated, hchoose.trans hchooses rfl⟩

/-- A call in flight ends, with what its handler does. -/
theorem Updated.over (h : Updated t₀ ended timeouts t) {call : PingCall} (hcall : call ∈ t.inFlight)
    (hheard : call.lost = false)
    {t' : PingRefreshTask} {late : List PingCall} (htodo : t'.todo = t.todo)
    (hsent : t'.sent = t.sent) (hskipped : t'.skipped = t.skipped)
    (hoptions : t'.checkAll = t.checkAll ∧ t'.removeOnTimeout = t.removeOnTimeout)
    (hflight : t'.inFlight = t.inFlight.erase call)
    (hremoved : t'.removed = if t₀.removeOnTimeout then
    (timeouts ++ late).map (·.target.nodeId) else []) :
    Pinging t₀ (ended ++ [call]) (timeouts ++ late) t' where
  checkAll := hoptions.1.trans h.checkAll
  removeOnTimeout := hoptions.2.trans h.removeOnTimeout
  dealt := by
    unfold Dealt
    rw [htodo, hsent, hskipped]
    exact h.dealt
  calls := by
    rw [hflight, hsent]
    have hback : (call :: t.inFlight.erase call).Perm t.inFlight :=
      (List.perm_cons_erase hcall).symm
    refine List.Perm.trans ?_ h.calls
    refine List.Perm.trans ?_ (hback.append_right _)
    rw [← List.append_assoc]
    exact List.perm_append_comm
  heard := List.forall_mem_append.mpr ⟨h.heard, List.forall_mem_singleton.mpr hheard⟩
  bounded := by
    rw [hflight]
    exact List.erase_sublist.length_le.trans h.bounded
  removed := hremoved

/-- The task finished before the call ended only if there was no call. -/
theorem Updated.running_of_mem (h : Updated t₀ ended timeouts t) {call : PingCall}
    (hcall : call ∈ t.inFlight) :
    t.state = .running := by
  refine h.live.resolve_right fun hfinished => ?_
  rw [(h.complete.mp hfinished).2] at hcall
  cases hcall

/-- A step of a task that is started and not cancelled. -/
theorem Updated.step (h : Updated t₀ ended timeouts t) {e : PingEvent} (he : e ≠ .cancel) :
    Updated t₀ (ended ++ (t.ends e).toList) (timeouts ++ (t.timesOut e).toList) (t.step e) ∧
      Chooses e.surroundings t (t.step e) := by
  cases e with
  | cancel => exact absurd rfl he
  | start now =>
    have hstep : t.step (.start now) = t := by
      obtain hlive | hlive := h.live <;> simp [PingRefreshTask.step, hlive]
    rw [hstep]
    simp only [ends, timesOut, Option.toList_none, List.append_nil]
    exact ⟨h, .refl _ t⟩
  | call key ce now =>
    cases hfind : t.awaited key with
    | none =>
      have hstep : t.step (.call key ce now) = t := by simp [PingRefreshTask.step, hfind]
      have hends : t.ends (.call key ce now) = none := by cases ce <;> simp [ends, hfind]
      have htimes : t.timesOut (.call key ce now) = none := by cases ce <;> simp [timesOut, hfind]
      rw [hstep, hends, htimes]
      simp only [Option.toList_none, List.append_nil]
      exact ⟨h, .refl _ t⟩
    | some call =>
      have hcall := List.mem_of_find?_eq_some hfind
      have hheard : call.lost = false := by
        have := List.find?_some hfind
        simp only [Bool.and_eq_true, Bool.not_eq_true'] at this
        exact this.2
      have hrunning := h.running_of_mem hcall
      have halive : t.isFinished = false := by simp [isFinished, hrunning, TaskState.isTerminal]
      have hstep : t.step (.call key ce now) = (t.onStateChange call ce).serializedUpdate now := by
        simp [PingRefreshTask.step, hfind]
      rw [hstep]
      cases ce with
      | stalled =>
        simp only [ends, timesOut, Option.toList_none, List.append_nil]
        exact h.toPinging.serializedUpdate now h.live h.complete.mp
      | timeout =>
        let removed := if t₀.removeOnTimeout then t.removed ++ [call.target.nodeId] else t.removed
        have heq : t.onStateChange call .timeout =
            { t with inFlight := t.inFlight.erase call, removed := removed } := by
          simp only [onStateChange, isFinished, hrunning, TaskState.isTerminal, removed]
          cases hoption : t₀.removeOnTimeout <;> simp [callTimeout, h.removeOnTimeout, hoption]
        have hremoved : removed = if t₀.removeOnTimeout then
            (timeouts ++ [call]).map (·.target.nodeId) else [] := by
          simp only [removed, h.removed]
          cases t₀.removeOnTimeout <;> simp
        have hover : Pinging t₀ (ended ++ [call]) (timeouts ++ [call])
            { t with inFlight := t.inFlight.erase call, removed := removed } :=
          h.over hcall hheard rfl rfl rfl ⟨rfl, rfl⟩ rfl hremoved
        simp only [ends, timesOut, hfind, Option.toList_some]
        rw [heq]
        exact hover.serializedUpdate now (.inl hrunning) fun hfinished => by
          cases hrunning.symm.trans hfinished
      | responded | err =>
        have hover :
            Pinging t₀ (ended ++ [call]) timeouts { t with inFlight := t.inFlight.erase call } := by
          have hremoved := h.removed
          rw [← List.append_nil timeouts] at hremoved ⊢
          exact h.over hcall hheard rfl rfl rfl ⟨rfl, rfl⟩ rfl hremoved
        simp only [ends, timesOut, hfind, Option.toList_some, Option.toList_none, List.append_nil]
        exact hover.serializedUpdate now (.inl hrunning) fun hfinished => by
          cases hrunning.symm.trans hfinished

theorem Updated.run (h : Updated t₀ ended timeouts t) {events : List PingEvent}
    (hcancel : ∀ e ∈ events, e ≠ .cancel) :
    Updated t₀ (ended ++ along ends t events) (timeouts ++ along timesOut t events)
      (t.run events) := by
  induction events generalizing t ended timeouts with
  | nil => simpa [along, PingRefreshTask.run] using h
  | cons e events ih =>
    obtain ⟨he, hlater⟩ := List.forall_mem_cons.mp hcancel
    have hrest := ih (h.step he).1 hlater
    simp only [List.append_assoc] at hrest
    exact hrest

/-! ## The whole -/

/-- What a ping refresh that was `t₀` has done by now: `ended` are its calls that have ended, and
`timeouts` those of them that timed out. -/
structure Refreshes (t₀ t : PingRefreshTask) (ended timeouts : List PingCall) : Prop where
  /-- No node gets two pings. -/
  once : (t.sent.map (·.target.nodeId)).Nodup ∧ ∀ c ∈ t.sent, c.target ∈ t₀.todo
  bounded : t.inFlight.length ≤ MAX_CONCURRENT_TASK_REQUESTS
  /-- A call is in flight until it ends. -/
  calls : (t.inFlight ++ ended).Perm t.sent
  /-- The task waits for a call, or has finished and dealt with every entry. -/
  progress : t.state = .running ∧ t.inFlight ≠ [] ∨
    t.state = .finished ∧ t.inFlight = [] ∧ (t.sent.map (·.target) ++ t.skipped).Perm t₀.todo
  /-- A call that the server does not have does not end, nor does the task then. -/
  lost : (∃ c ∈ t.sent, c.lost = true) → t.state = .running
  removed : t.removed = if t₀.removeOnTimeout then timeouts.map (·.target.nodeId) else []

theorem Updated.refreshes (h : Updated t₀ ended timeouts t)
    (hids : (t₀.todo.map (·.nodeId)).Nodup) :
    Refreshes t₀ t ended timeouts := by
  obtain ⟨front, hall, hsub, hperm⟩ := h.dealt
  have hsent : (t.sent.map (·.target)).Sublist t₀.todo :=
    hall ▸ hsub.trans (List.sublist_append_left _ _)
  refine ⟨⟨?_, fun c hc => hsent.subset (List.mem_map_of_mem hc)⟩, h.bounded, h.calls, ?_,
    ?_, h.removed⟩
  · have hsub' := (hsent.map (·.nodeId)).nodup hids
    rwa [List.map_map] at hsub'
  · obtain hrunning | hfinished := h.live
    · refine .inl ⟨hrunning, fun hnone => ?_⟩
      obtain htodo | hfull := h.full
      · have := h.complete.mpr ⟨htodo, hnone⟩
        rw [hrunning] at this
        cases this
      · rw [hnone] at hfull
        cases hfull
    · obtain ⟨htodo, hnone⟩ := h.complete.mp hfinished
      rw [htodo, List.append_nil] at hall
      exact .inr ⟨hfinished, hnone, hall ▸ hperm⟩
  · rintro ⟨c, hc, hlost⟩
    obtain hflight | hended := List.mem_append.mp (h.calls.mem_iff.mpr hc)
    · exact h.running_of_mem hflight
    · rw [h.heard c hended] at hlost
      cases hlost

/-- In every run of a ping refresh that is not cancelled, and after every event of it: it does what
`Refreshes` says, a ping goes out only to an entry that needs one (unless all are checked), and an
entry that is left out does not need one. -/
theorem run_pings (options : List PingOption) (needsPing : KBucketEntry → Bool) (bucket : KBucket)
    (hids : (bucket.entries.map (·.nodeId)).Nodup) (now : PingSurroundings)
    (events : List PingEvent) (hcancel : ∀ e ∈ events, e ≠ .cancel) :
    let t₀ := new options needsPing bucket
    let t₁ := t₀.step (.start now)
    Refreshes t₀ (t₁.run events) (along ends t₁ events) (along timesOut t₁ events) ∧
      Chooses now t₀ t₁ ∧
      ∀ pre e post, events = pre ++ e :: post → Chooses e.surroundings (t₁.run pre)
        ((t₁.run pre).step e) := by
  intro t₀ t₁
  have hentries : t₀.todo.Sublist bucket.entries := List.filter_sublist
  obtain ⟨hstart, hchooses⟩ := Updated.start t₀ now rfl rfl rfl rfl rfl
  refine ⟨(hstart.run hcancel).refreshes ((hentries.map _).nodup hids), hchooses, ?_⟩
  rintro pre e post rfl
  obtain ⟨hpre, he, -⟩ := List.forall_mem_append.mp hcancel |>.imp_right List.forall_mem_cons.mp
  exact ((hstart.run hpre).step he).2

/-- An entry whose id starts with the byte `b`, for the example. -/
def pingedAt (b : UInt8) : KBucketEntry :=
  { nodeId := Id.zero.setByte 0 b, sockaddr := .inet ⟨[8, 8, 4, b], rfl⟩ 39001 }

/-- All entries need a ping, but the one that starts with this byte. -/
def allBut (b : UInt8) : PingSurroundings :=
  ⟨fun entry => entry.nodeId ≠ Id.zero.setByte 0 b, fun _ => none⟩

/-- A ping refresh of three entries. -/
def threePings : PingRefreshTask :=
  new [.removeOnTimeout] (allBut 9).needsPing
    { pfx := Prefix.all, homeBucket := true, entries := [pingedAt 1, pingedAt 2, pingedAt 3] }

/-- One of the entries has been updated since; of the two that get a ping one answers with an error,
and one does not answer. -/
def twoEnd : List PingEvent := [.call 0 .timeout (allBut 9), .call 1 .err (allBut 9)]

theorem run_pings_three :
    let t₁ := threePings.step (.start (allBut 2))
    (t₁.run twoEnd).state = .finished ∧ (t₁.run twoEnd).removed = [(pingedAt 1).nodeId] ∧
      Refreshes threePings (t₁.run twoEnd) (along ends t₁ twoEnd) (along timesOut t₁ twoEnd) := by
  refine ⟨by decide +kernel, by decide +kernel, ?_⟩
  exact (run_pings [.removeOnTimeout] (allBut 9).needsPing
    { pfx := Prefix.all, homeBucket := true, entries := [pingedAt 1, pingedAt 2, pingedAt 3] }
      (by decide +kernel) (allBut 2)
    twoEnd (by simp [twoEnd])).1

end PingRefreshTask

/-! ## The ping refreshes of a routing table -/

/-- `RoutingTable::maintenanceTasks`, with all tasks that it ever had. A bucket is told by its
pointer. -/
structure Maintenance (β : Type*) where
  tasks : List (β × PingRefreshTask) := []
  maintenanceTasks : List (β × Nat) := []

/-- What happens to the ping refreshes. -/
inductive MaintenanceEvent (β : Type*) where
  | tryPing (bucket : β) (content : KBucket) (options : List PingOption)
      (needsPing : KBucketEntry → Bool)
  | task (i : Nat) (e : PingEvent)

namespace Maintenance

variable {β : Type*} [DecidableEq β]

/-- `maintenanceTasks.count(bucket) > 0`. -/
def count (self : Maintenance β) (bucket : β) : Bool := self.maintenanceTasks.any (·.1 = bucket)

/-- `RoutingTable::tryPingMaintenance`, up to `TaskManager::add`. -/
def tryPingMaintenance (self : Maintenance β) (bucket : β) (content : KBucket)
    (options : List PingOption) (needsPing : KBucketEntry → Bool) : Maintenance β :=
  if self.count bucket then self
  else
    { tasks := self.tasks ++ [(bucket, .new options needsPing content)]
      maintenanceTasks := self.maintenanceTasks ++ [(bucket, self.tasks.length)] }

/-- An event of a task. The listener erases its bucket when the task ends. -/
def taskStep (self : Maintenance β) (i : Nat) (e : PingEvent) : Maintenance β :=
  match self.tasks[i]? with
  | none => self
  | some (bucket, t) =>
    let t' := t.step e
    { tasks := self.tasks.set i (bucket, t')
      maintenanceTasks :=
        if t'.notified = t.notified then self.maintenanceTasks
        else self.maintenanceTasks.filter fun entry => entry.1 ≠ bucket }

/-- One step. -/
def step (self : Maintenance β) : MaintenanceEvent β → Maintenance β
  | .tryPing bucket content options needsPing =>
    self.tryPingMaintenance bucket content options needsPing
  | .task i e => self.taskStep i e

/-- A sequence of steps. -/
def run (self : Maintenance β) (events : List (MaintenanceEvent β)) : Maintenance β :=
  events.foldl step self

end Maintenance

namespace PingRefreshTask

variable {t t' : PingRefreshTask}

/-- Between two states the listeners were notified if the task ended, and not otherwise. -/
def Notifies (t t' : PingRefreshTask) : Prop :=
  t'.notified = t.notified ∧ t'.isFinished = t.isFinished ∨
    t'.notified = t.notified + 1 ∧ t.isFinished = false ∧ t'.isFinished = true

theorem Notifies.refl (t : PingRefreshTask) : Notifies t t := .inl ⟨rfl, rfl⟩

theorem Notifies.trans {t'' : PingRefreshTask} (h : Notifies t t') (h' : Notifies t' t'') :
    Notifies t t'' := by
  obtain ⟨hn, hf⟩ | ⟨hn, ht, hf⟩ := h <;> obtain ⟨hn', hf'⟩ | ⟨hn', ht', hf'⟩ := h'
  · exact .inl ⟨hn'.trans hn, hf'.trans hf⟩
  · exact .inr ⟨by rw [hn', hn], hf ▸ ht', hf'⟩
  · exact .inr ⟨hn'.trans hn, ht, hf'.trans hf⟩
  · rw [hf] at ht'
    cases ht'

theorem terminate_notifies {state : TaskState} (hstate : state.isTerminal = true) :
    Notifies t (t.terminate state) := by
  unfold terminate
  split_ifs with ht
  · exact .refl t
  · exact .inr ⟨rfl, by simpa using ht, hstate⟩

theorem finishIfDone_notifies : Notifies t t.finishIfDone := by
  unfold finishIfDone
  split_ifs
  · exact terminate_notifies rfl
  · exact .refl t

theorem update_notifies (now : PingSurroundings) : Notifies t (t.update now) := by
  fun_induction PingRefreshTask.update t now with
  | case1 t => exact .refl t
  | case2 t entry todo htodo hroom hneeds ih => exact ih
  | case3 t entry todo htodo hroom hneeds ih => exact ih
  | case4 t => exact .refl t

theorem serializedUpdate_notifies (now : PingSurroundings) :
    Notifies t (t.serializedUpdate now) := by
  have hchecks : Notifies t (t.afterChecks now) := by
    unfold afterChecks
    split_ifs
    · exact (finishIfDone_notifies.trans (update_notifies now)).trans finishIfDone_notifies
    · exact finishIfDone_notifies
  rw [serializedUpdate_eq]
  split_ifs
  · exact hchecks
  · exact hchecks

theorem onStateChange_notifies (call : PingCall) (e : LookupTask.CallEvent) :
    Notifies t (t.onStateChange call e) := by
  cases e with
  | timeout =>
    unfold onStateChange callTimeout
    dsimp only
    split_ifs <;> exact .refl t
  | _ => exact .refl t

theorem step_notifies (t : PingRefreshTask) (e : PingEvent) : Notifies t (t.step e) := by
  cases e with
  | start now =>
    unfold step
    dsimp only
    split_ifs with hstate
    · have hstart : Notifies t { t with state := .running, isRunning := true } := by
        refine .inl ⟨rfl, ?_⟩
        obtain h | h : t.state = .initial ∨ t.state = .queued := by simpa using hstate
        · simp [isFinished, h, TaskState.isTerminal]
        · simp [isFinished, h, TaskState.isTerminal]
      exact hstart.trans (serializedUpdate_notifies now)
    · exact .refl t
  | cancel => exact terminate_notifies rfl
  | call key ce now =>
    unfold step
    dsimp only
    split
    · exact (onStateChange_notifies _ ce).trans (serializedUpdate_notifies now)
    · exact .refl t

/-- The task waits for a call that the server does not have. -/
def Stuck (t : PingRefreshTask) : Prop := t.isFinished = false ∧ ∃ c ∈ t.inFlight, c.lost = true

theorem Stuck.finishIfDone (h : Stuck t) : t.finishIfDone = t := by
  obtain ⟨hf, c, hc, -⟩ := h
  unfold PingRefreshTask.finishIfDone
  rw [if_neg]
  simp [isDone, hf, List.ne_nil_of_mem hc]

theorem Stuck.update (now : PingSurroundings) (h : Stuck t) : Stuck (t.update now) := by
  fun_induction PingRefreshTask.update t now with
  | case1 t => exact h
  | case2 t entry todo htodo hroom hneeds ih => exact ih h
  | case3 t entry todo htodo hroom hneeds ih =>
    obtain ⟨hf, c, hc, hlost⟩ := h
    exact ih ⟨hf, c, List.mem_append_left _ hc, hlost⟩
  | case4 t => exact h

theorem Stuck.serializedUpdate (now : PingSurroundings) (h : Stuck t) :
    Stuck (t.serializedUpdate now) := by
  have hchecks : Stuck (t.afterChecks now) := by
    unfold afterChecks
    rw [h.finishIfDone]
    split_ifs
    · rw [(h.update now).finishIfDone]
      exact h.update now
    · exact h
  rw [serializedUpdate_eq, if_neg (by simp [hchecks.1])]
  exact hchecks

/-- It waits until it is cancelled. -/
theorem Stuck.step (h : Stuck t) {e : PingEvent} (he : e ≠ .cancel) : Stuck (t.step e) := by
  cases e with
  | cancel => exact absurd rfl he
  | start now =>
    unfold PingRefreshTask.step
    dsimp only
    split_ifs
    · exact Stuck.serializedUpdate now ⟨rfl, h.2⟩
    · exact h
  | call key ce now =>
    unfold PingRefreshTask.step
    dsimp only
    split
    · next call hfind =>
      have hheard := List.find?_some hfind
      have hover : Stuck { t with inFlight := t.inFlight.erase call } := by
        obtain ⟨hf, c, hc, hlost⟩ := h
        refine ⟨hf, c, (List.mem_erase_of_ne ?_).mpr hc, hlost⟩
        rintro rfl
        simp [hlost] at hheard
      refine Stuck.serializedUpdate now ?_
      cases ce with
      | stalled => exact h
      | timeout =>
        unfold onStateChange callTimeout
        dsimp only
        split_ifs <;> exact hover
      | _ => exact hover
    · exact h

end PingRefreshTask

namespace Maintenance

variable {β : Type*} [DecidableEq β] {s : Maintenance β} {bucket : β} {i j : Nat}
    {t : PingRefreshTask}

/-- The task is one of the bucket, and has not ended. -/
def Alive (s : Maintenance β) (bucket : β) (i : Nat) : Prop :=
  ∃ t, s.tasks[i]? = some (bucket, t) ∧ t.isFinished = false

/-- The map has the tasks that have not ended, and one at most for each bucket. -/
structure Maintained (s : Maintenance β) : Prop where
  keys : (s.maintenanceTasks.map (·.1)).Nodup
  mem_iff : ∀ bucket i, (bucket, i) ∈ s.maintenanceTasks ↔ s.Alive bucket i

theorem Maintained.count_iff (h : Maintained s) : s.count bucket = true ↔
    ∃ i, s.Alive bucket i := by
  simp only [count, List.any_eq_true, decide_eq_true_eq, ← h.mem_iff]
  constructor
  · rintro ⟨⟨b, i⟩, hmem, rfl⟩
    exact ⟨i, hmem⟩
  · rintro ⟨i, hmem⟩
    exact ⟨_, hmem, rfl⟩

omit [DecidableEq β] in
/-- Of a bucket there is at most one. -/
theorem Maintained.unique (h : Maintained s) (hi : s.Alive bucket i)
    (hj : s.Alive bucket j) : i = j := by
  have hinj :=
    List.inj_on_of_nodup_map h.keys ((h.mem_iff bucket i).mpr hi) ((h.mem_iff bucket j).mpr hj) rfl
  exact (Prod.ext_iff.mp hinj).2

theorem Maintained.tryPing (h : Maintained s) (bucket : β) (content : KBucket)
    (options : List PingOption)
    (needsPing : KBucketEntry → Bool) :
    Maintained (s.tryPingMaintenance bucket content options needsPing) := by
  unfold tryPingMaintenance
  split_ifs with hcount
  · exact h
  have hfresh : bucket ∉ s.maintenanceTasks.map (·.1) := by
    simpa [count] using hcount
  constructor
  · rw [List.map_append, List.map_singleton, List.nodup_append_comm]
    exact List.nodup_cons.mpr ⟨hfresh, h.keys⟩
  · intro b i
    rw [List.mem_append, h.mem_iff, List.mem_singleton]
    unfold Alive
    by_cases hi : i = s.tasks.length
    · have hold : s.tasks[i]? = none := List.getElem?_eq_none hi.ge
      have hnew : (s.tasks ++ [(bucket, PingRefreshTask.new options needsPing content)])[i]? =
          some (bucket, .new options needsPing content) := by
        rw [hi, List.getElem?_concat_length]
      rw [hold, hnew]
      simp only [reduceCtorEq, false_and, exists_false, false_or, Option.some.injEq, Prod.mk.injEq,
        hi, and_true]
      exact ⟨fun hb => ⟨_, ⟨hb.symm, rfl⟩, rfl⟩, fun ⟨_, hb, _⟩ => hb.1.symm⟩
    · have hsame :
          (s.tasks ++ [(bucket, PingRefreshTask.new options needsPing content)])[i]? =
          s.tasks[i]? := by
        grind
      rw [hsame]
      exact or_iff_left fun heq => hi (Prod.ext_iff.mp heq).2

theorem Maintained.taskStep (h : Maintained s) (i : Nat) (e : PingEvent) :
    Maintained (s.taskStep i e) := by
  unfold Maintenance.taskStep
  split
  · exact h
  · next bucket t hi =>
    have hlt : i < s.tasks.length := (List.getElem?_eq_some_iff.mp hi).1
    have hself : (s.tasks.set i (bucket, t.step e))[i]? = some (bucket, t.step e) :=
      List.getElem?_set_self hlt
    have hother : ∀ j, j ≠ i → (s.tasks.set i (bucket, t.step e))[j]? = s.tasks[j]? := fun j hj =>
      List.getElem?_set_ne hj.symm
    dsimp only
    obtain ⟨hsame, hfinished⟩ | ⟨hmore, halive, hended⟩ := t.step_notifies e
    · rw [if_pos hsame]
      refine ⟨h.keys, fun b j => ?_⟩
      rw [h.mem_iff]
      unfold Alive
      by_cases hj : j = i
      · subst hj
        rw [hi, hself]
        simp [hfinished]
      · rw [hother j hj]
    · rw [if_neg (by omega)]
      refine ⟨?_, fun b j => ?_⟩
      · exact (List.filter_sublist.map _).nodup h.keys
      · rw [List.mem_filter, h.mem_iff]
        unfold Alive
        by_cases hj : j = i
        · subst hj
          rw [hi, hself]
          simp only [Option.some.injEq, Prod.mk.injEq, decide_eq_true_eq]
          refine iff_of_false ?_ ?_
          · rintro ⟨⟨_, ⟨rfl, -⟩, -⟩, hne⟩
            exact hne rfl
          · rintro ⟨_, ⟨-, rfl⟩, hf⟩
            rw [hended] at hf
            cases hf
        · rw [hother j hj]
          refine and_iff_left_of_imp fun hb => ?_
          rw [decide_eq_true_eq]
          rintro rfl
          exact hj (h.unique hb ⟨t, hi, halive⟩)

theorem run_maintained (events : List (MaintenanceEvent β)) : Maintained (run {} events) := by
  induction events using List.reverseRecOn with
  | nil => exact ⟨List.nodup_nil, by simp [run, Alive]⟩
  | append_singleton events e ih =>
    rw [run, List.foldl_append]
    cases e with
    | tryPing bucket content options needsPing => exact ih.tryPing bucket content options needsPing
    | task i e => exact ih.taskStep i e

/-- A ping that the server does not have keeps its bucket from being refreshed, until the task is
cancelled. -/
theorem run_stuck {later : List (MaintenanceEvent β)} (hi : s.tasks[i]? = some (bucket, t))
    (ht : t.Stuck)
    (hcancel : .task i .cancel ∉ later) : ∃ t',
    (s.run later).tasks[i]? = some (bucket, t') ∧ t'.Stuck := by
  induction later generalizing s t with
  | nil => exact ⟨t, hi, ht⟩
  | cons e later ih =>
    obtain ⟨hne, hrest⟩ := not_or.mp (mt List.mem_cons.mpr hcancel)
    have hstep : ∃ t', (s.step e).tasks[i]? = some (bucket, t') ∧ t'.Stuck := by
      have hlt : i < s.tasks.length := (List.getElem?_eq_some_iff.mp hi).1
      cases e with
      | tryPing b content options needsPing =>
        refine ⟨t, ?_, ht⟩
        change (s.tryPingMaintenance b content options needsPing).tasks[i]? = _
        unfold tryPingMaintenance
        split_ifs
        · exact hi
        · rw [List.getElem?_append_left hlt, hi]
      | task j e =>
        change ∃ t', (s.taskStep j e).tasks[i]? = _ ∧ _
        unfold taskStep
        by_cases hj : j = i
        · subst hj
          rw [hi]
          exact ⟨t.step e, List.getElem?_set_self hlt, ht.step fun he => hne (by rw [he])⟩
        · split
          · exact ⟨t, hi, ht⟩
          · exact ⟨t, by rw [List.getElem?_set_ne hj, hi], ht⟩
    obtain ⟨t', hi', ht'⟩ := hstep
    exact ih hi' ht' hrest

/-- In every run of the ping refreshes of a routing table, there is at most one of a bucket that has
not ended, and another one is made exactly if there is none. One that waits for a ping whose
transaction id was in use does not end by itself: no other one is made for its bucket. -/
theorem maintenance_exclusive (events : List (MaintenanceEvent β)) :
    (∀ bucket i j, (run {} events).Alive bucket i → (run {} events).Alive bucket j → i = j) ∧
    (∀ bucket content options needsPing,
      (run {} events).tryPingMaintenance bucket content options needsPing = run {} events ↔
        ∃ i, (run {} events).Alive bucket i) ∧
    ∀ bucket i t later, (run {} events).tasks[i]? = some (bucket, t) → t.Stuck →
      .task i .cancel ∉ later →
      ∀ content options needsPing, (run {} (events ++ later)).tryPingMaintenance bucket content
        options needsPing =
        run {} (events ++ later) := by
  have hagain (events : List (MaintenanceEvent β)) (bucket : β) (content : KBucket)
      (options : List PingOption)
      (needsPing : KBucketEntry → Bool) :
      (run {} events).tryPingMaintenance bucket content options needsPing = run {} events ↔
        ∃ i, (run {} events).Alive bucket i := by
    rw [← (run_maintained events).count_iff]
    unfold tryPingMaintenance
    refine ⟨fun h => ?_, fun h => if_pos h⟩
    by_contra hcount
    rw [if_neg hcount] at h
    have hlength := congrArg (fun s => s.tasks.length) h
    simp at hlength
  refine ⟨fun bucket i j => (run_maintained events).unique, hagain events, ?_⟩
  intro bucket i t later hi ht hcancel content options needsPing
  obtain ⟨t', hi', ht'⟩ := run_stuck hi ht hcancel
  refine (hagain _ bucket content options needsPing).mpr ⟨i, t', ?_, ht'.1⟩
  rw [← hi', run, run, run, List.foldl_append]

end Maintenance

end Boson
