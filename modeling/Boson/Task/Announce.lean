import Boson.Node.Callbacks
import Boson.Task.LookupTask

/-!
# Announcements (`src/core/task/value_announce.*`, `peer_announce.*`, `task.cc`)

An announcement sends a request to each node of a closest set, with the token that the node gave,
and at most ten at a time. `todo` are the nodes that it has not sent one to yet; the callback that
`sendCall` gets takes a node out of it.

As for lookups, a call is named by a key, sending does not throw, and no update runs inside another
one. What a node answers is of no concern: the handlers of `Task` do nothing.

* `run_requests`: in every run, the requests so far are those to the first members, ten more than
  calls have ended.
* `Announces`: what an announcement should do: when no call is in flight, every member was sent its
  request, and it finishes exactly then.
* `announces_iff`: `PeerAnnounce::isDone` does not look at the calls in flight.
-/

namespace Boson

/-- The value of a `ValueAnnounce`, or the peer of a `PeerAnnounce`. -/
inductive Announcement where
  | value (value : Value)
  | peer (peer : PeerInfo)
  deriving DecidableEq

/-- The request for a candidate, for a DHT of this family. A token is an `int`. -/
def Announcement.request (type : Network) (candidateNode : CandidateNode) : Announcement → Content
  | .value v => (CallSite.valueAnnounce v (.ofInt candidateNode.token)).request type
  | .peer p => (CallSite.peerAnnounce p (.ofInt candidateNode.token)).request type

/-- An `RPCCall` of an announcement. -/
structure AnnounceCall where
  key : Nat
  target : CandidateNode
  request : Content
  deriving DecidableEq

/-- `ValueAnnounce` or `PeerAnnounce`, with the part of `Task` under it, and all calls that it
made. -/
structure AnnounceTask where
  type : Network
  announcement : Announcement
  state : TaskState := .initial
  todo : List CandidateNode
  inFlight : List AnnounceCall := []
  nextKey : Nat := 0
  isRunning : Bool := false
  notified : Nat := 0
  sent : List AnnounceCall := []
  deriving DecidableEq

/-- What happens to an announcement. -/
inductive AnnounceEvent where
  | start
  | cancel
  | call (key : Nat) (e : LookupTask.CallEvent)

namespace AnnounceTask

/-- `ValueAnnounce::ValueAnnounce` and `PeerAnnounce::PeerAnnounce`. -/
def new (type : Network) (announcement : Announcement) (closestSet : ClosestSet) :
    AnnounceTask where
  type := type
  announcement := announcement
  todo := closestSet.getEntries

/-- `Task::isFinished`. -/
def isFinished (self : AnnounceTask) : Bool := self.state.isTerminal

/-- `Task::canDoRequest`. -/
def canDoRequest (self : AnnounceTask) : Bool := self.inFlight.length < MAX_CONCURRENT_TASK_REQUESTS

/-- The end of a task, by `finish` or `cancel`. -/
def terminate (self : AnnounceTask) (state : TaskState) : AnnounceTask :=
  if self.isFinished then self else { self with state := state, notified := self.notified + 1 }

/-- `Task::finish`. -/
def finish (self : AnnounceTask) : AnnounceTask := self.terminate .finished

/-- `Task::cancel`. -/
def cancel (self : AnnounceTask) : AnnounceTask := self.terminate .canceled

/-- `ValueAnnounce::isDone` and `PeerAnnounce::isDone`. -/
def isDone (self : AnnounceTask) : Bool :=
  match self.announcement with
  | .value _ => self.todo.isEmpty && (self.inFlight.isEmpty || self.isFinished)
  | .peer _ => self.todo.isEmpty

/-- `Task::sendCall`, with the callback that takes the candidate out of `todo`. `update` asks
`canDoRequest` before, as `sendCall` does again. -/
def sendCall (self : AnnounceTask) (candidateNode : CandidateNode) : AnnounceTask :=
  let call : AnnounceCall :=
    { key := self.nextKey, target := candidateNode,
      request := self.announcement.request self.type candidateNode }
  { self with
    todo := self.todo.tail
    inFlight := self.inFlight ++ [call]
    nextKey := self.nextKey + 1
    sent := self.sent ++ [call] }

/-- `ValueAnnounce::update` and `PeerAnnounce::update`. -/
def update (self : AnnounceTask) : AnnounceTask :=
  match _h : self.todo with
  | [] => self
  | candidateNode :: _ => if self.canDoRequest then (self.sendCall candidateNode).update else self
termination_by self.todo.length
decreasing_by simp [sendCall, _h]

/-- `if (isDone()) finish()`. -/
def finishIfDone (self : AnnounceTask) : AnnounceTask := if self.isDone then self.finish else self

/-- `Task::serializedUpdate`, with `TaskManager::removeTask`. -/
def serializedUpdate (self : AnnounceTask) : AnnounceTask :=
  let self := self.finishIfDone
  let self := if self.canDoRequest && !self.isFinished then self.update.finishIfDone else self
  if self.isFinished then { self with isRunning := false } else self

/-- The state change handler that `Task::sendCall` sets, up to `serializedUpdate`. -/
def onStateChange (self : AnnounceTask) (call : AnnounceCall) : LookupTask.CallEvent → AnnounceTask
  | .stalled => self
  | _ => { self with inFlight := self.inFlight.erase call }

/-- What happens before `serializedUpdate`, and whether that is called. -/
def handle (self : AnnounceTask) : AnnounceEvent → AnnounceTask × Bool
  | .start =>
    if self.state = .initial || self.state = .queued then
      ({ self with state := .running, isRunning := true }, true)
    else (self, false)
  | .cancel => (self.cancel, false)
  | .call key e =>
    match self.inFlight.find? (·.key = key) with
    | some call => (self.onStateChange call e, true)
    | none => (self, false)

/-- One step. -/
def step (self : AnnounceTask) (e : AnnounceEvent) : AnnounceTask :=
  let (self, updates) := self.handle e
  if updates then self.serializedUpdate else self

/-- A sequence of steps. -/
def run (self : AnnounceTask) (events : List AnnounceEvent) : AnnounceTask := events.foldl step self

/-- A call responds, fails or times out. -/
def ends (self : AnnounceTask) : AnnounceEvent → Bool
  | .call _ .stalled => false
  | .call key _ => (self.inFlight.find? (·.key = key)).isSome
  | _ => false

/-- How many calls end in a run. -/
def ended (self : AnnounceTask) : List AnnounceEvent → Nat
  | [] => 0
  | e :: events => (if self.ends e then 1 else 0) + (self.step e).ended events

/-! ## What should happen -/

/-- A node, with the request for it. -/
def messageTo (self : AnnounceTask) (member : CandidateNode) : CandidateNode × Content :=
  (member, self.announcement.request self.type member)

/-- The requests that were sent, and to whom. -/
def requests (self : AnnounceTask) : List (CandidateNode × Content) :=
  self.sent.map fun c => (c.target, c.request)

/-- What should be true of a task that was `t₀`: no member was sent more than the request for it;
each was sent that if no call is in flight; and the task has finished exactly if each was sent that
and no call is in flight. -/
structure Meets (t₀ t : AnnounceTask) : Prop where
  once : t.requests <+: t₀.todo.map t₀.messageTo
  all : t.inFlight = [] → t.requests = t₀.todo.map t₀.messageTo
  finished : t.state = .finished ↔ t.requests = t₀.todo.map t₀.messageTo ∧ t.inFlight = []

/-- It is true of the task in every state of the run, once it is started. -/
def Announces (self : AnnounceTask) (events : List AnnounceEvent) : Prop :=
  ∀ pre, pre <+: events → Meets self (self.run (.start :: pre))

variable {t₀ t : AnnounceTask} {n : Nat}

/-! ## Updates -/

/-- The requests of a task that was `t₀`, was started and not cancelled, and of whose calls `n` have
ended. -/
structure Sending (t₀ : AnnounceTask) (n : Nat) (t : AnnounceTask) : Prop where
  same : t.type = t₀.type ∧ t.announcement = t₀.announcement
  messages : t.requests ++ t.todo.map t₀.messageTo = t₀.todo.map t₀.messageTo
  counted : t.inFlight.length + n = t.sent.length
  bounded : t.inFlight.length ≤ MAX_CONCURRENT_TASK_REQUESTS

/-- The task need not go on: it has nothing left to do, and a `ValueAnnounce` has no call in
flight. -/
def Complete (self : AnnounceTask) : Prop :=
  self.todo = [] ∧ ∀ v, self.announcement = .value v → self.inFlight = []

/-- What holds after an update: requests are left only while no more may be sent, and a task that
need not go on has finished. -/
structure Updated (t₀ : AnnounceTask) (n : Nat) (t : AnnounceTask) :
    Prop extends Sending t₀ n t where
  full : t.todo = [] ∨ t.inFlight.length = MAX_CONCURRENT_TASK_REQUESTS
  live : t.state = .running ∨ t.state = .finished
  complete : t.state = .finished ↔ t.Complete

theorem isDone_iff (ht : t.isFinished = false) : t.isDone = true ↔ t.Complete := by
  unfold isDone Complete
  cases t.announcement with
  | value v => simp [ht]
  | peer p => simp

theorem Sending.sendCall {candidateNode : CandidateNode} {todo : List CandidateNode}
    (h : Sending t₀ n t) (htodo : t.todo = candidateNode :: todo) (hroom : t.canDoRequest = true) :
    Sending t₀ n (t.sendCall candidateNode) where
  same := h.same
  messages := by
    have hrequests : (t.sendCall candidateNode).requests =
        t.requests ++ [t₀.messageTo candidateNode] := by
      simp [AnnounceTask.sendCall, requests, messageTo, h.same.1, h.same.2]
    show (t.sendCall candidateNode).requests ++ t.todo.tail.map t₀.messageTo =
      t₀.todo.map t₀.messageTo
    rw [← h.messages, hrequests, htodo, List.append_assoc]
    rfl
  counted := by
    have := h.counted
    simp only [AnnounceTask.sendCall, List.length_append, List.length_singleton]
    omega
  bounded := by
    simp only [canDoRequest, decide_eq_true_eq] at hroom
    simp only [AnnounceTask.sendCall, List.length_append, List.length_singleton]
    omega

/-- An update sends requests until none is left, or no more may be sent. -/
theorem Sending.update (h : Sending t₀ n t) :
    Sending t₀ n t.update ∧ t.update.state = t.state ∧
      (t.update.todo = [] ∨ t.update.inFlight.length = MAX_CONCURRENT_TASK_REQUESTS) := by
  fun_induction AnnounceTask.update t with
  | case1 t htodo => exact ⟨h, rfl, .inl htodo⟩
  | case2 t candidateNode todo htodo hroom ih => exact ih (h.sendCall htodo hroom)
  | case3 t candidateNode todo htodo hfull =>
    refine ⟨h, rfl, .inr (le_antisymm h.bounded ?_)⟩
    simpa [canDoRequest] using hfull

theorem Sending.congr {t' : AnnounceTask} (h : Sending t₀ n t) (htype : t'.type = t.type)
    (hannouncement : t'.announcement = t.announcement) (htodo : t'.todo = t.todo)
    (hcalls : t'.inFlight = t.inFlight)
    (hsent : t'.sent = t.sent) : Sending t₀ n t' where
  same := by rw [htype, hannouncement]; exact h.same
  messages := by rw [requests, hsent, htodo]; exact h.messages
  counted := by rw [hcalls, hsent]; exact h.counted
  bounded := by rw [hcalls]; exact h.bounded

/-- `finish` for a task that is alive. -/
theorem finish_eq (ht : t.state = .running) :
    t.finish = { t with state := .finished, notified := t.notified + 1 } := by
  rw [finish, terminate, if_neg (by simp [isFinished, ht, TaskState.isTerminal])]

/-- A task that is alive is checked: it finishes if it need not go on. -/
theorem Sending.finishIfDone (h : Sending t₀ n t) (ht : t.state = .running)
    (hfull : t.todo = [] ∨ t.inFlight.length = MAX_CONCURRENT_TASK_REQUESTS) :
    Updated t₀ n t.finishIfDone := by
  have halive : t.isFinished = false := by simp [isFinished, ht, TaskState.isTerminal]
  unfold AnnounceTask.finishIfDone
  split
  · rename_i hdone
    rw [finish_eq ht]
    exact ⟨h.congr rfl rfl rfl rfl rfl, hfull, .inr rfl,
      iff_of_true rfl ((isDone_iff halive).mp hdone)⟩
  · rename_i hdone
    refine ⟨h, hfull, .inl ht, iff_of_false ?_ fun hcomplete =>
      hdone ((isDone_iff halive).mpr hcomplete)⟩
    rw [ht]
    decide

theorem Updated.remove (h : Updated t₀ n t) : Updated t₀ n { t with isRunning := false } :=
  ⟨h.toSending.congr rfl rfl rfl rfl rfl, h.full, h.live, h.complete⟩

/-- The task after the two checks of `serializedUpdate`. -/
def afterChecks (self : AnnounceTask) : AnnounceTask :=
  if self.finishIfDone.canDoRequest && !self.finishIfDone.isFinished then
    self.finishIfDone.update.finishIfDone
  else self.finishIfDone

theorem serializedUpdate_eq (t : AnnounceTask) : t.serializedUpdate =
    if t.afterChecks.isFinished then { t.afterChecks with isRunning := false }
    else t.afterChecks := rfl

/-- `serializedUpdate` of a task that is alive, or has finished because it need not go on. -/
theorem Sending.serializedUpdate (h : Sending t₀ n t)
    (hlive : t.state = .running ∨ t.state = .finished)
    (hcomplete : t.state = .finished → t.Complete) : Updated t₀ n t.serializedUpdate := by
  have hafter : Updated t₀ n t.afterChecks := by
    unfold AnnounceTask.afterChecks
    obtain ht | ht := hlive
    · have halive : t.isFinished = false := by simp [isFinished, ht, TaskState.isTerminal]
      by_cases hdone : t.isDone = true
      · have hchecked := h.finishIfDone ht (.inl ((isDone_iff halive).mp hdone).1)
        have hfinished : t.finishIfDone.isFinished = true := by
          rw [AnnounceTask.finishIfDone, if_pos hdone, finish_eq ht]
          rfl
        rwa [hfinished, Bool.not_true, Bool.and_false, if_neg Bool.false_ne_true]
      · have hsame : t.finishIfDone = t := by rw [AnnounceTask.finishIfDone, if_neg hdone]
        rw [hsame]
        split
        · obtain ⟨hsending, hstate, hfull⟩ := h.update
          exact hsending.finishIfDone (hstate.trans ht) hfull
        · rename_i hroom
          have hfull : t.inFlight.length = MAX_CONCURRENT_TASK_REQUESTS := by
            refine le_antisymm h.bounded ?_
            simpa [halive, canDoRequest] using hroom
          have hchecked := h.finishIfDone ht (.inr hfull)
          rwa [hsame] at hchecked
    · have hended : t.isFinished = true := by simp [isFinished, ht, TaskState.isTerminal]
      have hsame : t.finishIfDone = t := by
        unfold AnnounceTask.finishIfDone
        split
        · rw [finish, terminate, if_pos hended]
        · rfl
      rw [hsame, hended, Bool.not_true, Bool.and_false, if_neg Bool.false_ne_true]
      exact ⟨h, .inl (hcomplete ht).1, .inr ht, iff_of_true ht (hcomplete ht)⟩
  rw [serializedUpdate_eq]
  split
  · exact hafter.remove
  · exact hafter

/-! ## Steps and runs -/

theorem Sending.length_sent (h : Sending t₀ n t) : t.sent.length + t.todo.length =
    t₀.todo.length := by
  have hlength := congrArg List.length h.messages
  rwa [List.length_append, List.length_map, List.length_map, requests, List.length_map] at hlength

/-- After an update it is known how many requests were sent. -/
theorem Updated.sent_length (h : Updated t₀ n t) :
    t.sent.length = min t₀.todo.length (MAX_CONCURRENT_TASK_REQUESTS + n) := by
  have hlength := h.length_sent
  have hcounted := h.counted
  have hbounded := h.bounded
  obtain htodo | hfull := h.full
  · rw [htodo, List.length_nil] at hlength
    omega
  · omega

theorem Updated.start (t₀ : AnnounceTask) (hstate : t₀.state = .initial) (hcalls : t₀.inFlight = [])
    (hsent : t₀.sent = []) : Updated t₀ 0 (t₀.step .start) := by
  have hstep :
      t₀.step .start = { t₀ with state := .running, isRunning := true }.serializedUpdate := by
    simp [AnnounceTask.step, handle, hstate]
  have hsending : Sending t₀ 0 { t₀ with state := .running, isRunning := true } :=
    ⟨⟨rfl, rfl⟩, by simp [requests, hsent], by simp [hcalls, hsent], by simp [hcalls]⟩
  rw [hstep]
  exact hsending.serializedUpdate (.inl rfl) fun h => by cases h

/-- A step of a task that is started and not cancelled. -/
theorem Updated.step (h : Updated t₀ n t) {e : AnnounceEvent} (he : e ≠ .cancel) :
    Updated t₀ (n + if t.ends e then 1 else 0) (t.step e) := by
  cases e with
  | cancel => exact absurd rfl he
  | start =>
    have hstep : t.step .start = t := by
      obtain hlive | hlive := h.live <;> simp [AnnounceTask.step, handle, hlive]
    rw [hstep]
    exact h
  | call key ce =>
    cases hfind : t.inFlight.find? (·.key = key) with
    | none =>
      have hstep : t.step (.call key ce) = t := by simp [AnnounceTask.step, handle, hfind]
      have hends : t.ends (.call key ce) = false := by cases ce <;> simp [ends, hfind]
      rw [hstep, hends]
      exact h
    | some call =>
      have hcall := List.mem_of_find?_eq_some hfind
      have hstep : t.step (.call key ce) = (t.onStateChange call ce).serializedUpdate := by
        simp [AnnounceTask.step, handle, hfind]
      have hover : Sending t₀ (n + 1) { t with inFlight := t.inFlight.erase call } := by
        have hlength := List.length_erase_of_mem hcall
        have hpos := List.length_pos_of_mem hcall
        have hcounted := h.counted
        refine ⟨h.same, h.messages, ?_, le_trans List.erase_sublist.length_le h.bounded⟩
        show (t.inFlight.erase call).length + (n + 1) = t.sent.length
        omega
      have hcomplete : t.state = .finished →
          Complete { t with inFlight := t.inFlight.erase call } := by
        intro hfinished
        obtain ⟨htodo, hnone⟩ := h.complete.mp hfinished
        exact ⟨htodo, fun v hv => by simp [hnone v hv]⟩
      rw [hstep]
      cases ce with
      | stalled => exact h.toSending.serializedUpdate h.live h.complete.mp
      | _ =>
        simp only [ends, hfind, Option.isSome_some, if_true]
        exact hover.serializedUpdate h.live hcomplete

theorem Updated.run (h : Updated t₀ n t) {events : List AnnounceEvent}
    (hcancel : ∀ e ∈ events, e ≠ .cancel) :
    Updated t₀ (n + t.ended events) (t.run events) := by
  induction events generalizing t n with
  | nil => exact h
  | cons e events ih =>
    obtain ⟨he, hlater⟩ := List.forall_mem_cons.mp hcancel
    have hrest := ih (h.step he) hlater
    rwa [Nat.add_assoc] at hrest

/-- A new task that is started, and not cancelled. -/
theorem new_updated (type : Network) (announcement : Announcement) (closestSet : ClosestSet)
    {events : List AnnounceEvent} (hcancel : ∀ e ∈ events, e ≠ .cancel) :
    Updated (new type announcement closestSet)
      (((new type announcement closestSet).step .start).ended events)
      ((new type announcement closestSet).run (.start :: events)) := by
  have hrun := (Updated.start (new type announcement closestSet) rfl rfl rfl).run hcancel
  rwa [Nat.zero_add] at hrun

/-- The requests so far are those to the first members: ten, and one more for each call that has
ended. -/
theorem run_requests_eq (type : Network) (announcement : Announcement) (closestSet : ClosestSet)
    {events : List AnnounceEvent} (hcancel : ∀ e ∈ events, e ≠ .cancel) :
    ((new type announcement closestSet).run (.start :: events)).requests =
      (closestSet.closest.take
        (MAX_CONCURRENT_TASK_REQUESTS +
          ((new type announcement closestSet).step .start).ended events)).map
        (new type announcement closestSet).messageTo := by
  have h := new_updated type announcement closestSet hcancel
  have hprefix : _ <+: closestSet.closest.map (new type announcement closestSet).messageTo :=
    ⟨_, h.messages⟩
  have hlength := h.sent_length
  rw [List.prefix_iff_eq_take.mp hprefix, requests, List.length_map, hlength, List.map_take,
    List.take_eq_take_iff, List.length_map]
  show min (min closestSet.closest.length _) _ = _
  omega

/-! ## When an announcement does what it should -/

/-- All requests were sent, as far as the number of ended calls tells. -/
theorem Updated.todo_eq_nil_iff (h : Updated t₀ n t) :
    t.todo = [] ↔ t₀.todo.length ≤ MAX_CONCURRENT_TASK_REQUESTS + n := by
  have hlength := h.length_sent
  have hsent := h.sent_length
  rw [← List.length_eq_zero_iff]
  omega

/-- With all requests sent, no call is in flight when there were as many calls as members. -/
theorem Updated.inFlight_eq_nil_iff (h : Updated t₀ n t) (htodo : t.todo = []) :
    t.inFlight = [] ↔ t₀.todo.length ≤ n := by
  have hlength := h.length_sent
  have hcounted := h.counted
  rw [htodo, List.length_nil] at hlength
  rw [← List.length_eq_zero_iff]
  omega

theorem Sending.requests_eq_iff (h : Sending t₀ n t) :
    t.requests = t₀.todo.map t₀.messageTo ↔ t.todo = [] := by
  have hmessages := h.messages
  constructor
  · intro heq
    rw [heq] at hmessages
    simpa using hmessages
  · intro htodo
    simpa [htodo] using hmessages

/-- A state is as it should be if the task is no `PeerAnnounce`, or has requests left to send, or
all calls have ended. -/
theorem Updated.meets_iff (h : Updated t₀ n t) : Meets t₀ t ↔
    (∃ v, t₀.announcement = .value v) ∨ t₀.todo.length ≤ n ∨
      MAX_CONCURRENT_TASK_REQUESTS + n < t₀.todo.length := by
  constructor
  · rintro ⟨-, -, hfinished⟩
    cases hkind : t₀.announcement with
    | value v => exact .inl ⟨v, rfl⟩
    | peer p =>
      right
      by_contra hnot
      rw [not_or, not_lt] at hnot
      have hempty := h.todo_eq_nil_iff.mpr hnot.2
      have hcomplete : t.Complete := ⟨hempty, fun v hv => by rw [h.same.2, hkind] at hv; cases hv⟩
      exact hnot.1 ((h.inFlight_eq_nil_iff hempty).mp (hfinished.mp (h.complete.mpr hcomplete)).2)
  · intro hcond
    refine ⟨⟨_, h.messages⟩, fun hnone => h.requests_eq_iff.mpr (h.full.resolve_right ?_), ?_⟩
    · rw [hnone]
      decide
    · rw [h.complete, h.requests_eq_iff]
      refine and_congr_right fun hnone => ⟨fun hcalls => ?_, fun hcalls _ _ => hcalls⟩
      rcases hcond with ⟨v, hv⟩ | hover | hleft
      · exact hcalls v (h.same.2.trans hv)
      · exact (h.inFlight_eq_nil_iff hnone).mpr hover
      · exact absurd (h.todo_eq_nil_iff.mp hnone) (by omega)

theorem ended_le (t : AnnounceTask) {pre events : List AnnounceEvent} (hpre : pre <+: events) :
    t.ended pre ≤ t.ended events := by
  induction pre generalizing t events with
  | nil => exact Nat.zero_le _
  | cons e pre ih =>
    obtain ⟨post, rfl⟩ := hpre
    exact Nat.add_le_add_left (ih (t.step e) ⟨post, rfl⟩) _

/-- Calls end one after the other. -/
theorem exists_ended (t : AnnounceTask) {events : List AnnounceEvent} {k : Nat}
    (hk : k ≤ t.ended events) :
    ∃ pre, pre <+: events ∧ t.ended pre = k := by
  induction events generalizing t k with
  | nil => exact ⟨[], List.prefix_rfl, (Nat.le_zero.mp hk).symm⟩
  | cons e events ih =>
    cases k with
    | zero => exact ⟨[], List.nil_prefix, rfl⟩
    | succ k =>
      have hrest : k + 1 - (if t.ends e then 1 else 0) ≤ (t.step e).ended events := by
        rw [ended] at hk
        omega
      obtain ⟨pre, hpre, heq⟩ := ih (t.step e) hrest
      refine ⟨e :: pre, List.cons_prefix_cons.mpr ⟨rfl, hpre⟩, ?_⟩
      rw [ended, heq]
      split_ifs <;> omega

/-- A run that is not cancelled is as it should be exactly if it is that of a `ValueAnnounce`, or
the closest set is empty, or so few calls have ended that requests are left to send. -/
theorem announces_iff (type : Network) (announcement : Announcement) (closestSet : ClosestSet)
    (events : List AnnounceEvent) (hcancel : ∀ e ∈ events, e ≠ .cancel) :
    Announces (new type announcement closestSet) events ↔
      (∃ v, announcement = .value v) ∨ closestSet.closest = [] ∨
      MAX_CONCURRENT_TASK_REQUESTS + ((new type announcement closestSet).step .start).ended events <
        closestSet.closest.length := by
  have hmeets : ∀ pre, pre <+: events →
      (Meets (new type announcement closestSet)
        ((new type announcement closestSet).run (.start :: pre)) ↔ (∃ v, announcement = .value v) ∨
          closestSet.closest.length ≤ ((new type announcement closestSet).step .start).ended pre ∨
          MAX_CONCURRENT_TASK_REQUESTS +
            ((new type announcement closestSet).step .start).ended pre <
            closestSet.closest.length) := fun pre hpre =>
    (new_updated type announcement closestSet fun e he => hcancel e (hpre.subset he)).meets_iff
  constructor
  · intro h
    by_contra hnot
    rw [not_or, not_or, not_lt] at hnot
    obtain ⟨hpeer, hne, henough⟩ := hnot
    -- the state in which the last request was just sent
    obtain ⟨pre, hpre, hended⟩ := exists_ended ((new type announcement closestSet).step .start)
      (Nat.sub_le_iff_le_add'.mpr henough)
    have hpos := List.length_pos_iff.mpr hne
    obtain hvalue | hover | hleft := (hmeets pre hpre).mp (h pre hpre)
    · exact hpeer hvalue
    · rw [hended, MAX_CONCURRENT_TASK_REQUESTS] at hover
      omega
    · rw [hended] at hleft
      omega
  · intro hcond pre hpre
    have hle := ended_le ((new type announcement closestSet).step .start) hpre
    refine (hmeets pre hpre).mpr ?_
    obtain hvalue | hnone | hleft := hcond
    · exact .inl hvalue
    · refine .inr (.inl ?_)
      rw [hnone]
      exact Nat.zero_le _
    · exact .inr (.inr (by omega))

/-- A closest set of one node. -/
def oneMember : ClosestSet where
  target := Id.zero
  capacity := 8
  closest :=
    [{ nodeId := Id.zero.setByte 0 1, sockaddr := .inet ⟨[8, 8, 4, 4], rfl⟩ 39001, token := 7 }]

/-- A value announcement whose only call times out. -/
theorem announces_iff_timeout : Announces (new .ipv4 (.value (.immutable [1])) oneMember)
    [.call 0 .timeout] :=
  (announces_iff .ipv4 (.value (.immutable [1])) oneMember [.call 0 .timeout] (by simp)).mpr
    (.inl ⟨_, rfl⟩)

/-- A peer of the node `0`. -/
def somePeer : PeerInfo where
  publicKey := Id.zero.setByte 0 2
  nodeId := Id.zero
  origin := Id.zero
  port := 8080
  signature := List.replicate 64 0
  port_ok := fun h => absurd h (by decide)
  signature_ok := List.length_replicate

/-- A peer announcement finishes when its only request is sent. -/
theorem not_announces_peer : ¬ Announces (new .ipv4 (.peer somePeer) oneMember) [] := by
  intro h
  have hfinished := (h [] List.prefix_rfl).finished.mp (by decide +kernel)
  exact absurd hfinished.2 (by decide +kernel)

end AnnounceTask

end Boson
