import Boson.Lib.Runs
import Boson.Task.LookupTask
import Mathlib.Data.List.Range
import Mathlib.Data.List.Nodup

/-!
# The listeners of a task (`Task::addListener`, `Task::notifyCompletionListeners`)

A listener is code that may use the task again. `stack` has the calls of listeners that have not
returned: a call from the loop of `notifyCompletionListeners`, with the place in the list at which
the loop goes on, or a call from `addListener`. What happens next is done by the listener on top, or
by other code if there is none. A listener is known by the number of its registration; `invoked` has
the listeners that were called.

The list is a `std::list`, so that the loop also visits what is appended while it runs.

* `Phase.step`: what a task goes through. After it is terminal there is one pass over the listeners.
* `firesOnce_iff`: all listeners are called once exactly if none is registered during the pass.
-/

namespace Boson

/-- A call of a listener that has not returned. -/
inductive Frame where
  /-- From `notifyCompletionListeners`, whose loop goes on at `next`. -/
  | pass (next : Nat)
  /-- From `addListener`, which appends the listener after it. -/
  | direct (listener : Nat)
  deriving DecidableEq

/-- What code does with a task. `returned` is the end of the listener that runs. -/
inductive Use where
  | addListener
  | queue
  | start
  | finish
  | cancel
  | returned
  deriving DecidableEq

/-- `Task`, with its listeners. -/
structure ListenedTask where
  state : TaskState := .initial
  listeners : List Nat := []
  registered : Nat := 0
  stack : List Frame := []
  invoked : List Nat := []

namespace ListenedTask

/-- `Task::setState`; `none` if the state is not an expected one. -/
def setState (self : ListenedTask) (expected : List TaskState) (newState : TaskState) :
    Option ListenedTask :=
  if self.state ∈ expected then some { self with state := newState } else none

/-- The loop of `Task::notifyCompletionListeners`, from a place in the list to the next call or the
end. -/
def notifyFrom (self : ListenedTask) (next : Nat) : ListenedTask :=
  match self.listeners[next]? with
  | some listener =>
    { self with stack := .pass (next + 1) :: self.stack, invoked := self.invoked ++ [listener] }
  | none => self

/-- `Task::addListener`, to the call of the listener or the end. -/
def addListener (self : ListenedTask) : ListenedTask :=
  let listener := self.registered
  let self := { self with registered := self.registered + 1 }
  if self.state.isTerminal then
    { self with stack := .direct listener :: self.stack, invoked := self.invoked ++ [listener] }
  else { self with listeners := self.listeners ++ [listener] }

/-- `setState(INITIAL, QUEUED)` of `TaskManager::add`. -/
def queue (self : ListenedTask) : ListenedTask := (self.setState [.initial] .queued).getD self

/-- The change of state in `Task::start`. What it runs then is other code. -/
def start (self : ListenedTask) : ListenedTask :=
  (self.setState [.initial, .queued] .running).getD self

/-- `Task::cancel`. The nested task has its own listeners. -/
def cancel (self : ListenedTask) : ListenedTask :=
  match self.setState [.initial, .queued, .running] .canceled with
  | some self => self.notifyFrom 0
  | none => self

/-- `Task::finish`. -/
def finish (self : ListenedTask) : ListenedTask :=
  match self.setState [.initial, .queued, .running] .finished with
  | some self => self.notifyFrom 0
  | none => self

/-- The listener on top returns, and its caller goes on. -/
def returned (self : ListenedTask) : ListenedTask :=
  match self.stack with
  | [] => self
  | .direct listener :: stack =>
    { self with listeners := self.listeners ++ [listener], stack := stack }
  | .pass next :: stack => { self with stack := stack }.notifyFrom next

/-- One use of the task. -/
def step (self : ListenedTask) : Use → ListenedTask
  | .addListener => self.addListener
  | .queue => self.queue
  | .start => self.start
  | .finish => self.finish
  | .cancel => self.cancel
  | .returned => self.returned

/-- A new task after some uses. -/
def run (uses : List Use) : ListenedTask := uses.foldl step {}

/-- `notifyCompletionListeners` has not ended. -/
def Notifying (self : ListenedTask) : Prop := ∃ next, .pass next ∈ self.stack

/-- Every listener was called once if the task is terminal, and never before it was; and a terminal
state is the last one. -/
structure FiresOnce (uses : List Use) : Prop where
  never : ∀ pre, pre <+: uses → (run pre).state.isTerminal = false → (run pre).invoked = []
  absorbing : ∀ pre, pre <+: uses → (run pre).state.isTerminal = true →
    (run uses).state = (run pre).state
  once : (run uses).state.isTerminal = true →
    ∀ listener < (run uses).registered, (run uses).invoked.count listener = 1

/-- No listener is registered during the pass. -/
def NoneDuringPass (uses : List Use) : Prop :=
  Runs.Every (fun pre use => use = .addListener → ¬ (run pre).Notifying) uses

@[simp] theorem run_concat (uses : List Use) (use : Use) : run (uses ++ [use]) =
    (run uses).step use := by
  simp [run]

variable {self : ListenedTask}

/-! ## The states -/

theorem isTerminal_iff {s : TaskState} : s.isTerminal = true ↔
    s ∉ [.initial, .queued, .running] := by
  cases s <;> simp [TaskState.isTerminal]

/-- A terminal task does not change its state, and is not notified again. -/
theorem setState_terminal (h : self.state.isTerminal = true) (newState : TaskState) :
    self.setState [.initial] newState = none ∧ self.setState [.initial, .queued] newState = none ∧
      self.setState [.initial, .queued, .running] newState = none := by
  have hnot := isTerminal_iff.mp h
  simp only [List.mem_cons, List.not_mem_nil, or_false, not_or] at hnot
  simp [setState, hnot]

/-- A listener of a terminal task is called by `addListener`. -/
theorem addListener_terminal (h : self.state.isTerminal = true) :
    self.addListener = { self with
      registered := self.registered + 1
      stack := .direct self.registered :: self.stack
      invoked := self.invoked ++ [self.registered] } := by
  simp [addListener, h]

theorem notifyFrom_state (self : ListenedTask) (next : Nat) :
    (self.notifyFrom next).state = self.state := by
  unfold notifyFrom
  split <;> rfl

/-- A terminal state is kept by every use. -/
theorem step_terminal (h : self.state.isTerminal = true) (use : Use) :
    (self.step use).state = self.state := by
  have h1 := (setState_terminal h .queued).1
  have h2 := (setState_terminal h .running).2.1
  cases use with
  | addListener =>
    simp only [step, addListener]
    split_ifs
    rfl
  | queue => simp [step, queue, h1]
  | start => simp [step, start, h2]
  | finish => simp [step, finish, (setState_terminal h .finished).2.2]
  | cancel => simp [step, cancel, (setState_terminal h .canceled).2.2]
  | returned =>
    simp only [step, returned]
    split
    · rfl
    · rfl
    · exact notifyFrom_state _ _

theorem run_absorbing {pre uses : List Use} (hpre : pre <+: uses)
    (h : (run pre).state.isTerminal = true) :
    (run uses).state = (run pre).state := by
  obtain ⟨rest, rfl⟩ := hpre
  induction rest using List.reverseRecOn with
  | nil => simp
  | append_singleton rest use ih =>
    rw [← List.append_assoc, run_concat, step_terminal (by rw [ih]; exact h), ih]

/-! ## The pass over the listeners -/

/-- A terminal task, of whose listeners the first `early` were registered before it was, `visited`
were called by the pass, and `waiting` are called by `addListener`. -/
structure Terminated (early visited : Nat) (waiting : List Nat) (t : ListenedTask) : Prop where
  terminal : t.state.isTerminal = true
  perm : (t.listeners ++ waiting).Perm (List.range t.registered)
  first : List.range early <+: t.listeners
  room : visited ≤ t.listeners.length
  count : ∀ l, t.invoked.count l =
    (if early ≤ l ∧ l < t.registered then 1 else 0) + if l ∈ t.listeners.take visited then 1 else 0

namespace Terminated

variable {early visited : Nat} {waiting : List Nat}

theorem nodup (h : Terminated early visited waiting self) : (self.listeners ++ waiting).Nodup :=
  h.perm.nodup_iff.mpr List.nodup_range

theorem early_le (h : Terminated early visited waiting self) : early ≤ self.registered := by
  have hlen := h.perm.length_eq
  have hfirst := h.first.length_le
  simp only [List.length_append, List.length_range] at hlen hfirst
  omega

/-- A listener that is registered is called at once. -/
theorem addListener (h : Terminated early visited waiting self) :
    Terminated early visited (self.registered :: waiting) self.addListener := by
  rw [addListener_terminal h.terminal]
  refine ⟨h.terminal, ?_, h.first, h.room, fun l => ?_⟩
  · rw [List.range_succ]
    exact List.perm_middle.trans ((h.perm.cons _).trans (List.perm_append_singleton _ _).symm)
  · have hearly : early ≤ self.registered := h.early_le
    rw [List.count_append, h.count l, List.count_singleton]
    by_cases hl : l = self.registered
    · subst hl
      simp [hearly]
      omega
    · have hother : self.registered ≠ l := fun h => hl h.symm
      have hlt : l < self.registered + 1 ↔ l < self.registered := by omega
      simp [hother, hlt]

theorem lt_registered (h : Terminated early visited waiting self) {l : Nat}
    (hl : l ∈ self.listeners) :
    l < self.registered :=
  List.mem_range.mp (h.perm.mem_iff.mp (List.mem_append_left _ hl))

/-- A listener that comes after the early ones is not one of them. -/
theorem early_le_getElem (h : Terminated early visited waiting self) {i : Nat}
    (hi : i < self.listeners.length)
    (hle : early ≤ i) : early ≤ self.listeners[i] := by
  by_contra hlt
  have hrange : self.listeners[i] < (List.range early).length := by
    rw [List.length_range]
    omega
  have hfirst := h.first.getElem hrange
  rw [List.getElem_range] at hfirst
  have hsame := (List.nodup_append.mp h.nodup).1.getElem_inj_iff.mp hfirst
  omega

theorem withStack (h : Terminated early visited waiting self) (stack : List Frame) :
    Terminated early visited waiting { self with stack := stack } :=
  ⟨h.terminal, h.perm, h.first, h.room, h.count⟩

/-- It is appended when it returns. -/
theorem append {listener : Nat} (h : Terminated early visited (listener :: waiting) self)
    (stack : List Frame) :
    Terminated early visited waiting
      { self with listeners := self.listeners ++ [listener], stack := stack } := by
  refine ⟨h.terminal, ?_, h.first.trans (List.prefix_append _ _), ?_, fun l => ?_⟩
  · simpa using h.perm
  · exact h.room.trans (by simp)
  · rw [h.count l, List.take_append_of_le_length h.room]

/-- The pass calls the next listener. -/
theorem visit (h : Terminated early visited waiting self) (hlt : visited < self.listeners.length)
    (stack : List Frame) :
    Terminated early (visited + 1) waiting
      { self with stack := stack, invoked := self.invoked ++ [self.listeners[visited]] } := by
  refine ⟨h.terminal, h.perm, h.first, hlt, fun l => ?_⟩
  -- it was not visited before
  have hnew : self.listeners[visited] ∉ self.listeners.take visited := by
    intro hmem
    obtain ⟨j, hj, heq⟩ := List.mem_take_iff_getElem.mp hmem
    have hsame := (List.nodup_append.mp h.nodup).1.getElem_inj_iff.mp heq
    omega
  have hmem : l ∈ self.listeners.take (visited + 1) ↔
      l ∈ self.listeners.take visited ∨ l = self.listeners[visited] := by
    rw [List.take_succ_eq_append_getElem hlt, List.mem_append, List.mem_singleton]
  rw [List.count_append, h.count l, List.count_singleton, Nat.add_assoc]
  congr 1
  by_cases hl : l = self.listeners[visited]
  · subst hl
    simp [hmem, hnew]
  · have hother : self.listeners[visited] ≠ l := fun h => hl h.symm
    simp [hmem, hl, hother]

end Terminated

/-- What a task goes through: it is not terminal, or the pass has not ended, or it has. `clean` is
true as long as no listener was registered during the pass. -/
inductive Phase (clean : Prop) (t : ListenedTask) : Prop where
  | before : t.state.isTerminal = false → t.stack = [] → t.invoked = [] →
      t.listeners = List.range t.registered → clean → Phase clean t
  | during (early visited : Nat) (waiting : List Nat) : Terminated early visited waiting t →
      t.stack = waiting.map .direct ++ [.pass visited] → (clean ↔ t.registered = early) →
        Phase clean t
  | after (early visited : Nat) (waiting : List Nat) : Terminated early visited waiting t →
      t.stack = waiting.map .direct → early ≤ visited → (clean ↔ visited = early) → Phase clean t

namespace Phase

variable {clean : Prop}

/-- The pass goes on to the next listener or ends. -/
theorem notifyFrom {early visited : Nat} {t : ListenedTask} (h : Terminated early visited [] t)
    (hstack : t.stack = []) (hclean : clean ↔ t.registered = early) :
    Phase clean (t.notifyFrom visited) := by
  unfold ListenedTask.notifyFrom
  split
  · next listener hlistener =>
    obtain ⟨hlt, rfl⟩ := List.getElem?_eq_some_iff.mp hlistener
    exact .during early (visited + 1) [] (h.visit hlt _) (by simp [hstack]) hclean
  · next hnone =>
    have hend : visited = t.listeners.length :=
      Nat.le_antisymm h.room (List.getElem?_eq_none_iff.mp hnone)
    have hlen := h.perm.length_eq
    simp only [List.append_nil, List.length_range] at hlen
    refine .after early visited [] h hstack ?_ ?_
    · rw [hend, hlen]
      exact h.early_le
    · rw [hclean, hend, hlen]

/-- The task gets terminal, and the pass starts. -/
theorem terminate (h : Phase clean self) (newState : TaskState) (hnew : newState.isTerminal = true)
    {t : ListenedTask} (hset : self.setState [.initial, .queued, .running] newState = some t) :
    Phase clean (t.notifyFrom 0) := by
  unfold setState at hset
  split_ifs at hset with hmem
  cases hset
  have hnot : self.state.isTerminal ≠ true := fun hterm => isTerminal_iff.mp hterm hmem
  cases h with
  | before _ hstack hinvoked hlisteners hclean =>
    have hterm : Terminated self.registered 0 [] { self with state := newState } := by
      refine ⟨hnew, by simp [hlisteners], by simp [hlisteners], Nat.zero_le _, fun l => ?_⟩
      have hnone : ¬ (self.registered ≤ l ∧ l < self.registered) := by omega
      simp [hinvoked, hnone]
    exact notifyFrom hterm hstack (iff_of_true hclean rfl)
  | during early visited waiting hterm => exact absurd hterm.terminal hnot
  | after early visited waiting hterm => exact absurd hterm.terminal hnot

/-- A change of state before the task is terminal. -/
theorem move (h : Phase clean self) {expected : List TaskState}
    (hexpected : expected ⊆ [.initial, .queued, .running]) {newState : TaskState}
    (hnew : newState.isTerminal = false) :
    Phase clean ((self.setState expected newState).getD self) := by
  unfold setState
  split_ifs with hmem
  · have hnot : self.state.isTerminal ≠ true := fun hterm =>
        isTerminal_iff.mp hterm (hexpected hmem)
    cases h with
    | before _ hstack hinvoked hlisteners hclean =>
      exact .before hnew hstack hinvoked hlisteners hclean
    | during early visited waiting hterm => exact absurd hterm.terminal hnot
    | after early visited waiting hterm => exact absurd hterm.terminal hnot
  · exact h

theorem addListener (h : Phase clean self) : Phase (clean ∧ ¬ self.Notifying) self.addListener := by
  cases h with
  | before hstate hstack hinvoked hlisteners hclean =>
    have heq : self.addListener = { self with
        registered := self.registered + 1
        listeners := self.listeners ++ [self.registered] } := by
      simp [ListenedTask.addListener, hstate]
    rw [heq]
    refine .before hstate hstack hinvoked ?_ ⟨hclean, ?_⟩
    · rw [hlisteners, List.range_succ]
    · rintro ⟨next, hnext⟩
      rw [hstack] at hnext
      cases hnext
  | during early visited waiting hterm hstack hclean =>
    -- the pass will come to the new listener
    have hnotifying : self.Notifying := ⟨visited, by simp [hstack]⟩
    refine .during early visited (self.registered :: waiting) hterm.addListener ?_ ?_
    · simp [addListener_terminal hterm.terminal, hstack]
    · have hle := hterm.early_le
      rw [addListener_terminal hterm.terminal]
      exact iff_of_false (fun h => h.2 hnotifying) (by dsimp only; omega)
  | after early visited waiting hterm hstack hle hclean =>
    have hnot : ¬ self.Notifying := by
      rintro ⟨next, hnext⟩
      simp [hstack] at hnext
    refine .after early visited (self.registered :: waiting) hterm.addListener ?_ hle ?_
    · simp [addListener_terminal hterm.terminal, hstack]
    · simpa [hnot] using hclean

theorem returned (h : Phase clean self) : Phase clean self.returned := by
  unfold ListenedTask.returned
  cases h with
  | before hstate hstack hinvoked hlisteners hclean =>
    rw [hstack]
    exact .before hstate hstack hinvoked hlisteners hclean
  | during early visited waiting hterm hstack hclean =>
    cases waiting with
    | nil =>
      simp only [hstack, List.map_nil, List.nil_append]
      exact notifyFrom (hterm.withStack []) rfl hclean
    | cons listener waiting =>
      simp only [hstack, List.map_cons, List.cons_append]
      exact .during early visited waiting (hterm.append _) rfl hclean
  | after early visited waiting hterm hstack hle hclean =>
    cases waiting with
    | nil =>
      simp only [hstack, List.map_nil]
      exact .after early visited [] hterm hstack hle hclean
    | cons listener waiting =>
      simp only [hstack, List.map_cons]
      exact .after early visited waiting (hterm.append _) rfl hle hclean

/-- One use: what matters is whether a listener is registered during the pass. -/
theorem step (h : Phase clean self) (use : Use) :
    Phase (clean ∧ (use = .addListener → ¬ self.Notifying)) (self.step use) := by
  cases use with
  | addListener => simpa [ListenedTask.step] using h.addListener
  | queue => simpa [ListenedTask.step, queue] using h.move (by simp) rfl
  | start => simpa [ListenedTask.step, start] using h.move (by simp) rfl
  | finish =>
    simp only [reduceCtorEq, false_imp_iff, and_true, ListenedTask.step, finish]
    split
    · next t hset => exact h.terminate .finished rfl hset
    · exact h
  | cancel =>
    simp only [reduceCtorEq, false_imp_iff, and_true, ListenedTask.step, cancel]
    split
    · next t hset => exact h.terminate .canceled rfl hset
    · exact h
  | returned => simpa [ListenedTask.step] using h.returned

theorem run (uses : List Use) : Phase (NoneDuringPass uses) (run uses) := by
  induction uses using List.reverseRecOn with
  | nil => exact .before rfl rfl rfl rfl Runs.every_nil
  | append_singleton uses use ih =>
    rw [run_concat, NoneDuringPass, Runs.every_concat]
    exact ih.step use

/-- When no call of a listener is left, the listeners were called once exactly if the task is not
terminal or the pass met none but those that were registered before. -/
theorem once_iff (h : Phase clean self) (hidle : self.stack = []) :
    (self.state.isTerminal = true → ∀ l < self.registered, self.invoked.count l = 1) ↔ clean := by
  cases h with
  | before hstate _ _ _ hclean => exact iff_of_true (fun hterm => by simp [hstate] at hterm) hclean
  | during early visited waiting hterm hstack => simp [hstack] at hidle
  | after early visited waiting hterm hstack hle hclean =>
    rw [hclean]
    constructor
    · intro hcount
      by_contra hne
      -- the listener after the early ones was called by `addListener` and by the pass
      have hroom := hterm.room
      have hlt : early < self.listeners.length := by omega
      have hmem : self.listeners[early] ∈ self.listeners.take visited :=
        List.mem_take_iff_getElem.mpr ⟨early, by omega, rfl⟩
      have hl := hterm.lt_registered (List.getElem_mem hlt)
      have htwice := hterm.count self.listeners[early]
      rw [if_pos ⟨hterm.early_le_getElem hlt (Nat.le_refl _), hl⟩, if_pos hmem,
        hcount hterm.terminal _ hl] at htwice
      omega
    · rintro rfl - l hl
      have htake : self.listeners.take visited = List.range visited := by
        have hprefix := List.prefix_iff_eq_take.mp hterm.first
        rw [List.length_range] at hprefix
        exact hprefix.symm
      rw [hterm.count l, htake]
      by_cases hlt : l < visited
      · have hnot : ¬ (visited ≤ l ∧ l < self.registered) := by omega
        simp [hlt, hnot]
      · have hin : visited ≤ l ∧ l < self.registered := by omega
        simp [hlt, hin]

end Phase

/-- In every run after which no call of a listener is left, every listener that was registered was
called once if the task is terminal, and never before it was, and a terminal state was kept, exactly
if no listener was registered while the task notified its listeners. -/
theorem firesOnce_iff (uses : List Use) (hidle : (run uses).stack = []) :
    FiresOnce uses ↔ NoneDuringPass uses := by
  rw [← (Phase.run uses).once_iff hidle]
  refine ⟨fun h => h.once, fun h => ⟨fun pre _ hstate => ?_, fun pre hpre => run_absorbing hpre, h⟩⟩
  cases Phase.run pre with
  | before _ _ hinvoked => exact hinvoked
  | during early visited waiting hterm => simp [hterm.terminal] at hstate
  | after early visited waiting hterm => simp [hterm.terminal] at hstate

/-- A listener is registered, the task finishes, and after the pass another one is registered. -/
theorem later_firesOnce :
    FiresOnce [.addListener, .finish, .returned, .addListener, .returned] := by
  have hnone :
      NoneDuringPass ([] ++ [Use.addListener] ++ [Use.finish] ++ [Use.returned] ++
      [Use.addListener] ++
      [Use.returned]) := by
    simp only [NoneDuringPass, Runs.every_concat, Runs.every_nil, true_and, reduceCtorEq,
      false_imp_iff, and_true, true_imp_iff]
    constructor
    · rintro ⟨next, hnext⟩
      cases hnext
    · rintro ⟨next, hnext⟩
      cases hnext
  exact (firesOnce_iff [.addListener, .finish, .returned, .addListener, .returned]
    (by decide)).mpr hnone

/-- The listener of a task registers another one when it is called: that one is called twice. -/
theorem nested_firesTwice :
    (run [.addListener, .start, .finish, .addListener, .returned, .returned, .returned]).stack =
    [] ∧
      (run [.addListener, .start, .finish, .addListener, .returned, .returned, .returned]).invoked =
      [0, 1, 1] ∧
        ¬ FiresOnce [.addListener, .start, .finish, .addListener, .returned,
          .returned, .returned] := by
  refine ⟨by decide, by decide, fun h => ?_⟩
  have htwice := h.once (by decide) 1 (by decide)
  revert htwice
  decide

end ListenedTask

end Boson
