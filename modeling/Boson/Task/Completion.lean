import Boson.Lib.Counts
import Boson.Lib.Runs
import Boson.Task.Moves

/-!
# The completion handlers of the operations

Once all tasks of an operation have ended, its `completeHandler` has been called once, unless the
lookup of `storeValue` or `announcePeer` was canceled: then it is not called at all
(`completed_iff`).

- Each operation has one lookup, and each announcement belongs to one lookup that has finished. The
  calls of the handler are those of the tasks that have ended (`Counted`).
- An event cancels the lookup of an operation (`Interrupts`) or does not, and what is canceled was
  canceled by an event (`interrupted_of_canceled`).
-/

namespace Boson

namespace Task

/-- The lookup of an operation. -/
def isLookup (op : Nat) (t : Task) : Bool := t.listener.lookup = some op

/-- The announcement of an operation. -/
def isAnnounced (op : Nat) (t : Task) : Bool := t.listener = .announced op

/-- The lookup of an operation, with an announcement. -/
def announces (op : Nat) (t : Task) : Bool := t.listener = .announce op && t.nested.isSome

/-- The task has called the `completeHandler` of an operation. -/
def completes (op : Nat) (t : Task) : Bool :=
  t.state.isTerminal && t.listener.completes = some op ||
    t.listener = .announce op && t.state = .finished && t.nested.isNone

theorem completes_of_alive {t : Task} (ht : t.state.isTerminal = false) (op : Nat) :
    t.completes op = false := by
  have hfinished : t.state ≠ .finished := by
    intro h
    simp [h, TaskState.isTerminal] at ht
  simp [completes, ht, hfinished]

/-- The listener completes no operation. -/
theorem completes_of_none {t : Task} (hcompletes : t.listener.completes = none) (op : Nat)
    (hannounce : t.state = .finished → t.listener ≠ .announce op) : t.completes op = false := by
  by_cases h : t.state = .finished
  · simp [completes, hcompletes, hannounce h]
  · simp [completes, hcompletes, h]

theorem completes_of_some {t : Task} {op' : Nat} (ht : t.state.isTerminal = true)
    (hcompletes : t.listener.completes = some op') (op : Nat) : t.completes op =
      decide (op' = op) := by
  have hannounce : t.listener ≠ .announce op := by
    intro h
    simp [h, Listener.completes] at hcompletes
  simp [completes, ht, hcompletes, hannounce]

@[simp] theorem completes_new (op : Nat) (listener : Listener) :
    completes op { listener := listener } = false := completes_of_alive rfl op

@[simp] theorem announces_new (op : Nat) (listener : Listener) :
    announces op { listener := listener } = false := by
  simp [announces]

/-- The lookup of an operation that calls the handler when it ends, or has it called by its
announcement. -/
def reports (op : Nat) (t : Task) : Bool :=
  t.isLookup op && (t.listener ≠ .announce op || t.state = .finished)

/-- The handler is called by an announcement, or by a lookup that has none. -/
theorem completes_toNat {op : Nat} {t : Task}
    (hended : t.isLookup op = true ∨ t.isAnnounced op = true → t.state.isTerminal = true) :
    (t.completes op).toNat = (t.isAnnounced op).toNat +
    (t.reports op && !t.announces op).toNat := by
  simp only [completes, isAnnounced, reports, announces, isLookup] at hended ⊢
  cases hlistener : t.listener with
  | complete k | announced k | bucket k =>
    by_cases hk : k = op
    all_goals simp_all [Listener.lookup, Listener.completes]
  | announce k =>
    by_cases hk : k = op
    all_goals simp [Listener.lookup, Listener.completes, hk]
  | homeBucket | refresh => simp [Listener.lookup, Listener.completes]

end Task

namespace Ledger

variable {canceled : Nat → Prop} {l l' : Ledger} {op i : Nat} {t t' : Task}

/-- The handler was called by the tasks that have ended. -/
structure Counted (op : Nat) (l : Ledger) : Prop where
  completed : l.completed.count op = l.tasks.countP (Task.completes op)
  announced : l.tasks.countP (Task.isAnnounced op) = l.tasks.countP (Task.announces op)
  lookup : l.tasks.countP (Task.isLookup op) = if op < l.ops then 1 else 0

namespace Counted

/-- A task that belongs to no operation. -/
theorem append (h : Counted op l) (htasks : l'.tasks = l.tasks ++ [t])
    (hcompletes : t.completes op = false) (hannounces : t.announces op = false)
    (hannounced : t.isAnnounced op = false) (hlookup : t.isLookup op = false)
    (hcompleted : l'.completed = l.completed) (hops : l'.ops = l.ops) : Counted op l' := by
  constructor
  · simp [htasks, hcompleted, hcompletes, h.completed]
  · simp [htasks, hannounces, hannounced, h.announced]
  · simp [htasks, hops, hlookup, h.lookup]

/-- A task ends or goes on, with the calls of the handler that it makes. -/
theorem set (h : Counted op l) (hi : l.tasks[i]? = some t) (ht : t.state.isTerminal = false)
    (htasks : l'.tasks = l.tasks.set i t') (hlistener : t'.listener = t.listener)
    (hnested : t'.nested = t.nested)
    (hcompleted : l'.completed.count op = l.completed.count op + (t'.completes op).toNat)
    (hops : l'.ops = l.ops) :
    Counted op l' := by
  constructor
  · have hset : (l.tasks.set i t').countP (Task.completes op) + (t.completes op).toNat =
        l.tasks.countP (Task.completes op) + (t'.completes op).toNat := Counts.countP_set hi t'
    rw [Task.completes_of_alive ht] at hset
    rw [hcompleted, htasks, h.completed]
    exact hset.symm
  · rw [htasks, Counts.countP_set_same hi, Counts.countP_set_same hi, h.announced]
    · simp [Task.announces, hlistener, hnested]
    · simp [Task.isAnnounced, hlistener]
  · rw [htasks, hops, Counts.countP_set_same hi, h.lookup]
    simp [Task.isLookup, hlistener]

/-- One move. -/
theorem move (h : Counted op l) (hlinked : l.Linked) (hmove : Move canceled l l') :
    Counted op l' := by
  cases hmove with
  | op listener hlookup =>
    have hannounced : Task.isAnnounced op { listener := listener } = false := by
      have hne : listener ≠ .announced op := by
        rintro rfl
        cases hlookup
      simpa [Task.isAnnounced] using hne
    have hlook : Task.isLookup op { listener := listener } = decide (l.ops = op) := by
      simp [Task.isLookup, hlookup]
    constructor
    · simp [h.completed]
    · simp [hannounced, h.announced]
    · rw [List.countP_append, h.lookup, List.countP_singleton, hlook]
      simp only [decide_eq_true_eq]
      split_ifs <;> omega
  | refresh => exact h.append rfl (by simp) (by simp) rfl rfl rfl rfl
  | alive i t t' hi ht ht' hlistener hnested =>
    exact h.set hi ht rfl hlistener hnested (by simp [Task.completes_of_alive ht']) rfl
  | completes i op' t state hi ht hlistener hstate =>
    refine h.set hi ht rfl rfl rfl ?_ rfl
    have hcompletes : Task.completes op { t with state := state } = decide (op' = op) :=
      Task.completes_of_some (t := { t with state := state }) hstate hlistener op
    rw [hcompletes, List.count_append, List.count_singleton]
    by_cases hop : op' = op <;> simp [hop]
  | cancels i op' t hi ht hlistener =>
    refine h.set hi ht rfl rfl rfl ?_ rfl
    rw [Task.completes_of_none (by simp [hlistener, Listener.completes]) op (by simp)]
    rfl
  | noNode i op' t hi ht hlistener =>
    refine h.set hi ht rfl rfl rfl ?_ rfl
    have hcompletes : Task.completes op { t with state := .finished } = decide (op' = op) := by
      simp [Task.completes, hlistener, hlinked.nested_eq_none hi ht, Listener.completes]
    rw [hcompletes, List.count_append, List.count_singleton]
    by_cases hop : op' = op <;> simp [hop]
  | announces i op' t hi ht hlistener =>
    have hcompletes :
        Task.completes op { t with state := .finished, nested := some l.tasks.length } = false := by
      simp [Task.completes, hlistener, Listener.completes]
    have hannounces :
        Task.announces op { t with state := .finished, nested := some l.tasks.length } =
        Task.isAnnounced op { listener := .announced op' } := by
      simp [Task.announces, Task.isAnnounced, hlistener]
    have hnested : t.announces op = false := by simp [Task.announces, hlinked.nested_eq_none hi ht]
    have hset := Counts.countP_set (p := Task.announces op) hi
      { t with state := .finished, nested := some l.tasks.length }
    rw [hannounces, hnested] at hset
    constructor
    · rw [List.countP_append, Counts.countP_set_same hi
        (by rw [hcompletes, Task.completes_of_alive ht]), h.completed]
      simp
    · rw [List.countP_append, List.countP_append, Counts.countP_set_same hi (by rfl), h.announced]
      cases hop : Task.isAnnounced op { listener := .announced op' } <;> simp_all
    · rw [List.countP_append, Counts.countP_set_same hi (by rfl), h.lookup]
      simp [Task.isLookup, Listener.lookup]
  | home i t state hi ht hlistener =>
    refine h.set hi ht rfl rfl rfl ?_ rfl
    rw [Task.completes_of_none (by simp [hlistener, Listener.completes]) op (by simp [hlistener])]
    rfl
  | ignored i t state hi ht hlistener =>
    refine h.set hi ht rfl rfl rfl ?_ rfl
    rw [Task.completes_of_none (by simp [hlistener, Listener.completes]) op (by simp [hlistener])]
    rfl
  | round => exact ⟨h.completed, h.announced, h.lookup⟩
  | call => exact ⟨h.completed, h.announced, h.lookup⟩
  | lastEmpty => exact ⟨h.completed, h.announced, h.lookup⟩
  | last => exact h.append rfl (by simp) (by simp) rfl rfl rfl rfl

end Counted

/-- A run of moves. -/
theorem Counted.moves (h : Counted op l) (hlinked : l.Linked) (hmoves : Moves canceled l l') :
    Counted op l' := by
  have hboth : Counted op l' ∧ l'.Linked := by
    refine hmoves.keep (P := fun l => Counted op l ∧ l.Linked)
      (fun l₁ l₂ hl hmove => ?_) ⟨h, hlinked⟩
    exact ⟨hl.1.move hl.2 hmove, hl.2.move hmove⟩
  exact hboth.1

/-- When the tasks of an operation have ended, its handler has been called once for each lookup that
reports. -/
theorem Counted.count_eq (h : Counted op l) (hlinked : l.Linked)
    (hended : ∀ t ∈ l.tasks, t.isLookup op = true ∨ t.isAnnounced op = true →
      t.state.isTerminal = true) :
    l.completed.count op = l.tasks.countP (Task.reports op) := by
  have hcompletes : l.tasks.countP (Task.completes op) =
      l.tasks.countP (Task.isAnnounced op) + l.tasks.countP fun t =>
        t.reports op && !t.announces op :=
    Counts.countP_eq_add fun t ht => Task.completes_toNat (hended t ht)
  have hreports : l.tasks.countP (Task.reports op) =
      l.tasks.countP (Task.announces op) + l.tasks.countP fun t =>
        t.reports op && !t.announces op := by
    refine Counts.countP_eq_add fun t ht => ?_
    cases hannounces : t.announces op with
    | false => simp
    | true =>
      -- an announcement is only started by a lookup that has finished
      obtain ⟨i, hi⟩ := List.mem_iff_getElem?.mp ht
      obtain ⟨hlistener, n, hn⟩ : t.listener = .announce op ∧ ∃ n, t.nested = some n := by
        simpa [Task.announces, Option.isSome_iff_exists] using hannounces
      obtain ⟨hfinished, -⟩ := hlinked i t hi n hn
      simp [Task.reports, Task.isLookup, Listener.lookup, hlistener, hfinished]
  rw [h.completed, hcompletes, hreports, h.announced]

/-- The lookup of a two-stage operation that has ended during an event was canceled if the event
says so. -/
theorem Moves.announce_state (h : Moves canceled l l')
    (hi : ∀ t, l.tasks[i]? = some t → t.state.isTerminal = false) (hi' : l'.tasks[i]? = some t')
    (hlistener : t'.listener = .announce op) :
    (t'.state = .canceled → canceled i) ∧ (t'.state = .finished → ¬ canceled i) := by
  refine h.keep (P := fun l' => ∀ t' : Task, l'.tasks[i]? = some t' → t'.listener = .announce op →
    (t'.state = .canceled → canceled i) ∧
      (t'.state = .finished → ¬ canceled i)) ?_ ?_ t' hi' hlistener
  · intro l₁ l₂ hl hmove t₂ hi₂ hlistener₂
    obtain hi₁ | ⟨listener, rfl, -⟩ | ⟨t₁, -, -, hsame, hends, -⟩ := hmove.getElem?_cases hi₂
    · exact hl t₂ hi₁ hlistener₂
    · exact ⟨nofun, nofun⟩
    · exact hends op (hsame ▸ hlistener₂)
  · intro t hi₀ _
    have ht := hi t hi₀
    exact ⟨fun h => by simp [h, TaskState.isTerminal] at ht, fun h => by
      simp [h, TaskState.isTerminal] at ht⟩

/-- An event that creates such a lookup cancels none. -/
theorem Moves.announce_new (h : Moves canceled l l') (hi : l.tasks[i]? = none)
    (hi' : l'.tasks[i]? = some t')
    (hlistener : t'.listener = .announce op) (j : Nat) : ¬ canceled j := by
  refine h.keep (P := fun l' => ∀ t' : Task, l'.tasks[i]? = some t' → t'.listener = .announce op →
    ¬ canceled j) ?_ ?_
    t' hi' hlistener
  · intro l₁ l₂ hl hmove t₂ hi₂ hlistener₂
    obtain hi₁ | ⟨listener, rfl, hcanceled⟩ | ⟨t₁, hi₁, -, hsame, -⟩ := hmove.getElem?_cases hi₂
    · exact hl t₂ hi₁ hlistener₂
    · exact hcanceled op hlistener₂ j
    · exact hl t₁ hi₁ (hsame ▸ hlistener₂)
  · intro t hi₀
    simp [hi] at hi₀

end Ledger

namespace Tasks

open Ledger

variable {s : Tasks} {i op : Nat} {t : Task}

/-- A task that is canceled has ended. -/
theorem cancel_isTerminal (hi : s.tasks[i]? = some t) :
    ∃ t', (s.cancel i).tasks[i]? = some t' ∧ t'.state.isTerminal = true := by
  obtain ⟨t₁, hi₁, ht₁⟩ := s.terminate_isTerminal hi (rfl : TaskState.canceled.isTerminal = true)
  unfold cancel
  dsimp only
  split
  · rename_i nested _
    let canceled : Nat → Prop := fun _ => True
    have hmoves : Moves canceled _ _ :=
      terminate_moves (s.terminate i .canceled) nested (rfl : TaskState.canceled.isTerminal =
        true) fun _ _ _ _ => by
        simp [canceled]
    obtain ⟨t₂, hi₂, hlater⟩ := hmoves.extends i t₁ hi₁
    exact ⟨t₂, hi₂, by rw [hlater.state ht₁]; exact ht₁⟩
  · exact ⟨t₁, hi₁, ht₁⟩

theorem foldl_cancel_isTerminal (is : List Nat) (s : Tasks) (hlinked : s.ledger.Linked)
    (hi : s.tasks[i]? = some t)
    (hmem : i ∈ is) : ∃ t', (is.foldl cancel s).tasks[i]? = some t' ∧
      t'.state.isTerminal = true := by
  let canceled : Nat → Prop := fun _ => True
  induction is generalizing s t with
  | nil => cases hmem
  | cons j is ih =>
    have hmoves : Moves canceled s.ledger (s.cancel j).ledger :=
      cancel_moves hlinked fun _ _ _ _ => trivial
    obtain rfl | hmem := List.mem_cons.mp hmem
    · obtain ⟨t₁, hi₁, ht₁⟩ := cancel_isTerminal hi
      have hrest : Moves canceled (s.cancel i).ledger (is.foldl cancel (s.cancel i)).ledger :=
        foldl_cancel_moves is _ (hlinked.moves hmoves) fun _ _ => trivial
      obtain ⟨t₂, hi₂, hlater⟩ := hrest.extends i t₁ hi₁
      exact ⟨t₂, hi₂, by rw [hlater.state ht₁]; exact ht₁⟩
    · obtain ⟨t₁, hi₁, -⟩ := hmoves.extends i t hi
      exact ih (s.cancel j) (hlinked.moves hmoves) hi₁ hmem

theorem cancelAll_isTerminal (hlinked : s.ledger.Linked) (hi : s.tasks[i]? = some t)
    (hmem : i ∈ s.running ∨ i ∈ s.queued) :
    ∃ t', s.cancelAll.tasks[i]? = some t' ∧ t'.state.isTerminal = true := by
  rw [cancelAll_eq]
  exact foldl_cancel_isTerminal (s.running ++ s.queued)
    { s with locked := true, canceling := true } hlinked hi
    (List.mem_append.mpr hmem)

/-- What an event cancels has ended after it. -/
theorem step_isTerminal {e : Event} (hstuck : s.stuck = false) (hlinked : s.ledger.Linked)
    (hi : s.tasks[i]? = some t) (hcancels : s.cancels e i) :
    ∃ t', (s.step e).tasks[i]? = some t' ∧ t'.state.isTerminal = true := by
  rw [step, hstuck]
  cases e with
  | cancel j =>
    obtain rfl : i = j := hcancels
    exact cancel_isTerminal hi
  | cancelAll => exact cancelAll_isTerminal hlinked hi hcancels
  | stop =>
    obtain ⟨hrunning, hmem⟩ := hcancels
    simpa [react, stop, hrunning] using cancelAll_isTerminal (s :=
      { s with isRunning := false }) hlinked hi hmem
  | _ => exact hcancels.elim

/-- The lookup of a `storeValue` or an `announcePeer` was canceled. -/
def Canceled (s : Tasks) (op : Nat) : Prop :=
  ∃ (i : Nat) (t : Task), s.tasks[i]? = some t ∧ t.listener = .announce op ∧ t.state = .canceled

/-- The event cancels the lookup of a `storeValue` or an `announcePeer`. -/
def Interrupts (s : Tasks) (e : Event) (op : Nat) : Prop :=
  s.stuck = false ∧ ∃ (i : Nat) (t : Task),
    s.tasks[i]? = some t ∧ t.listener = .announce op ∧ t.state.isTerminal = false ∧ s.cancels e i

/-- A lookup is canceled by the event that cancels it, and stays so. -/
theorem step_canceled_iff (s : Tasks) (e : Event) (op : Nat) (hlinked : s.ledger.Linked) :
    (s.step e).Canceled op ↔ s.Canceled op ∨ s.Interrupts e op := by
  have hmoves := step_moves s e hlinked
  constructor
  · rintro ⟨i, t', hi', hlistener, hcanceled⟩
    cases hi : s.tasks[i]? with
    | none =>
      have hcancels : s.cancels e i :=
        (hmoves.announce_state (by simp [ledger, hi]) hi' hlistener).1 hcanceled
      exact absurd hcancels (hmoves.announce_new hi hi' hlistener i)
    | some t =>
      obtain ⟨u, hu, hlater⟩ := hmoves.extends i t hi
      obtain rfl : u = t' := Option.some_injective _ (hu.symm.trans hi')
      have hannounce : t.listener = .announce op := hlater.listener.symm.trans hlistener
      cases ht : t.state.isTerminal with
      | true => exact .inl ⟨i, t, hi, hannounce, (hlater.state ht).symm.trans hcanceled⟩
      | false =>
        have hcancels : s.cancels e i := by
          refine (hmoves.announce_state (fun t₀ ht₀ => ?_) hi' hlistener).1 hcanceled
          obtain rfl : t = t₀ := Option.some_injective _ (hi.symm.trans ht₀)
          exact ht
        refine .inr ⟨?_, i, t, hi, hannounce, ht, hcancels⟩
        by_contra hstuck
        rw [step, if_pos (by simpa using hstuck), hi] at hi'
        cases hi'
        simp [hcanceled, TaskState.isTerminal] at ht
  · rintro (⟨i, t, hi, hlistener, hcanceled⟩ | ⟨hstuck, i, t, hi, hlistener, ht, hcancels⟩)
    · obtain ⟨t', hi', hlater⟩ := hmoves.extends i t hi
      refine ⟨i, t', hi', hlater.listener.trans hlistener, ?_⟩
      rw [hlater.state (by rw [hcanceled]; rfl), hcanceled]
    · obtain ⟨t', hi', ht'⟩ := step_isTerminal hstuck hlinked hi hcancels
      obtain ⟨u, hu, hlater⟩ := hmoves.extends i t hi
      obtain rfl : u = t' := Option.some_injective _ (hu.symm.trans hi')
      have hannounce := hlater.listener.trans hlistener
      have hfinished : u.state ≠ .finished := by
        intro hfinished
        refine (hmoves.announce_state (fun t₀ ht₀ => ?_) hi' hannounce).2 hfinished hcancels
        obtain rfl : t = t₀ := Option.some_injective _ (hi.symm.trans ht₀)
        exact ht
      exact ⟨i, u, hi', hannounce, by simpa [TaskState.isTerminal, hfinished] using ht'⟩

/-- The handler of each operation is counted. -/
theorem run_counted (n : Nat) (events : List Event) (op : Nat) :
    ((init n).run events).ledger.Counted op := by
  induction events using List.reverseRecOn with
  | nil => exact ⟨rfl, rfl, rfl⟩
  | append_singleton events e ih =>
    rw [run_concat]
    exact ih.moves (run_linked n events) (step_moves _ e (run_linked n events))

/-- In a run no event of which cancels the lookup, it is not canceled. -/
theorem run_canceled_iff (n : Nat) (events : List Event) (op : Nat) :
    ¬ ((init n).run events).Canceled op ↔
      Runs.Every (fun pre e => ¬ ((init n).run pre).Interrupts e op) events := by
  refine Runs.iff_every (Q := fun pre => ¬ ((init n).run pre).Canceled op)
    (by simp [Canceled, init])
    (fun pre e => ?_) events
  rw [run_concat, step_canceled_iff _ e op (run_linked n pre), not_or]

/-- All tasks of an operation have ended. -/
def Ended (s : Tasks) (op : Nat) : Prop :=
  ∀ t ∈ s.tasks, t.isLookup op = true ∨ t.isAnnounced op = true → t.state.isTerminal = true

instance (s : Tasks) (op : Nat) : Decidable (s.Ended op) :=
  inferInstanceAs (Decidable (∀ t ∈ s.tasks, _))

/-- The lookup that does not report was canceled. -/
theorem countP_not_reports_eq_zero_iff (hended : s.Ended op) :
    (s.tasks.countP fun t => t.isLookup op && !t.reports op) = 0 ↔ ¬ s.Canceled op := by
  rw [List.countP_eq_zero]
  constructor
  · rintro hnone ⟨i, t, hi, hlistener, hcanceled⟩
    refine hnone t (List.mem_of_getElem? hi) ?_
    simp [Task.reports, Task.isLookup, Listener.lookup, hlistener, hcanceled]
  · intro hcanceled t ht hlookup
    obtain ⟨hlookup, hreports⟩ : t.isLookup op = true ∧ t.reports op = false := by
      simpa using hlookup
    obtain ⟨hlistener, hfinished⟩ : t.listener = .announce op ∧ t.state ≠ .finished := by
      simpa [Task.reports, hlookup] using hreports
    obtain ⟨i, hi⟩ := List.mem_iff_getElem?.mp ht
    refine hcanceled ⟨i, t, hi, hlistener, ?_⟩
    simpa [TaskState.isTerminal, hfinished] using hended t ht (.inl hlookup)

/-- Once all tasks of an operation have ended, its `completeHandler` has been called exactly once,
if and only if no event of the run has canceled the lookup of a `storeValue` or an
`announcePeer`. -/
theorem completed_once_iff (n : Nat) (events : List Event) (op : Nat)
    (hop : op < ((init n).run events).ops) (hended : ((init n).run events).Ended op) :
    ((init n).run events).completed.count op = 1 ↔
      Runs.Every (fun pre e => ¬ ((init n).run pre).Interrupts e op) events := by
  rw [← run_canceled_iff, ← countP_not_reports_eq_zero_iff hended]
  have hcounted := run_counted n events op
  have hcount := hcounted.count_eq (run_linked n events) hended
  have hlookup := hcounted.lookup
  have hsplit : ((init n).run events).tasks.countP (Task.isLookup op) =
      ((init n).run events).tasks.countP (Task.reports op) +
        ((init n).run events).tasks.countP fun t => t.isLookup op && !t.reports op := by
    refine Counts.countP_eq_add fun t _ => ?_
    cases hreports : t.reports op with
    | false => simp
    | true =>
      have hlook : t.isLookup op = true := (Bool.and_eq_true_iff.mp hreports).1
      simp [hlook]
  rw [if_pos (by exact hop)] at hlookup
  simp only [ledger] at hcount hlookup
  omega

/-- A `storeValue` with its lookup and its announcement. -/
def stored : List Event :=
  [.store, .dequeue fun _ => false, .update 0 .finishes 3, .dequeue fun _ => false,
    .update 1 .finishes 0]

theorem stored_completed :
    ((init 1).run stored).completed.count 0 = 1 ∧
      Runs.Every (fun pre e => ¬ ((init 1).run pre).Interrupts e 0) stored :=
  ⟨by decide, (completed_once_iff 1 stored 0 (by decide) (by decide)).mp (by decide)⟩

/-- The DHT is stopped before the lookup of a `storeValue` has finished: its handler is never
called. -/
theorem stop_not_completed :
    ¬ ∀ (n : Nat) (events : List Event) (op : Nat), op < ((init n).run events).ops →
      ((init n).run events).Ended op →
      ((init n).run events).completed.count op = 1 := by
  intro h
  have hcount := h 1 [.store, .dequeue fun _ => false, .stop] 0 (by decide) (by decide)
  exact absurd hcount (by decide)

end Tasks

end Boson
