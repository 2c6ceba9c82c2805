import Boson.Task.TaskManager
import Mathlib.Logic.Relation

/-!
# What the events do to the tasks

An event is a sequence of moves, each of which changes one task or one bootstrap round
(`step_moves`). What the lists of the manager and its lock are does not matter for that, so the
moves are on the `Ledger`: the tasks, the rounds and the operations.

- A task that is alive changes its state (`alive`), or ends (`completes`, `cancels`, `noNode`,
  `announces`, `home`, `ignored`, after the listener).
- Only the lookup of `storeValue` or `announcePeer` looks at how it ended. An event says which of
  them it cancels (`Tasks.cancels`), and no other move cancels one.
- A nested task is an announcement, and the task that it is nested in has finished
  (`Ledger.Linked`).
-/

namespace Boson

open Relation (ReflTransGen)

/-- The tasks, with what they are for. -/
structure Ledger where
  tasks : List Task
  rounds : List Round
  bootstrapping : Bool
  ops : Nat
  completed : List Nat

/-- The ledger of a task manager. -/
def Tasks.ledger (s : Tasks) : Ledger := ⟨s.tasks, s.rounds, s.bootstrapping, s.ops, s.completed⟩

namespace Listener

/-- The operation that the task is the lookup of. -/
def lookup : Listener → Option Nat
  | .complete op | .announce op | .bucket op _ => some op
  | _ => none

/-- The operation that the task completes, however it ends. -/
def completes : Listener → Option Nat
  | .complete op | .announced op | .bucket op _ => some op
  | _ => none

end Listener

namespace Ledger

variable {canceled : Nat → Prop} {l l' : Ledger}

/-- What can happen to a task or a round. `canceled` are the tasks that the event cancels. -/
inductive Move (canceled : Nat → Prop) (l : Ledger) : Ledger → Prop
  | op (listener : Listener) (hlookup : listener.lookup = some l.ops)
    (hcanceled : ∀ op, listener = .announce op → ∀ i, ¬ canceled i) :
    Move canceled l { l with ops := l.ops + 1, tasks := l.tasks ++ [{ listener := listener }] }
  | refresh : Move canceled l { l with tasks := l.tasks ++ [{ listener := .refresh }] }
  | alive (i : Nat) (t t' : Task) (hi : l.tasks[i]? = some t) (ht : t.state.isTerminal = false)
    (ht' : t'.state.isTerminal = false) (hlistener : t'.listener = t.listener)
      (hnested : t'.nested = t.nested)
    (hclosest : t'.started = false → t.started = false ∧ t'.closest = t.closest) :
    Move canceled l { l with tasks := l.tasks.set i t' }
  | completes (i op : Nat) (t : Task) (state : TaskState) (hi : l.tasks[i]? = some t)
      (ht : t.state.isTerminal = false)
    (hlistener : t.listener.completes = some op) (hstate : state.isTerminal = true) :
    Move canceled l
      { l with tasks := l.tasks.set i { t with state := state }, completed := l.completed ++ [op] }
  | cancels (i op : Nat) (t : Task) (hi : l.tasks[i]? = some t) (ht : t.state.isTerminal = false)
    (hlistener : t.listener = .announce op) (hcanceled : canceled i) :
    Move canceled l { l with tasks := l.tasks.set i { t with state := .canceled } }
  | noNode (i op : Nat) (t : Task) (hi : l.tasks[i]? = some t) (ht : t.state.isTerminal = false)
    (hlistener : t.listener = .announce op) (hcanceled : ¬ canceled i) (hclosest : t.closest = 0) :
    Move canceled l
      { l with tasks := l.tasks.set i { t with state := .finished },
               completed := l.completed ++ [op] }
  | announces (i op : Nat) (t : Task) (hi : l.tasks[i]? = some t) (ht : t.state.isTerminal = false)
    (hlistener : t.listener = .announce op) (hcanceled : ¬ canceled i) (hclosest : t.closest ≠ 0) :
    Move canceled l
      { l with
        tasks := l.tasks.set i { t with state := .finished, nested := some l.tasks.length } ++
          [{ listener := .announced op }] }
  | home (i : Nat) (t : Task) (state : TaskState) (hi : l.tasks[i]? = some t)
      (ht : t.state.isTerminal = false)
    (hlistener : t.listener = .homeBucket) (hstate : state.isTerminal = true) :
    Move canceled l
      { l with tasks := l.tasks.set i { t with state := state }, bootstrapping := false }
  | ignored (i : Nat) (t : Task) (state : TaskState) (hi : l.tasks[i]? = some t)
      (ht : t.state.isTerminal = false)
    (hlistener : t.listener = .refresh) (hstate : state.isTerminal = true) :
    Move canceled l { l with tasks := l.tasks.set i { t with state := state } }
  | round (calls len : Nat) (hbootstrapping : l.bootstrapping = false) (hcalls : calls ≠ 0)
    (hlen : len ≠ 0 → calls = len) :
    Move canceled l
      { l with bootstrapping := true, rounds := l.rounds ++
        [{ calls := calls, pending := calls, len := len }] }
  | call (j found : Nat) (r : Round) (hj : l.rounds[j]? = some r) (hpending : r.pending ≠ 0)
    (hcount : r.count + 1 ≠ r.len) :
      Move canceled l { l with rounds := l.rounds.set j (r.ended found) }
  | lastEmpty (j found : Nat) (r : Round) (hj : l.rounds[j]? = some r) (hpending : r.pending ≠ 0)
    (hcount : r.count + 1 = r.len) :
    Move canceled l
      { l with
        rounds := l.rounds.set j { r.ended found with filled := r.filled + 1 }
        bootstrapping := false }
  | last (j found : Nat) (r : Round) (hj : l.rounds[j]? = some r) (hpending : r.pending ≠ 0)
    (hcount : r.count + 1 = r.len) :
    Move canceled l
      { l with
        rounds :=
          l.rounds.set j { r.ended found with filled := r.filled + 1, task := some l.tasks.length }
        tasks := l.tasks ++ [{ listener := .homeBucket }] }

/-- A sequence of moves. -/
def Moves (canceled : Nat → Prop) : Ledger → Ledger → Prop := ReflTransGen (Move canceled)

namespace Moves

theorem refl (l : Ledger) : Moves canceled l l := ReflTransGen.refl

theorem trans {l₁ l₂ l₃ : Ledger} (h : Moves canceled l₁ l₂) (h' : Moves canceled l₂ l₃) :
    Moves canceled l₁ l₃ :=
  ReflTransGen.trans h h'

theorem single (h : Move canceled l l') : Moves canceled l l' := ReflTransGen.single h

/-- What every move keeps, a sequence of them keeps. -/
theorem keep {P : Ledger → Prop} (hmove : ∀ l l', P l → Move canceled l l' → P l')
    (h : Moves canceled l l') (hl : P l) :
    P l' := by
  induction h with
  | refl => exact hl
  | tail _ hlast ih => exact hmove _ _ ih hlast

end Moves

/-- A task later on: what has ended stays as it ended. -/
structure Later (t t' : Task) : Prop where
  listener : t'.listener = t.listener
  state : t.state.isTerminal = true → t'.state = t.state

theorem Later.refl (t : Task) : Later t t := ⟨rfl, fun _ => rfl⟩

theorem Later.trans {t₁ t₂ t₃ : Task} (h : Later t₁ t₂) (h' : Later t₂ t₃) : Later t₁ t₃ :=
  ⟨h'.listener.trans h.listener, fun ht => by
    rw [h'.state (by rw [h.state ht]; exact ht), h.state ht]⟩

/-- A task that is alive may be changed. -/
theorem Later.of_alive {t t' : Task} (ht : t.state.isTerminal = false)
    (hlistener : t'.listener = t.listener) :
    Later t t' := ⟨hlistener, fun h => by simp [ht] at h⟩

/-- The tasks of `l`, later on. -/
def Extends (l l' : Ledger) : Prop :=
  ∀ (i : Nat) (t : Task), l.tasks[i]? = some t → ∃ t', l'.tasks[i]? = some t' ∧ Later t t'

theorem extends_append {l l' : Ledger} {ts : List Task} (h : l'.tasks = l.tasks ++ ts) :
    Extends l l' := by
  intro i t hi
  obtain ⟨hlt, -⟩ := List.getElem?_eq_some_iff.mp hi
  exact ⟨t, by rw [h, List.getElem?_append_left hlt, hi], Later.refl t⟩

theorem extends_set {l l' : Ledger} {i : Nat} {t t' : Task} {ts : List Task}
    (hi : l.tasks[i]? = some t)
    (h : l'.tasks = l.tasks.set i t' ++ ts) (hlater : Later t t') : Extends l l' := by
  intro j u hj
  obtain ⟨hlt, -⟩ := List.getElem?_eq_some_iff.mp hj
  rw [h, List.getElem?_append_left (by simpa using hlt)]
  by_cases hij : i = j
  · subst hij
    rw [hi, Option.some.injEq] at hj
    exact ⟨t', List.getElem?_set_self hlt, hj ▸ hlater⟩
  · exact ⟨u, by rw [List.getElem?_set_ne hij, hj], Later.refl u⟩

theorem Move.extends (h : Move canceled l l') : Extends l l' := by
  cases h with
  | op => exact extends_append rfl
  | refresh => exact extends_append rfl
  | alive i t t' hi ht _ hlistener =>
    exact extends_set hi (List.append_nil _).symm (.of_alive ht hlistener)
  | completes i op t state hi ht => exact extends_set hi (List.append_nil _).symm (.of_alive ht rfl)
  | cancels i op t hi ht => exact extends_set hi (List.append_nil _).symm (.of_alive ht rfl)
  | noNode i op t hi ht => exact extends_set hi (List.append_nil _).symm (.of_alive ht rfl)
  | announces i op t hi ht => exact extends_set hi rfl (.of_alive ht rfl)
  | home i t state hi ht => exact extends_set hi (List.append_nil _).symm (.of_alive ht rfl)
  | ignored i t state hi ht => exact extends_set hi (List.append_nil _).symm (.of_alive ht rfl)
  | round => exact extends_append (List.append_nil _).symm
  | call => exact extends_append (List.append_nil _).symm
  | lastEmpty => exact extends_append (List.append_nil _).symm
  | last => exact extends_append rfl

theorem Moves.extends (h : Moves canceled l l') : Extends l l' := by
  refine h.keep (P := Extends l) (fun l₁ l₂ hl hmove i t hi => ?_) fun i t hi => ⟨t, hi,
    Later.refl t⟩
  obtain ⟨t₁, hi₁, hlater⟩ := hl i t hi
  obtain ⟨t₂, hi₂, hlater'⟩ := hmove.extends i t₁ hi₁
  exact ⟨t₂, hi₂, hlater.trans hlater'⟩

/-- Where the tasks come from: from before, from a task that was alive, or they are new. The lookup
of a two-stage operation ends as the event says. -/
theorem Move.getElem?_cases (h : Move canceled l l') {i : Nat} {t' : Task}
    (hi : l'.tasks[i]? = some t') :
    l.tasks[i]? = some t' ∨
    (∃ listener, t' = { listener := listener } ∧ ∀ op, listener = .announce op →
      ∀ j, ¬ canceled j) ∨
    ∃ t, l.tasks[i]? = some t ∧ t.state.isTerminal = false ∧ t'.listener = t.listener ∧
      (∀ op, t.listener = .announce op →
        (t'.state = .canceled → canceled i) ∧ (t'.state = .finished → ¬ canceled i)) ∧
      (t'.nested = t.nested ∨
        t'.state = .finished ∧ t'.nested = some l.tasks.length ∧ ∃ op, t.listener = .announce op ∧
          l'.tasks[l.tasks.length]? = some { listener := .announced op }) := by
  have hnew : ∀ {listener : Listener}, (l.tasks ++ [{ listener := listener }])[i]? = some t' →
      l.tasks[i]? = some t' ∨ t' = { listener := listener } := by
    intro listener h
    grind
  have hset : ∀ {k : Nat} {u u' : Task}, (l.tasks.set k u')[i]? = some t' → l.tasks[k]? = some u →
      l.tasks[i]? = some t' ∨ i = k ∧ t' = u' := by
    intro k u u' h hk
    grind
  cases h with
  | op listener _ hcanceled => exact (hnew hi).imp_right fun h => .inl ⟨listener, h, hcanceled⟩
  | refresh | last => exact (hnew hi).imp_right fun h => .inl ⟨_, h, by simp⟩
  | round | call | lastEmpty => exact .inl hi
  | alive k t u hk ht hu hlistener hnested =>
    obtain h | ⟨rfl, rfl⟩ := hset hi hk
    · exact .inl h
    · refine .inr (.inr ⟨t, hk, ht, hlistener, fun op _ => ⟨fun h => ?_, fun h => ?_⟩,
        .inl hnested⟩)
      all_goals simp [h, TaskState.isTerminal] at hu
  | completes k op t _ hk ht hlistener =>
    obtain h | ⟨rfl, rfl⟩ := hset hi hk
    · exact .inl h
    · exact .inr
        (.inr ⟨t, hk, ht, rfl, fun op h => by simp [h, Listener.completes] at hlistener, .inl rfl⟩)
  | cancels k op t hk ht _ hcanceled =>
    obtain h | ⟨rfl, rfl⟩ := hset hi hk
    · exact .inl h
    · exact .inr (.inr ⟨t, hk, ht, rfl, fun _ _ => ⟨fun _ => hcanceled, nofun⟩, .inl rfl⟩)
  | noNode k op t hk ht _ hcanceled =>
    obtain h | ⟨rfl, rfl⟩ := hset hi hk
    · exact .inl h
    · exact .inr (.inr ⟨t, hk, ht, rfl, fun _ _ => ⟨nofun, fun _ => hcanceled⟩, .inl rfl⟩)
  | home k t _ hk ht hlistener | ignored k t _ hk ht hlistener =>
    obtain h | ⟨rfl, rfl⟩ := hset hi hk
    · exact .inl h
    · exact .inr (.inr ⟨t, hk, ht, rfl, fun op h => by simp [h] at hlistener, .inl rfl⟩)
  | announces k op t hk ht hlistener =>
    grind

/-- A nested task is an announcement, and the lookup has finished. -/
def Linked (l : Ledger) : Prop :=
  ∀ (i : Nat) (t : Task), l.tasks[i]? = some t → ∀ n, t.nested = some n →
    t.state = .finished ∧ ∃ (t' : Task) (op : Nat),
      l.tasks[n]? = some t' ∧ t.listener = .announce op ∧ t'.listener = .announced op

theorem Linked.nested_eq_none (h : l.Linked) {i : Nat} {t : Task} (hi : l.tasks[i]? = some t)
    (ht : t.state.isTerminal = false) : t.nested = none := by
  rw [Option.eq_none_iff_forall_ne_some]
  intro n hn
  obtain ⟨hfinished, -⟩ := h i t hi n hn
  simp [hfinished, TaskState.isTerminal] at ht

theorem Linked.move (h : l.Linked) (hmove : Move canceled l l') : l'.Linked := by
  -- what a nested task of before is, it still is
  have hkept : ∀ (n op : Nat) (u : Task), l.tasks[n]? = some u → u.listener = .announced op →
      ∃ u', l'.tasks[n]? = some u' ∧ u'.listener = .announced op := by
    intro n op u hn hu
    obtain ⟨u', hn', hlater⟩ := hmove.extends n u hn
    exact ⟨u', hn', hlater.listener.trans hu⟩
  intro i t' hi n hnested
  obtain hi | ⟨listener, rfl, -⟩ | ⟨t, hi, ht, hlistener, -,
      hsame | ⟨hstate, hlast, op, hannounce, hannounced⟩⟩ :=
    hmove.getElem?_cases hi
  · obtain ⟨hstate, u, op, hn, ht', hu⟩ := h i t' hi n hnested
    obtain ⟨u', hn', hu'⟩ := hkept n op u hn hu
    exact ⟨hstate, u', op, hn', ht', hu'⟩
  · cases hnested
  · simp [hsame, h.nested_eq_none hi ht] at hnested
  · obtain rfl : l.tasks.length = n := by simpa [hlast] using hnested
    exact ⟨hstate, _, op, hannounced, hlistener.trans hannounce, rfl⟩

theorem Linked.moves (h : l.Linked) (hmoves : Moves canceled l l') : l'.Linked :=
  hmoves.keep (fun _ _ => Linked.move) h

end Ledger

namespace Tasks

open Ledger

variable {canceled : Nat → Prop} {s : Tasks} {i : Nat} {t : Task}

theorem modifyTask_eq (hi : s.tasks[i]? = some t) (f : Task → Task) :
    s.modifyTask i f = { s with tasks := s.tasks.set i (f t) } := by
  simp [modifyTask, List.modify_eq_set_getElem?, hi]

theorem modifyTask_eq_self (hi : s.tasks[i]? = none) (f : Task → Task) : s.modifyTask i f = s := by
  simp [modifyTask, List.modify_eq_set_getElem?, hi]

theorem stateOf_eq (hi : s.tasks[i]? = some t) : s.stateOf i = t.state := by simp [stateOf, hi]

theorem stateOf_eq_initial (hi : s.tasks[i]? = none) : s.stateOf i = .initial := by
    simp [stateOf, hi]

theorem add_moves (s : Tasks) (i : Nat) (prior : Bool) :
    Moves canceled s.ledger (s.add i prior).ledger := by
  unfold add
  split
  · exact .refl _
  split
  · exact .refl _
  split
  · exact .refl _
  · rename_i hstate
    cases hi : s.tasks[i]? with
    | none =>
      rw [modifyTask_eq_self hi]
      exact .refl _
    | some t =>
      rw [modifyTask_eq hi]
      rw [stateOf_eq hi] at hstate
      exact .single (.alive i t _ hi (by rw [hstate]; rfl) rfl rfl rfl fun h => ⟨h, rfl⟩)
  · exact .refl _

/-- The lookups of operations. -/
theorem spawn_op_moves (s : Tasks) {listener : Listener} (hlookup : listener.lookup = some s.ops)
    (hcanceled : ∀ op, listener = .announce op → ∀ i, ¬ canceled i) :
    Moves canceled s.ledger ({ s with ops := s.ops + 1 }.spawn listener).ledger :=
  have hnew : Moves canceled s.ledger ({ s with ops := s.ops + 1 }.newTask listener).ledger :=
    .single (.op listener hlookup hcanceled)
  hnew.trans (add_moves _ _ _)

theorem fillLoop_moves (fill n : Nat) (s : Tasks) :
    Moves canceled s.ledger (fillLoop fill n s).ledger := by
  induction n generalizing s with
  | zero => exact .refl _
  | succ n ih =>
    rw [fillLoop]
    split_ifs with hstuck
    · exact .refl _
    · have hspawn :
          Moves canceled s.ledger ({ s with ops := s.ops + 1 }.spawn (.bucket s.ops fill)).ledger :=
        s.spawn_op_moves rfl nofun
      exact hspawn.trans (ih _)

theorem fillBuckets_moves (s : Tasks) : Moves canceled s.ledger s.fillBuckets.ledger := by
  unfold fillBuckets
  split_ifs with hunfilled
  · exact .refl _
  · exact fillLoop_moves s.fills.length s.unfilled
      { s with fills := s.fills ++ [{ total := s.unfilled }] }

/-- A lookup has finished, and its announcement is given to the manager. -/
theorem announce_moves {op : Nat} (hlt : i < s.tasks.length) (t : Task) :
    Moves canceled
      { s.ledger with
        tasks := s.tasks.set i { t with state := .finished, nested := some s.tasks.length } ++
          [({ listener := .announced op } : Task)] }
      ({ s with tasks := s.tasks.set i { t with state := .finished } }.announce i op).ledger := by
  have hget (t' new : Task) : (s.tasks.set i t' ++ [new])[i]? = some t' := by
    rw [List.getElem?_append_left (by simpa using hlt), List.getElem?_set_self hlt]
  have hset (t' t'' new : Task) : (s.tasks.set i t' ++ [new]).set i t'' =
      s.tasks.set i t'' ++ [new] := by
    rw [List.set_append_left _ _ (by simpa using hlt), List.set_set]
  rw [announce, newTask]
  dsimp only
  rw [modifyTask_eq (hget _ _), List.length_set, hset]
  exact add_moves { s with
    tasks := s.tasks.set i { t with state := .finished, nested := some s.tasks.length } ++
      [({ listener := .announced op } : Task)] } _ _

/-- A task that was alive ends, and its listener does the rest. -/
theorem terminate_move {state : TaskState} (hi : s.tasks[i]? = some t)
    (ht : t.state.isTerminal = false) (hstate : state.isTerminal = true)
    (hcanceled : ∀ op, t.listener = .announce op → (state = .canceled ↔ canceled i)) :
    ∃ l t', Move canceled s.ledger l ∧ l.tasks[i]? = some t' ∧ t'.state = state ∧
      Moves canceled l (s.terminate i state).ledger := by
  have hlt : i < s.tasks.length := (List.getElem?_eq_some_iff.mp hi).1
  have hended : (s.tasks.set i { t with state := state })[i]? = some { t with state := state } :=
    List.getElem?_set_self hlt
  rw [terminate, stateOf_eq hi, if_neg (by simp [ht]), modifyTask_eq hi, notify, hended]
  dsimp only [listen]
  split <;> rename_i hlistener
  · exact ⟨_, _, .completes i _ t state hi ht (by rw [hlistener]; rfl) hstate, hended, rfl, .refl _⟩
  · rename_i op
    have hop := hcanceled op hlistener
    split_ifs with hfinished hclosest
    · obtain rfl : state = .canceled := by cases state <;> simp_all [TaskState.isTerminal]
      exact ⟨_, _, .cancels i op t hi ht hlistener (hop.mp rfl), hended, rfl, .refl _⟩
    · obtain rfl : state = .finished := not_not.mp hfinished
      exact ⟨_, _, .noNode i op t hi ht hlistener (by simp [← hop]) hclosest, hended, rfl, .refl _⟩
    · obtain rfl : state = .finished := not_not.mp hfinished
      refine ⟨_, { t with state := .finished, nested := some s.tasks.length },
        .announces i op t hi ht hlistener (by simp [← hop]) hclosest, ?_, rfl, announce_moves hlt t⟩
      exact (List.getElem?_append_left (by rw [List.length_set]; exact hlt)).trans
        (List.getElem?_set_self hlt)
  · exact ⟨_, _, .completes i _ t state hi ht (by rw [hlistener]; rfl) hstate, hended, rfl, .refl _⟩
  · refine ⟨_, _, .home i t state hi ht hlistener hstate, hended, rfl, ?_⟩
    split_ifs
    · exact .refl _
    · exact fillBuckets_moves
        { s with tasks := s.tasks.set i { t with state := state }, bootstrapping := false }
    · exact .refl _
  · exact ⟨_, _, .completes i _ t state hi ht (by rw [hlistener]; rfl) hstate, hended, rfl, .refl _⟩
  · exact ⟨_, _, .ignored i t state hi ht hlistener hstate, hended, rfl, .refl _⟩

theorem terminate_eq_self {state : TaskState} (hi : s.tasks[i]? = some t)
    (ht : t.state.isTerminal = true) :
    s.terminate i state = s := by
  rw [terminate, stateOf_eq hi, if_pos ht]

theorem terminate_eq_self_of_none {state : TaskState} (hi : s.tasks[i]? = none) :
    s.terminate i state = s := by
  rw [terminate, modifyTask_eq_self hi, notify, hi]
  exact ite_self _

theorem terminate_moves (s : Tasks) (i : Nat) {state : TaskState} (hstate : state.isTerminal = true)
    (hcanceled : ∀ t op, s.tasks[i]? = some t → t.listener = .announce op →
      (state = .canceled ↔ canceled i)) :
    Moves canceled s.ledger (s.terminate i state).ledger := by
  cases hi : s.tasks[i]? with
  | none =>
    rw [terminate_eq_self_of_none hi]
    exact .refl _
  | some t =>
    cases ht : t.state.isTerminal with
    | true =>
      rw [terminate_eq_self hi ht]
      exact .refl _
    | false =>
      obtain ⟨l, t', hmove, -, -, hrest⟩ := terminate_move hi ht hstate fun op => hcanceled t op hi
      exact (Moves.single hmove).trans hrest

/-- After that the task has the state that was asked for. -/
theorem terminate_state (s : Tasks) {state : TaskState} (hi : s.tasks[i]? = some t)
    (ht : t.state.isTerminal = false)
    (hstate : state.isTerminal = true) : ∃ t', (s.terminate i state).tasks[i]? = some t' ∧
      t'.state = state := by
  let canceled : Nat → Prop := fun _ => state = .canceled
  obtain ⟨l, t₁, -, hi₁, ht₁, hrest⟩ :=
    terminate_move hi ht hstate fun _ _ => (Iff.rfl : _ ↔ canceled i)
  obtain ⟨t₂, hi₂, hlater⟩ := hrest.extends i t₁ hi₁
  exact ⟨t₂, hi₂, by rw [hlater.state (by rw [ht₁]; exact hstate), ht₁]⟩

theorem terminate_isTerminal (s : Tasks) {state : TaskState} (hi : s.tasks[i]? = some t)
    (hstate : state.isTerminal = true) :
    ∃ t', (s.terminate i state).tasks[i]? = some t' ∧ t'.state.isTerminal = true := by
  cases ht : t.state.isTerminal with
  | true => exact ⟨t, by rw [terminate_eq_self hi ht, hi], ht⟩
  | false =>
    obtain ⟨t', hi', ht'⟩ := s.terminate_state hi ht hstate
    exact ⟨t', hi', by rw [ht']; exact hstate⟩

theorem finish_moves (s : Tasks) (i : Nat) (hcanceled : ¬ canceled i) :
    Moves canceled s.ledger (s.finish i).ledger :=
  terminate_moves s i rfl fun _ _ _ _ => by simp [hcanceled]

/-- `Task::cancel`. What is nested is an announcement, and does not look at how it ends. -/
theorem cancel_moves (hlinked : s.ledger.Linked)
    (hcanceled : ∀ t op, s.tasks[i]? = some t → t.listener = .announce op → canceled i) :
    Moves canceled s.ledger (s.cancel i).ledger := by
  have hfirst : Moves canceled s.ledger (s.terminate i .canceled).ledger :=
    terminate_moves s i rfl fun t op hi hlistener => by simp [hcanceled t op hi hlistener]
  unfold cancel
  dsimp only
  split
  · rename_i nested hnested
    obtain ⟨u, hi, hu⟩ := Option.bind_eq_some_iff.mp hnested
    obtain ⟨-, t', op, hn, -, hannounced⟩ := hlinked.moves hfirst i u hi nested hu
    refine hfirst.trans (terminate_moves _ nested rfl fun t'' op' hn' hannounce => ?_)
    obtain rfl : t' = t'' := Option.some_injective _ (hn.symm.trans hn')
    simp [hannounced] at hannounce
  · exact hfirst

/-- A task that is alive has no nested task. -/
theorem cancel_eq_terminate (hlinked : s.ledger.Linked) (hi : s.tasks[i]? = some t)
    (ht : t.state.isTerminal = false) :
    s.cancel i = s.terminate i .canceled := by
  let canceled : Nat → Prop := fun _ => True
  have hmoves : Moves canceled s.ledger (s.terminate i .canceled).ledger :=
    terminate_moves s i rfl fun _ _ _ _ => by simp [canceled]
  obtain ⟨t', hi', ht'⟩ := s.terminate_state hi ht (rfl : TaskState.canceled.isTerminal = true)
  unfold cancel
  dsimp only
  split
  · rename_i nested hnested
    have hn : t'.nested = some nested := by simpa [hi'] using hnested
    obtain ⟨hfinished, -⟩ := hlinked.moves hmoves i t' hi' nested hn
    rw [ht'] at hfinished
    cases hfinished
  · rfl

@[simp] theorem ledger_removeTask (s : Tasks) (i : Nat) : (s.removeTask i).ledger = s.ledger := rfl

@[simp] theorem ledger_removeIfFinished (s : Tasks) (i : Nat) :
    (s.removeIfFinished i).ledger = s.ledger := by
  unfold removeIfFinished
  split_ifs <;> rfl

theorem start_moves (s : Tasks) (i : Nat) (done : Bool) (hcanceled : ¬ canceled i) :
    Moves canceled s.ledger (s.start i done).ledger := by
  have hrun (hstate : (s.stateOf i).isTerminal = false) :
      Moves canceled s.ledger (s.modifyTask i fun t =>
        { t with state := .running, started := true }).ledger := by
    cases hi : s.tasks[i]? with
    | none =>
      rw [modifyTask_eq_self hi]
      exact .refl _
    | some t =>
      rw [modifyTask_eq hi]
      rw [stateOf_eq hi] at hstate
      exact .single (.alive i t _ hi hstate rfl rfl rfl nofun)
  unfold start
  split
  · rename_i hstate
    have halive : (s.stateOf i).isTerminal = false := by
      obtain h | h : s.stateOf i = .initial ∨ s.stateOf i = .queued := by simpa using hstate
      · rw [h]; rfl
      · rw [h]; rfl
    dsimp only
    rw [ledger_removeIfFinished]
    split
    · exact (hrun halive).trans (finish_moves _ i hcanceled)
    · exact hrun halive
  · exact .refl _

theorem dequeueLoop_moves (done : Nat → Bool) (n : Nat) (s : Tasks)
    (hcanceled : ∀ i, ¬ canceled i) :
    Moves canceled s.ledger (dequeueLoop done n s).ledger := by
  induction n generalizing s with
  | zero => exact .refl _
  | succ n ih =>
    rw [dequeueLoop]
    split
    · exact .refl _
    split
    · exact .refl _
    · rename_i i queued hqueued
      dsimp only
      split_ifs
      · exact ih { s with queued := queued }
      · have hstart :
            Moves canceled s.ledger (({ s with queued := queued }.emplace i).start i
            (done i)).ledger :=
          start_moves ({ s with queued := queued }.emplace i) i (done i) (hcanceled i)
        exact hstart.trans (ih _)

theorem foldl_cancel_moves (is : List Nat) (s : Tasks) (hlinked : s.ledger.Linked)
    (hcanceled : ∀ i ∈ is, canceled i) :
    Moves canceled s.ledger (is.foldl cancel s).ledger := by
  induction is generalizing s with
  | nil => exact .refl _
  | cons i is ih =>
    obtain ⟨hi, his⟩ := List.forall_mem_cons.mp hcanceled
    have hcancel : Moves canceled s.ledger (s.cancel i).ledger :=
      cancel_moves hlinked fun _ _ _ _ => hi
    exact hcancel.trans (ih _ (hlinked.moves hcancel) his)

/-- The lookups that an event cancels. -/
def cancels (s : Tasks) : Event → Nat → Prop
  | .cancel j, i => i = j
  | .cancelAll, i => i ∈ s.running ∨ i ∈ s.queued
  | .stop, i => s.isRunning = true ∧ (i ∈ s.running ∨ i ∈ s.queued)
  | _, _ => False

/-- The lists of the manager, and its lock. -/
structure Lists where
  queued : List Nat
  running : List Nat
  peak : Nat
  canceling : Bool
  locked : Bool
  stuck : Bool

def lists (s : Tasks) : Lists := ⟨s.queued, s.running, s.peak, s.canceling, s.locked, s.stuck⟩

theorem add_of_canceling (hcanceling : s.canceling = true) (i : Nat) (prior : Bool) :
    s.add i prior = s :=
  if_pos hcanceling

theorem fillLoop_lists (fill n : Nat) (s : Tasks) (hcanceling : s.canceling = true) :
    (fillLoop fill n s).lists = s.lists := by
  induction n generalizing s with
  | zero => rfl
  | succ n ih =>
    rw [fillLoop]
    split_ifs with hstuck
    · rfl
    · rw [spawn, add_of_canceling (by exact hcanceling), ih _ (by exact hcanceling)]
      rfl

theorem fillBuckets_lists (hcanceling : s.canceling = true) : s.fillBuckets.lists = s.lists := by
  unfold fillBuckets
  split_ifs with hunfilled
  · rfl
  · rw [fillLoop_lists _ _ _ (by exact hcanceling)]
    rfl

/-- While the manager cancels, the listeners add no task. -/
theorem listen_lists (hcanceling : s.canceling = true) (i : Nat) (t : Task) :
    (s.listen i t).lists = s.lists := by
  unfold listen
  split
  · rfl
  · split_ifs
    · rfl
    · rfl
    · rw [announce, add_of_canceling (by exact hcanceling)]
      rfl
  · rfl
  · dsimp only
    split_ifs
    · rfl
    · rw [fillBuckets_lists (by exact hcanceling)]
      rfl
    · rfl
  · rfl
  · rfl

theorem terminate_lists (hcanceling : s.canceling = true) (i : Nat) (state : TaskState) :
    (s.terminate i state).lists = s.lists := by
  unfold terminate notify
  split_ifs
  · rfl
  · split
    · rw [listen_lists (by exact hcanceling)]
      rfl
    · rfl

theorem cancel_lists (hcanceling : s.canceling = true) (i : Nat) :
    (s.cancel i).lists = s.lists := by
  have hfirst := terminate_lists hcanceling i .canceled
  unfold cancel
  dsimp only
  split
  · rw [terminate_lists ((congrArg Lists.canceling hfirst).trans hcanceling), hfirst]
  · exact hfirst

theorem foldl_cancel_lists (is : List Nat) (s : Tasks) (hcanceling : s.canceling = true) :
    (is.foldl cancel s).lists = s.lists := by
  induction is generalizing s with
  | nil => rfl
  | cons i is ih =>
    have hcancel := cancel_lists hcanceling i
    rw [List.foldl_cons, ih _ ((congrArg Lists.canceling hcancel).trans hcanceling), hcancel]

/-- `cancelAll` cancels what is in the lists. -/
theorem cancelAll_eq (s : Tasks) :
    s.cancelAll =
      { (s.running ++ s.queued).foldl cancel { s with locked := true, canceling := true } with
        locked := s.stuck
        canceling := false } := by
  have hrunning := foldl_cancel_lists s.running { s with locked := true, canceling := true } rfl
  have hqueued :=
    foldl_cancel_lists s.queued (s.running.foldl cancel
      { s with locked := true, canceling := true })
    (congrArg Lists.canceling hrunning)
  have hlist :
      (s.running.foldl cancel { s with locked := true, canceling := true }).queued = s.queued :=
    congrArg Lists.queued hrunning
  have hstuck := congrArg Lists.stuck (hqueued.trans hrunning)
  unfold cancelAll
  dsimp only [lists] at hstuck ⊢
  rw [hlist, List.foldl_append, hstuck]

theorem cancelAll_moves (hlinked : s.ledger.Linked)
    (hcanceled : ∀ i, i ∈ s.running ∨ i ∈ s.queued → canceled i) :
    Moves canceled s.ledger s.cancelAll.ledger := by
  rw [cancelAll_eq]
  exact foldl_cancel_moves (s.running ++ s.queued)
    { s with locked := true, canceling := true } hlinked
    fun i hi => hcanceled i (List.mem_append.mp hi)

/-- The closest set of a task that runs changes. -/
theorem setClosest_moves (hi : s.tasks[i]? = some t) (hstarted : t.started = true)
    (ht : t.state.isTerminal = false)
    (closest : Nat) :
    Moves canceled s.ledger (s.modifyTask i fun t => { t with closest := closest }).ledger := by
  rw [modifyTask_eq hi]
  exact .single (.alive i t _ hi ht ht rfl rfl fun h => by simp [hstarted] at h)

theorem update_moves (i : Nat) (outcome : Outcome) (closest : Nat) (hlinked : s.ledger.Linked)
    (hcanceled : ∀ i, ¬ canceled i) :
    Moves canceled s.ledger (s.update i outcome closest).ledger := by
  unfold update
  split
  · exact .refl _
  rename_i t hi
  split
  · exact .refl _
  rename_i hstarted
  dsimp only
  rw [ledger_removeIfFinished]
  split
  · exact .refl _
  rename_i ht
  have hlt : i < s.tasks.length := (List.getElem?_eq_some_iff.mp hi).1
  have hclosest :
      Moves canceled s.ledger (s.modifyTask i fun t => { t with closest := closest }).ledger :=
    setClosest_moves hi (by simpa using hstarted) (by simpa using ht) closest
  split
  · exact hclosest
  · exact hclosest.trans (finish_moves _ i (hcanceled i))
  · split
    · rename_i hcancels
      refine hclosest.trans (cancel_moves (hlinked.moves hclosest) fun u op hu hannounce => ?_)
      rw [modifyTask_eq hi, List.getElem?_set_self hlt] at hu
      cases hu
      dsimp only at hannounce
      rw [hannounce] at hcancels
      cases hcancels
    · exact hclosest

theorem updateBootstrap_moves (s : Tasks) (now : UInt64) :
    Moves canceled s.ledger (s.updateBootstrap now).ledger := by
  unfold updateBootstrap
  split_ifs with hwait hbns hbootstrapping
  · exact .refl _
  · exact .refl _
  · exact .refl _
  · exact .single (.round s.bns s.bootstrapNodes (Bool.eq_false_of_not_eq_true hbootstrapping)
      hbns fun h => if_pos h)

theorem bootstrapCall_moves (s : Tasks) (j found : Nat) (now : UInt64) :
    Moves canceled s.ledger (s.bootstrapCall j found now).ledger := by
  unfold bootstrapCall
  split
  · exact .refl _
  rename_i r hj
  split
  · exact .refl _
  rename_i hpending
  dsimp only
  split
  · rename_i hcount
    unfold fillHomeBucket
    split
    · exact .single (.lastEmpty j found r hj hpending hcount)
    · have hlt : j < s.rounds.length := (List.getElem?_eq_some_iff.mp hj).1
      have hmodify (r' : Round) (f : Round → Round) : (s.rounds.set j r').modify j f =
          s.rounds.set j (f r') := by
        rw [List.modify_eq_set_getElem?, List.getElem?_set_self hlt]
        simp
      dsimp only [spawn, newTask]
      rw [hmodify]
      have hnew : Moves canceled s.ledger
          { s with
            lastBootstrap := now
            rounds :=
              s.rounds.set j { r.ended found with
                filled := r.filled + 1, task := some s.tasks.length }
            tasks := s.tasks ++ [({ listener := .homeBucket } : Task)] }.ledger :=
        .single (.last j found r hj hpending hcount)
      exact hnew.trans (add_moves _ _ _)
  · rename_i hcount
    exact .single (.call j found r hj hpending hcount)

/-- An event is a sequence of moves, and it cancels what it says. -/
theorem step_moves (s : Tasks) (e : Event) (hlinked : s.ledger.Linked) :
    Moves (s.cancels e) s.ledger (s.step e).ledger := by
  unfold step
  split
  · exact .refl _
  cases e with
  | find => exact s.spawn_op_moves rfl nofun
  | store => exact s.spawn_op_moves rfl fun _ _ _ => id
  | refresh =>
    have hnew : Moves (s.cancels .refresh) s.ledger (s.newTask .refresh).ledger := .single .refresh
    exact hnew.trans (add_moves _ _ _)
  | add i prior =>
    dsimp only [react]
    split
    · exact add_moves s i prior
    · exact .refl _
  | dequeue done =>
    exact dequeueLoop_moves done s.queued.length { s with locked := true } fun _ => id
  | update i outcome closest => exact update_moves i outcome closest hlinked fun _ => id
  | cancel i => exact cancel_moves hlinked fun _ _ _ _ => rfl
  | cancelAll => exact cancelAll_moves hlinked fun _ => id
  | stop =>
    dsimp only [react, stop]
    split
    · rename_i hrunning
      exact cancelAll_moves (s := { s with isRunning := false }) hlinked fun _ hi => ⟨hrunning, hi⟩
    · exact .refl _
  | updateBootstrap now => exact updateBootstrap_moves s now
  | bootstrapCall j found now => exact bootstrapCall_moves s j found now
  | table buckets => exact .refl _
  | bootstrap added =>
    dsimp only [react]
    split <;> exact .refl _

/-- Every state that is reached is linked. -/
theorem run_linked (n : Nat) (events : List Event) : ((init n).run events).ledger.Linked := by
  induction events using List.reverseRecOn with
  | nil => intro i t hi; simp [init, ledger] at hi
  | append_singleton events e ih =>
    rw [run_concat]
    exact ih.moves (step_moves _ e ih)

end Tasks

end Boson
