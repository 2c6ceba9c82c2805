import Boson.Lib.Runs
import Mathlib.Data.Bool.Basic

/-!
# Starting and stopping a node (`Node::start`, `Node::stop`)

A node can be started again after it was stopped. `start` counts the DHTs that it starts in
`numDHTs`, which no function sets back, and both functions stop where something that they call
throws: the status is then the one that was set last.

* `counted_iff`: `numDHTs` is the number of DHTs whenever the node is running, exactly if no start
  after the first one counts a DHT, and no exception comes between the status, the DHTs and their
  number.
-/

namespace Boson

/-- `NodeStatus`. -/
inductive NodeStatus where
  | stopped
  | initializing
  | running
  deriving DecidableEq

/-- The addresses of a `Configuration`. The constructor of a node refuses a configuration without
any. -/
structure Listening where
  ipv4Address : Bool
  ipv6Address : Bool
  some_address : ipv4Address = true ∨ ipv6Address = true

/-- The steps of `Node::start` that may throw or that matter to the state, in this order. -/
inductive StartStep where
  | makeDHT4
  | makeDHT6
  | setRunning
  | makeServer
  | openStorage
  | startServer
  | startDHT4
  | startDHT6
  | addJob
  deriving DecidableEq

/-- The steps of `Node::stop`. What closing the storage throws is caught. -/
inductive StopStep where
  | cancelJobs
  | stopServer
  | stopDHT4
  | stopDHT6
  | setStopped
  deriving DecidableEq

/-- The part of `Node` that `start` and `stop` are about: `dht4 != nullptr`, `dht6 != nullptr` and
the number of DHTs. -/
structure NodeLife where
  config : Listening
  status : NodeStatus := .stopped
  dht4 : Bool := false
  dht6 : Bool := false
  numDHTs : Nat := 0

/-- A call of `start` or `stop`, and the step that it does not get past. -/
inductive LifeEvent where
  | start (throws : Option StartStep)
  | stop (throws : Option StopStep)

namespace StartStep

/-- What `start` does until it throws. -/
def before (throws : Option StartStep) : List StartStep :=
  [makeDHT4, makeDHT6, setRunning, makeServer, openStorage, startServer, startDHT4, startDHT6,
    addJob].takeWhile
    (throws ≠ some ·)

end StartStep

namespace StopStep

/-- What `stop` does until it throws. -/
def before (throws : Option StopStep) : List StopStep :=
  [cancelJobs, stopServer, stopDHT4, stopDHT6, setStopped].takeWhile (throws ≠ some ·)

end StopStep

namespace NodeLife

/-- `Node::setStatus`. -/
def setStatus (self : NodeLife) (expected newStatus : NodeStatus) : NodeLife :=
  if self.status ≠ expected then self else { self with status := newStatus }

def performStart (self : NodeLife) : StartStep → NodeLife
  | .makeDHT4 => if self.config.ipv4Address then { self with dht4 := true } else self
  | .makeDHT6 => if self.config.ipv6Address then { self with dht6 := true } else self
  | .setRunning => self.setStatus .initializing .running
  | .startDHT4 => if self.dht4 then { self with numDHTs := self.numDHTs + 1 } else self
  | .startDHT6 => if self.dht6 then { self with numDHTs := self.numDHTs + 1 } else self
  | .makeServer | .openStorage | .startServer | .addJob => self

/-- `Node::start`. -/
def start (self : NodeLife) (throws : Option StartStep) : NodeLife :=
  if self.status ≠ .stopped then self
  else (StartStep.before throws).foldl performStart (self.setStatus .stopped .initializing)

def performStop (self : NodeLife) : StopStep → NodeLife
  | .stopDHT4 => { self with dht4 := false }
  | .stopDHT6 => { self with dht6 := false }
  | .setStopped => self.setStatus .running .stopped
  | .cancelJobs | .stopServer => self

/-- `Node::stop`. -/
def stop (self : NodeLife) (throws : Option StopStep) : NodeLife :=
  if self.status = .stopped then self else (StopStep.before throws).foldl performStop self

def step (self : NodeLife) : LifeEvent → NodeLife
  | .start throws => self.start throws
  | .stop throws => self.stop throws

/-- A node after calls of `start` and `stop`. -/
def run (config : Listening) (events : List LifeEvent) : NodeLife :=
  events.foldl step { config := config }

theorem run_concat (config : Listening) (events : List LifeEvent) (e : LifeEvent) :
    run config (events ++ [e]) = (run config events).step e := by
  rw [run, List.foldl_append]
  rfl

/-- The number of DHTs that exist. -/
def count (self : NodeLife) : Nat := self.dht4.toNat + self.dht6.toNat

/-- The test of the completion handlers of the five operations, `*completion >= numDHTs`. -/
def allCompleted (self : NodeLife) (completion : Nat) : Bool := completion ≥ self.numDHTs

/-- The number of DHTs is right, and the completion handlers wait for just these. -/
structure Counted (s : NodeLife) : Prop where
  numDHTs : s.numDHTs = s.count
  allCompleted : ∀ completion ≤ s.count, s.allCompleted completion = true ↔ completion = s.count

theorem counted_of_eq {self : NodeLife} (h : self.numDHTs = self.count) : self.Counted where
  numDHTs := h
  allCompleted completion hle := by
    rw [NodeLife.allCompleted, decide_eq_true_iff, h]
    omega

/-- `start` of a stopped node counts each of the DHTs that it makes, if it was not started before,
and no DHT otherwise; it may also throw before the node is running. `stop` of a running node that
throws has not removed a DHT yet. -/
def Counts (self : NodeLife) : LifeEvent → Prop
  | .start throws => self.status = .stopped → .setRunning ∈ StartStep.before throws →
    if self.numDHTs = 0 then
      (self.config.ipv4Address = true → .startDHT4 ∈ StartStep.before throws) ∧
        (self.config.ipv6Address = true → .startDHT6 ∈ StartStep.before throws)
    else
      (self.config.ipv4Address = true → .startDHT4 ∉ StartStep.before throws) ∧
        (self.config.ipv6Address = true → .startDHT6 ∉ StartStep.before throws)
  | .stop throws => self.status = .running → .setStopped ∉ StopStep.before throws →
    (self.dht4 = true → .stopDHT4 ∉ StopStep.before throws) ∧
      (self.dht6 = true → .stopDHT6 ∉ StopStep.before throws)

/-! ## One call -/

variable {self : NodeLife}

theorem start_eq_self (h : self.status ≠ .stopped) (throws : Option StartStep) :
    self.start throws = self :=
  if_pos h

theorem stop_eq_self (h : self.status = .stopped) (throws : Option StopStep) :
    self.stop throws = self :=
  if_pos h

/-- The number of DHTs that `start` counts. -/
def started (self : NodeLife) (throws : Option StartStep) : Nat :=
  (self.config.ipv4Address && .startDHT4 ∈ StartStep.before throws).toNat +
    (self.config.ipv6Address && .startDHT6 ∈ StartStep.before throws).toNat

/-- `start` of a stopped node, in terms of the steps that it makes. -/
theorem start_of_stopped (h : self.status = .stopped) (h4 : self.dht4 = false)
    (h6 : self.dht6 = false) (throws : Option StartStep) :
    self.start throws =
      { self with
        status := if .setRunning ∈ StartStep.before throws then .running else .initializing
        dht4 := self.config.ipv4Address && .makeDHT4 ∈ StartStep.before throws
        dht6 := self.config.ipv6Address && .makeDHT6 ∈ StartStep.before throws
        numDHTs := self.numDHTs + self.started throws } := by
  obtain ⟨⟨b4, b6, hany⟩, status, dht4, dht6, n⟩ := self
  subst h h4 h6
  rcases throws with _ | (_ | _ | _ | _ | _ | _ | _ | _ | _) <;> cases b4 <;> cases b6 <;> rfl

theorem stop_of_running (h : self.status = .running) (throws : Option StopStep) :
    self.stop throws =
      { self with
        status := if .setStopped ∈ StopStep.before throws then .stopped else .running
        dht4 := self.dht4 && .stopDHT4 ∉ StopStep.before throws
        dht6 := self.dht6 && .stopDHT6 ∉ StopStep.before throws } := by
  obtain ⟨config, status, dht4, dht6, n⟩ := self
  subst h
  rcases throws with _ | (_ | _ | _ | _ | _) <;> cases dht4 <;> cases dht6 <;> rfl

theorem stop_of_initializing (h : self.status = .initializing) (throws : Option StopStep) :
    (self.stop throws).status = .initializing := by
  obtain ⟨config, status, dht4, dht6, n⟩ := self
  subst h
  rcases throws with _ | (_ | _ | _ | _ | _) <;> rfl

/-- The DHTs are made before the node is running. -/
theorem made_of_setRunning {throws : Option StartStep} (h : .setRunning ∈ StartStep.before throws) :
    .makeDHT4 ∈ StartStep.before throws ∧ .makeDHT6 ∈ StartStep.before throws := by
  revert h
  rcases throws with _ | (_ | _ | _ | _ | _ | _ | _ | _ | _) <;> decide

/-- The DHTs are gone before the node is stopped. -/
theorem gone_of_setStopped {throws : Option StopStep} (h : .setStopped ∈ StopStep.before throws) :
    .stopDHT4 ∈ StopStep.before throws ∧ .stopDHT6 ∈ StopStep.before throws := by
  revert h
  rcases throws with _ | (_ | _ | _ | _ | _) <;> decide

/-! ## Any number of calls -/

/-- What holds as long as the number of DHTs is right. -/
structure Sound (s : NodeLife) : Prop where
  running : s.status = .running →
    s.dht4 = s.config.ipv4Address ∧ s.dht6 = s.config.ipv6Address ∧ s.numDHTs = s.count
  stopped : s.status = .stopped → s.dht4 = false ∧ s.dht6 = false ∧
    (s.numDHTs = 0 ∨ s.numDHTs = s.config.ipv4Address.toNat + s.config.ipv6Address.toNat)

theorem sound_new (config : Listening) : Sound { config := config } where
  running h := by cases h
  stopped _ := ⟨rfl, rfl, .inl rfl⟩

/-- A start that brings the node up leaves the right number just if it counts the DHTs, or has
nothing to count. -/
theorem Sound.started_eq_iff (h : self.Sound) (hstopped : self.status = .stopped)
    (throws : Option StartStep) :
    self.numDHTs + self.started throws = self.config.ipv4Address.toNat +
      self.config.ipv6Address.toNat ↔
      if self.numDHTs = 0 then
        (self.config.ipv4Address = true → .startDHT4 ∈ StartStep.before throws) ∧
          (self.config.ipv6Address = true → .startDHT6 ∈ StartStep.before throws)
      else
        (self.config.ipv4Address = true → .startDHT4 ∉ StartStep.before throws) ∧
          (self.config.ipv6Address = true → .startDHT6 ∉ StartStep.before throws) := by
  obtain ⟨-, -, hnum⟩ := h.stopped hstopped
  have hany := self.config.some_address
  unfold started
  generalize (self.config.ipv4Address) = b4 at *
  generalize (self.config.ipv6Address) = b6 at *
  by_cases h4 : StartStep.startDHT4 ∈ StartStep.before throws <;>
    by_cases h6 : StartStep.startDHT6 ∈ StartStep.before throws <;>
    cases b4 <;> cases b6 <;> obtain hnum | hnum := hnum <;> simp_all

/-- A stop that throws leaves the right number just if the DHTs are still there. -/
theorem Sound.count_stop_iff (h : self.Sound) (hrunning : self.status = .running)
    (throws : Option StopStep) :
    self.numDHTs = (self.stop throws).count ↔
      (self.dht4 = true → .stopDHT4 ∉ StopStep.before throws) ∧
        (self.dht6 = true → .stopDHT6 ∉ StopStep.before throws) := by
  obtain ⟨-, -, hnum⟩ := h.running hrunning
  rw [hnum, stop_of_running hrunning]
  unfold count
  dsimp only
  by_cases h4 : StopStep.stopDHT4 ∈ StopStep.before throws <;>
    by_cases h6 : StopStep.stopDHT6 ∈ StopStep.before throws <;>
    cases self.dht4 <;> cases self.dht6 <;> simp [h4, h6]

/-- The number of DHTs is right after a call, if the node is running then. -/
def CountedAfter (self : NodeLife) (e : LifeEvent) : Prop :=
  (self.step e).status = .running → (self.step e).Counted

theorem counted_iff_eq : self.Counted ↔ self.numDHTs = self.count :=
  ⟨Counted.numDHTs, counted_of_eq⟩

theorem Sound.counts_start_iff (h : self.Sound) (throws : Option StartStep) :
    self.Counts (.start throws) ↔ self.CountedAfter (.start throws) := by
  unfold CountedAfter Counts step
  dsimp only
  by_cases hstopped : self.status = .stopped
  · obtain ⟨h4, h6, -⟩ := h.stopped hstopped
    rw [start_of_stopped hstopped h4 h6, counted_iff_eq]
    by_cases hup : StartStep.setRunning ∈ StartStep.before throws
    · obtain ⟨hmade4, hmade6⟩ := made_of_setRunning hup
      simp only [hstopped, hup, hmade4, hmade6, count, decide_true, Bool.and_true, if_true,
        forall_const]
      exact (h.started_eq_iff hstopped throws).symm
    · simp [hup]
  · rw [start_eq_self hstopped, counted_iff_eq]
    exact ⟨fun _ hrunning => (h.running hrunning).2.2, fun _ habs => absurd habs hstopped⟩

theorem Sound.counts_stop_iff (h : self.Sound) (throws : Option StopStep) :
    self.Counts (.stop throws) ↔ self.CountedAfter (.stop throws) := by
  unfold CountedAfter Counts step
  dsimp only
  cases hstatus : self.status with
  | stopped => simp [stop_eq_self hstatus, hstatus]
  | initializing => simp [stop_of_initializing hstatus]
  | running =>
    have hnum : (self.stop throws).numDHTs = self.numDHTs := by rw [stop_of_running hstatus]
    have hafter : (self.stop throws).status = .running ↔ .setStopped ∉ StopStep.before throws := by
      rw [stop_of_running hstatus]
      split_ifs with hdone <;> simp [hdone]
    rw [hafter, counted_iff_eq, hnum, h.count_stop_iff hstatus]
    simp

theorem Sound.start (h : self.Sound) {throws : Option StartStep}
    (he : self.CountedAfter (.start throws)) :
    (self.start throws).Sound := by
  by_cases hstopped : self.status = .stopped
  · obtain ⟨h4, h6, -⟩ := h.stopped hstopped
    unfold CountedAfter at he
    rw [NodeLife.step, counted_iff_eq] at he
    refine ⟨fun hrunning => ?_, fun habs => ?_⟩
    · have hnum := he hrunning
      rw [start_of_stopped hstopped h4 h6] at hrunning hnum ⊢
      have hup : StartStep.setRunning ∈ StartStep.before throws := by
        by_contra hup
        simp [hup] at hrunning
      obtain ⟨hmade4, hmade6⟩ := made_of_setRunning hup
      exact ⟨by simp [hmade4], by simp [hmade6], hnum⟩
    · rw [start_of_stopped hstopped h4 h6] at habs
      dsimp only at habs
      split_ifs at habs
  · rw [start_eq_self hstopped]
    exact h

theorem Sound.stop (h : self.Sound) {throws : Option StopStep}
    (he : self.CountedAfter (.stop throws)) :
    (self.stop throws).Sound := by
  cases hstatus : self.status with
  | stopped =>
    rw [stop_eq_self hstatus]
    exact h
  | initializing =>
    have hafter := stop_of_initializing hstatus throws
    exact ⟨fun habs => by simp [hafter] at habs, fun habs => by simp [hafter] at habs⟩
  | running =>
    obtain ⟨h4, h6, hnum⟩ := h.running hstatus
    refine ⟨fun hrunning => ?_, fun hstopped => ?_⟩
    · have hcount := (he hrunning).numDHTs
      have hsame : (self.stop throws).numDHTs = self.numDHTs := by rw [stop_of_running hstatus]
      obtain ⟨hkeep4, hkeep6⟩ := (h.count_stop_iff hstatus throws).mp (hsame.symm.trans hcount)
      refine ⟨?_, ?_, hcount⟩
      · rw [stop_of_running hstatus, ← h4]
        cases hd : self.dht4 <;> simp_all
      · rw [stop_of_running hstatus, ← h6]
        cases hd : self.dht6 <;> simp_all
    · rw [stop_of_running hstatus] at hstopped ⊢
      have hdone : StopStep.setStopped ∈ StopStep.before throws := by
        by_contra hdone
        simp [hdone] at hstopped
      obtain ⟨hgone4, hgone6⟩ := gone_of_setStopped hdone
      exact ⟨by simp [hgone4], by simp [hgone6], .inr (by rw [hnum, count, h4, h6])⟩

theorem Sound.step (h : self.Sound) {e : LifeEvent} (he : self.CountedAfter e) :
    (self.step e).Sound := by
  cases e with
  | start throws => exact h.start he
  | stop throws => exact h.stop he

theorem Sound.counts_iff (h : self.Sound) (e : LifeEvent) : self.Counts e ↔
    self.CountedAfter e := by
  cases e with
  | start throws => exact h.counts_start_iff throws
  | stop throws => exact h.counts_stop_iff throws

/-- The number of DHTs is right in every state in which the node is running, exactly if each call
counts. -/
theorem counted_iff (config : Listening) (events : List LifeEvent) :
    (∀ pre, pre <+: events → (run config pre).status = .running → (run config pre).Counted) ↔
      Runs.Every (fun pre e => (run config pre).Counts e) events := by
  rw [Runs.forall_initial_iff (Q := fun pre => (run config pre).status = .running →
    (run config pre).Counted)
    (fun h => by cases h)]
  refine (Runs.every_iff_of_inv (I := fun pre => (run config pre).Sound)
    (sound_new config) ?_ ?_ events).symm
  · intro pre e hsound hcounts
    rw [run_concat]
    exact hsound.step ((hsound.counts_iff e).mp hcounts)
  · intro pre e hsound
    rw [run_concat]
    exact hsound.counts_iff e

/-- A node with one address is stopped and started again: it waits for two DHTs. -/
theorem restarted_not_counted :
    ¬ ∀ (config : Listening) (events : List LifeEvent),
      (run config events).status = .running → (run config events).Counted := by
  intro h
  have hcounted := h ⟨true, false, .inl rfl⟩ [.start none, .stop none, .start none] (by decide)
  exact absurd hcounted.numDHTs (by decide)

end NodeLife

end Boson
