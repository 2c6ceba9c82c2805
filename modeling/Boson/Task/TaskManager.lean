import Boson.RoutingTable
import Boson.Task.LookupTask

/-!
# The task manager (`src/core/task/task_manager.*`, `task.*`, `dht.cc`)

The tasks of a DHT, from `add` to the end of each, with the completion listeners that the DHT and
its routing table register. A task is named by its index in `tasks`, the list of all `Task` objects.

A task is run by the callbacks of its calls (`update`); how far it gets is not decided here. What
the listeners do matters: they complete an operation of the DHT (`findNode` and so on, named by a
number), start the announcement that follows a lookup, or fill the buckets after the bootstrap, and
for that they call `add`. `dequeue` and `cancelAll` hold `taskman_mtx` while they start or cancel
tasks, and it is not recursive: a thread that calls `add` then waits for itself. It is `stuck`, and
nothing happens after that. `add` looks at `canceling` before it takes the lock.

Of the routing table only the sizes of the buckets are read. A bootstrap round is a set of
`FIND_NODE` calls, each of which ends once; it is over when as many of them have ended as there were
bootstrap nodes.
-/

namespace Boson

/-- `Constants::MAX_ACTIVE_TASKS`. -/
def MAX_ACTIVE_TASKS : Nat := 16
/-- `Constants::BOOTSTRAP_MIN_INTERVAL`, in milliseconds. -/
def BOOTSTRAP_MIN_INTERVAL : Nat := 4 * 60 * 1000

/-- What the completion listener of a task does. The operations are numbered. -/
inductive Listener where
  /-- `completeHandler` of `findNode`, `findValue` or `findPeer`. -/
  | complete (op : Nat)
  /-- The lookup of `storeValue` or `announcePeer`: the announcement follows. -/
  | announce (op : Nat)
  /-- The announcement: `completeHandler` of the operation. -/
  | announced (op : Nat)
  /-- `DHT::fillHomeBucket`. -/
  | homeBucket
  /-- A `findNode` of `RoutingTable::fillBuckets`. -/
  | bucket (op fill : Nat)
  /-- A bucket refresh or a random lookup; its listener does nothing here. -/
  | refresh
  deriving DecidableEq

/-- The listener belongs to a lookup whose result handler may cancel it. -/
def Listener.cancels : Listener → Bool
  | .complete _ => true
  | _ => false

/-- `Task`. `closest` is the size of the closest set of a lookup, and `started` tells if `start` has
run it. -/
structure Task where
  listener : Listener
  state : TaskState := .initial
  nested : Option Nat := none
  closest : Nat := 0
  started : Bool := false
  deriving DecidableEq

/-- The counter of `RoutingTable::fillBuckets`. -/
structure Fill where
  total : Nat
  completion : Nat := 0
  deriving DecidableEq

/-- A round of `DHT::updateBootstrap`: its calls that have not ended, and what their handlers
capture. `calls` and `filled` are not in the source: how many calls there were, and how often
`fillHomeBucket` was called. -/
structure Round where
  calls : Nat
  pending : Nat
  len : Nat
  count : Nat := 0
  nodes : Nat := 0
  filled : Nat := 0
  task : Option Nat := none
  deriving DecidableEq

/-- A call of the round has ended, with this number of nodes in its response. -/
def Round.ended (r : Round) (found : Nat) : Round :=
  { r with pending := r.pending - 1, nodes := r.nodes + found, count := r.count + 1 }

/-- The `TaskManager` of a DHT, and what the listeners of its tasks read and write. -/
structure Tasks where
  tasks : List Task := []
  queued : List Nat := []
  running : List Nat := []
  /-- The largest size that `running` has had, also inside a step. Not in the source. -/
  peak : Nat := 0
  canceling : Bool := false
  /-- `taskman_mtx` is held. -/
  locked : Bool := false
  /-- The thread that holds the lock waits for it. -/
  stuck : Bool := false
  /-- `DHT::isRunning`. -/
  isRunning : Bool := true
  /-- The sizes of the buckets of the routing table. -/
  buckets : List Nat := [0]
  bootstrapNodes : Nat := 0
  bootstrapping : Bool := false
  lastBootstrap : UInt64 := 0
  rounds : List Round := []
  fills : List Fill := []
  /-- The number of operations. -/
  ops : Nat := 0
  /-- The operations whose `completeHandler` was called, in that order. -/
  completed : List Nat := []
  deriving DecidableEq

namespace Tasks

variable (self : Tasks)

/-- The state of a task. -/
def stateOf (i : Nat) : TaskState := (self.tasks[i]?.map (·.state)).getD .initial

/-- A task, changed. -/
def modifyTask (i : Nat) (f : Task → Task) : Tasks := { self with tasks := self.tasks.modify i f }

/-- `std::make_shared<...Lookup>` and `addListener`. -/
def newTask (listener : Listener) : Tasks :=
  { self with tasks := self.tasks ++ [{ listener := listener }] }

/-- `completeHandler` of an operation. -/
def complete (op : Nat) : Tasks := { self with completed := self.completed ++ [op] }

/-- `routingTable.getNumBucketEntries()`. -/
def numBucketEntries : Nat := self.buckets.sum

/-- The buckets that `RoutingTable::fillBuckets` fills. -/
def unfilled : Nat := self.buckets.countP (· < MAX_ENTRIES_PER_BUCKET)

/-- `TaskManager::canStartTask`. -/
def canStartTask : Bool := !self.canceling && self.running.length ≤ MAX_ACTIVE_TASKS

/-- `running.emplace_back`. -/
def emplace (i : Nat) : Tasks :=
  { self with running := self.running ++ [i], peak := max self.peak (self.running.length + 1) }

/-- `queued.emplace_front` or `queued.emplace_back`. -/
def enqueue (i : Nat) (prior : Bool) : Tasks :=
  { self with queued := if prior then i :: self.queued else self.queued ++ [i] }

/-- `TaskManager::add`. -/
def add (i : Nat) (prior : Bool) : Tasks :=
  if self.canceling then self
  else if self.locked then { self with stuck := true }
  else
    match self.stateOf i with
    | .running => self.emplace i
    | .initial => (self.modifyTask i fun t => { t with state := .queued }).enqueue i prior
    | _ => self

/-- A new task is given to the manager. -/
def spawn (listener : Listener) : Tasks := (self.newTask listener).add self.tasks.length false

/-- `TaskManager::removeTask`. -/
def removeTask (i : Nat) : Tasks :=
  { self with running := self.running.filter (· ≠ i), queued := self.queued.filter (· ≠ i) }

/-- The loop of `RoutingTable::fillBuckets`: a lookup for each bucket. -/
def fillLoop (fill : Nat) : Nat → Tasks → Tasks
  | 0, self => self
  | n + 1, self =>
    if self.stuck then self
    else fillLoop fill n ({ self with ops := self.ops + 1 }.spawn (.bucket self.ops fill))

/-- `RoutingTable::fillBuckets`. -/
def fillBuckets : Tasks :=
  if self.unfilled = 0 then self
  else fillLoop self.fills.length self.unfilled { self with fills := self.fills ++
    [{ total := self.unfilled }] }

/-- The announcement that follows the lookup `i`. -/
def announce (i op : Nat) : Tasks :=
  let announce := self.tasks.length
  ((self.newTask (.announced op)).modifyTask i fun t => { t with nested := some announce }).add
    announce false

/-- A completion listener, of the task `i` with this `t`. -/
def listen (i : Nat) (t : Task) : Tasks :=
  match t.listener with
  | .complete op => self.complete op
  | .announce op =>
    if t.state ≠ .finished then self
    else if t.closest = 0 then self.complete op
    else self.announce i op
  | .announced op => self.complete op
  | .homeBucket =>
    let self := { self with bootstrapping := false }
    if !self.isRunning then self
    else if self.numBucketEntries > MAX_ENTRIES_PER_BUCKET + 2 then self.fillBuckets
    else self
  | .bucket op fill =>
    { self with fills := self.fills.modify fill fun f =>
      { f with completion := f.completion + 1 } }.complete op
  | .refresh => self

/-- `Task::notifyCompletionListeners`. -/
def notify (i : Nat) : Tasks :=
  match self.tasks[i]? with
  | some t => self.listen i t
  | none => self

/-- `setState` of a task that has not ended, and its listeners. -/
def terminate (i : Nat) (state : TaskState) : Tasks :=
  if (self.stateOf i).isTerminal then self
  else (self.modifyTask i fun t => { t with state := state }).notify i

/-- `Task::finish`. -/
def finish (i : Nat) : Tasks := self.terminate i .finished

/-- `Task::cancel`. A nested task is an announcement, which has none itself. -/
def cancel (i : Nat) : Tasks :=
  let self := self.terminate i .canceled
  match self.tasks[i]?.bind (·.nested) with
  | some nested => self.terminate nested .canceled
  | none => self

/-- The end of `Task::serializedUpdate`. -/
def removeIfFinished (i : Nat) : Tasks :=
  if !self.stuck && (self.stateOf i).isTerminal then self.removeTask i else self

/-- `Task::start`. `done` tells if the task is done at once. -/
def start (i : Nat) (done : Bool) : Tasks :=
  if self.stateOf i = .initial || self.stateOf i = .queued then
    let self := self.modifyTask i fun t => { t with state := .running, started := true }
    (if done then self.finish i else self).removeIfFinished i
  else self

/-- The loop of `TaskManager::dequeue`. -/
def dequeueLoop (done : Nat → Bool) : Nat → Tasks → Tasks
  | 0, self => self
  | n + 1, self =>
    if self.stuck || !self.canStartTask then self
    else
      match self.queued with
      | [] => self
      | i :: queued =>
        let self := { self with queued := queued }
        if (self.stateOf i).isTerminal then dequeueLoop done n self
        else dequeueLoop done n ((self.emplace i).start i (done i))

/-- `TaskManager::dequeue`. The lock is not given back by a thread that is stuck. Nothing is added
to the queue meanwhile. -/
def dequeue (done : Nat → Bool) : Tasks :=
  let self := dequeueLoop done self.queued.length { self with locked := true }
  { self with locked := self.stuck }

/-- `TaskManager::cancelAll`. -/
def cancelAll : Tasks :=
  let self := { self with locked := true, canceling := true }
  let self := self.running.foldl cancel self
  let self := self.queued.foldl cancel self
  { self with locked := self.stuck, canceling := false }

/-- `DHT::stop`. -/
def stop : Tasks := if self.isRunning then { self with isRunning := false }.cancelAll else self

/-- What the handler of a call does to its task: nothing that ends it, the last that it waited for,
or a result whose handler cancels it. -/
inductive Outcome where
  | waits
  | finishes
  | cancels
  deriving DecidableEq

/-- The state change handler that `Task::sendCall` sets, with `serializedUpdate`. -/
def update (i : Nat) (outcome : Outcome) (closest : Nat) : Tasks :=
  match self.tasks[i]? with
  | none => self
  | some t =>
    if !t.started then self
    else
      let self :=
        if t.state.isTerminal then self
        else
          let self := self.modifyTask i fun t => { t with closest := closest }
          match outcome with
          | .waits => self
          | .finishes => self.finish i
          | .cancels => if t.listener.cancels then self.cancel i else self
      self.removeIfFinished i

/-- `DHT::findNode`, `findValue` and `findPeer`. -/
def find : Tasks := { self with ops := self.ops + 1 }.spawn (.complete self.ops)

/-- `DHT::storeValue` and `announcePeer`. -/
def store : Tasks := { self with ops := self.ops + 1 }.spawn (.announce self.ops)

/-- `DHT::fillHomeBucket`, for the nodes that a round has found. -/
def fillHomeBucket (round : Nat) (nodes : Nat) : Tasks :=
  if self.numBucketEntries = 0 ∧ nodes = 0 then { self with bootstrapping := false }
  else
    { self with rounds := self.rounds.modify round fun r =>
      { r with task := some self.tasks.length } }.spawn .homeBucket

/-- The size of `RoutingTable::getRandomEntries`. A vector has its size, not its capacity: what is
written after a `reserve` does not count. -/
def randomEntries (expect : Nat) : Nat :=
  if self.numBucketEntries ≤ expect then self.numBucketEntries else 0

/-- The nodes that a round of `updateBootstrap` calls. -/
def bns : Nat := if self.bootstrapNodes ≠ 0 then self.bootstrapNodes else self.randomEntries 8

/-- `DHT::updateBootstrap`. -/
def updateBootstrap (now : UInt64) : Tasks :=
  if !self.isRunning || (now - self.lastBootstrap).toNat < BOOTSTRAP_MIN_INTERVAL then self
  else if self.bns = 0 then self
  else if self.bootstrapping then self
  else
    { self with
      bootstrapping := true
      rounds :=
        self.rounds ++ [{ calls := self.bns, pending := self.bns, len := self.bootstrapNodes }] }

/-- The state change handler of a call of `updateBootstrap`, when the call ends. `found` is the
number of nodes in its response. -/
def bootstrapCall (round : Nat) (found : Nat) (now : UInt64) : Tasks :=
  match self.rounds[round]? with
  | none => self
  | some r =>
    if r.pending = 0 then self
    else
      let r := r.ended found
      if r.count = r.len then
        { self with
          lastBootstrap := now, rounds :=
          self.rounds.set round { r with filled := r.filled + 1 } }.fillHomeBucket
          round r.nodes
      else { self with rounds := self.rounds.set round r }

/-- What happens to the tasks of a DHT. -/
inductive Event where
  | find
  | store
  | refresh
  /-- `add` of any task. -/
  | add (i : Nat) (prior : Bool)
  | dequeue (done : Nat → Bool)
  | update (i : Nat) (outcome : Outcome) (closest : Nat)
  /-- `Task::cancel` by the one who started the task. -/
  | cancel (i : Nat)
  | cancelAll
  | stop
  | updateBootstrap (now : UInt64)
  | bootstrapCall (round found : Nat) (now : UInt64)
  /-- The routing table changes. -/
  | table (buckets : List Nat)
  /-- `DHT::bootstrap` adds nodes. -/
  | bootstrap (added : Nat)

def react : Event → Tasks
  | .find => self.find
  | .store => self.store
  | .refresh => self.spawn .refresh
  | .add i prior => if i < self.tasks.length then self.add i prior else self
  | .dequeue done => self.dequeue done
  | .update i outcome closest => self.update i outcome closest
  | .cancel i => self.cancel i
  | .cancelAll => self.cancelAll
  | .stop => self.stop
  | .updateBootstrap now => self.updateBootstrap now
  | .bootstrapCall round found now => self.bootstrapCall round found now
  | .table buckets => { self with buckets := buckets }
  | .bootstrap added =>
    if added = 0 then self
    else { self with bootstrapNodes := self.bootstrapNodes + added, lastBootstrap := 0 }

/-- One event. -/
def step (event : Event) : Tasks := if self.stuck then self else self.react event

/-- A sequence of events. -/
def run (events : List Event) : Tasks := events.foldl step self

/-- A DHT that has just been started, with its bootstrap nodes. -/
def init (bootstrapNodes : Nat) : Tasks := { bootstrapNodes := bootstrapNodes }

@[simp] theorem run_nil : self.run [] = self := rfl

@[simp] theorem run_concat (events : List Event) (e : Event) :
    self.run (events ++ [e]) = (self.run events).step e := List.foldl_concat ..

end Tasks

end Boson
