import Boson.Message
import Boson.Task.ClosestCandidates

/-!
# Lookups (`src/core/task/`: `task.*`, `lookup_task.*`, `node_`, `value_` and `peer_lookup.*`)

A lookup queries its candidates, a few at a time, and keeps the closest nodes that answered. The
three kinds of lookups differ in how they treat a response (`callResponsed`).

A call in flight is named by a key (the source uses its hash) and holds its target node, which is
also a candidate; ids of candidates are different, so the call keeps only the id. Sending does not
throw. `SENT` is none of the states that cause an update, so no update runs inside another one and
the loop of `serializedUpdate` runs once.

What a task does is a reaction to an event: `handle` is what happens before `serializedUpdate`, and
tells if that is called. An exception from a handler of a call ends the receive loop (`rx`), and
with it the notifications of all calls.
-/

namespace Boson

/-- `Constants::MAX_CONCURRENT_TASK_REQUESTS`. -/
def MAX_CONCURRENT_TASK_REQUESTS : Nat := 10

/-- `Task::State`. -/
inductive TaskState where
  | initial
  | queued
  | running
  | finished
  | canceled
  deriving DecidableEq, Repr

/-- `Task::isTerminal`. -/
def TaskState.isTerminal (s : TaskState) : Bool := s = .finished || s = .canceled

/-- The subclasses of `LookupTask`. -/
inductive LookupKind where
  | node
  | value
  | peer
  deriving DecidableEq, Repr

/-- What a lookup hands to its result handler. -/
inductive LookupResult where
  | node (n : NodeInfo)
  | value (v : Value)
  | peers (ps : List PeerInfo)
  deriving DecidableEq

/-- What does not change about a lookup: its kind and target, and what it reads of its DHT. -/
structure Lookup where
  kind : LookupKind
  target : Id
  expectedSequence : Int32 := -1
  network : Network
  selfId : Id
  selfAddress : SocketAddress
  crypto : Crypto

/-- An `RPCCall` of the task that is in flight. -/
structure LookupCall where
  key : Nat
  target : Id
  deriving DecidableEq

/-- `LookupTask` with the part of `Task` under it. `isRunning` tells if `TaskManager::running` has
the task, `notified` how often its listeners were notified. -/
structure LookupTask extends Lookup where
  state : TaskState := .initial
  closestSet : ClosestSet
  closestCandidates : ClosestCandidates
  inFlight : List LookupCall := []
  nextKey : Nat := 0
  isRunning : Bool := false
  notified : Nat := 0
  results : List LookupResult := []
  rx : Bool := true

namespace LookupTask

/-- `LookupTask::LookupTask`. -/
def new (lookup : Lookup) : LookupTask :=
  { lookup with
    closestSet := { target := lookup.target, capacity := MAX_ENTRIES_PER_BUCKET }
    closestCandidates := { target := lookup.target, capacity := MAX_ENTRIES_PER_BUCKET * 3 } }

/-- `Task::isFinished`. -/
def isFinished (self : LookupTask) : Bool := self.state.isTerminal

/-- `Task::canDoRequest`. -/
def canDoRequest (self : LookupTask) : Bool := self.inFlight.length < MAX_CONCURRENT_TASK_REQUESTS

/-- The end of a task, by `finish` or `cancel`: the state changes, and the listeners are
notified. -/
def terminate (self : LookupTask) (state : TaskState) : LookupTask :=
  if self.isFinished then self else { self with state := state, notified := self.notified + 1 }

/-- `Task::finish`. -/
def finish (self : LookupTask) : LookupTask := self.terminate .finished

/-- `Task::cancel`. -/
def cancel (self : LookupTask) : LookupTask := self.terminate .canceled

/-- `LookupTask::isBogonAddress`. `isBogon` throws for no address: one of neither family has port
0. -/
def isBogonAddress (addr : SocketAddress) : Bool := addr.isBogon.getD true

/-- `LookupTask::addCandidates`. -/
def addCandidates (self : LookupTask) (nodes : List NodeRef) : LookupTask :=
  let candidates := nodes.filter fun r =>
    !(isBogonAddress r.node.sockaddr || self.selfId == r.node.nodeId ||
      self.selfAddress == r.node.sockaddr || self.closestSet.contains r.node.nodeId)
  if candidates ≠ [] then { self with closestCandidates := self.closestCandidates.add candidates }
  else self

/-- `LookupTask::isDone`. -/
def isDone (self : LookupTask) : Bool :=
  (self.inFlight.isEmpty || self.isFinished) &&
    (self.closestCandidates.size = 0 ||
      (self.closestSet.isEligible &&
        self.target.threeWayCompare self.closestSet.tail self.closestCandidates.head ≤ 0))

/-- `Task::sendCall` to a candidate, which is marked as sent. -/
def sendCall (self : LookupTask) (now : UInt64) (candidate : CandidateNode) : LookupTask :=
  { self with
    closestCandidates := self.closestCandidates.modify candidate.nodeId (·.setSent now)
    inFlight := self.inFlight ++ [{ key := self.nextKey, target := candidate.nodeId }]
    nextKey := self.nextKey + 1 }

/-- `NodeLookup::update`, `ValueLookup::update` and `PeerLookup::update`: they differ in the request
that they send. -/
def update (self : LookupTask) (now : UInt64) : LookupTask :=
  if _h : self.inFlight.length < MAX_CONCURRENT_TASK_REQUESTS then
    match self.closestCandidates.next with
    | none => self
    | some candidate => (self.sendCall now candidate).update now
  else self
termination_by MAX_CONCURRENT_TASK_REQUESTS - self.inFlight.length
decreasing_by
  simp only [sendCall, List.length_append, List.length_singleton]
  omega

/-- `if (isDone()) finish()`. -/
def finishIfDone (self : LookupTask) : LookupTask := if self.isDone then self.finish else self

/-- `Task::serializedUpdate`, with `TaskManager::removeTask`. -/
def serializedUpdate (self : LookupTask) (now : UInt64) : LookupTask :=
  let self := self.finishIfDone
  let self :=
    if self.canDoRequest && !self.isFinished then (self.update now).finishIfDone else self
  if self.isFinished then { self with isRunning := false } else self

/-- `LookupTask::callError`. -/
def callError (self : LookupTask) (id : Id) : LookupTask :=
  { self with closestCandidates := self.closestCandidates.remove id }

/-- `LookupTask::callTimeout`. -/
def callTimeout (self : LookupTask) (id : Id) : LookupTask :=
  match self.closestCandidates.get id with
  | none => self
  | some candidateNode =>
    if candidateNode.isUnreachable then
      { self with closestCandidates := self.closestCandidates.remove id }
    else { self with closestCandidates := self.closestCandidates.modify id (·.clearSent) }

/-- `LookupTask::callResponsed`: the candidate is now one of the closest nodes. -/
def addResponder (self : LookupTask) (now : UInt64) (id : Id) (token : Int) : LookupTask :=
  match self.closestCandidates.get id with
  | none => self
  | some candidateNode =>
    { self with
      closestCandidates := self.closestCandidates.remove id
      closestSet := self.closestSet.add ((candidateNode.setReplied now).setToken token) }

/-- A response as it reaches a task. `stray` is what a message that is no `LookupResponse` has in
memory where one has its token; `cancels` tells if the result handler cancels the task. -/
structure Responded where
  response : Message
  stray : Int := 0
  cancels : Bool := false

/-- `LookupResponse::getToken`, after a `static_pointer_cast`. -/
def Responded.getToken (r : Responded) : Int :=
  match r.response.lookupResponse? with
  | some l => l.token.toInt
  | none => r.stray

/-- The response is from the node that was asked, and of the method that was asked for. -/
def Responded.fits (r : Responded) (id : Id) (method : Method) : Bool :=
  r.response.id = id && r.response.getType = .response && r.response.getMethod = method

/-- The result handler is called. -/
def handleResult (self : LookupTask) (r : Responded) (result : LookupResult) : LookupTask :=
  let self := { self with results := self.results ++ [result] }
  if r.cancels then self.cancel else self

/-- The nodes of a response. -/
def addNodes (self : LookupTask) (nodes : List NodeInfo) : LookupTask :=
  if nodes ≠ [] then self.addCandidates (nodes.map .info) else self

/-- `NodeLookup::callResponsed`. -/
def nodeResponsed (self : LookupTask) (now : UInt64) (id : Id) (r : Responded) : LookupTask :=
  let self := self.addResponder now id r.getToken
  if !r.fits id .findNode then self
  else match r.response.content with
    | .findNodeResponse l =>
      let nodes := l.getNodes self.network
      (nodes.filter (·.nodeId = self.target)).foldl (fun t n => t.handleResult r (.node n))
        (self.addNodes nodes)
    | _ => self

/-- `ValueLookup::callResponsed`: the task afterwards, and whether `FindValueResponse::getValue`
threw. -/
def valueResponsed (self : LookupTask) (now : UInt64) (id : Id) (r : Responded) :
    LookupTask × Bool :=
  if !r.fits id .findValue then (self, false)
  else
    let self := self.addResponder now id r.getToken
    match r.response.content with
    | .findValueResponse l v =>
      if v.hasValue then
        match v.getValue with
        | .error _ => (self, true)
        | .ok value =>
          if value.getId self.crypto ≠ self.target then (self, false)
          else if !value.isValid self.crypto then (self, false)
          else if self.expectedSequence ≥ 0 && value.sequenceNumber < self.expectedSequence then
            (self, false)
          else (self.handleResult r (.value value), false)
      else (self.addNodes (l.getNodes self.network), false)
    | _ => (self, false)

/-- `PeerLookup::callResponsed`. -/
def peerResponsed (self : LookupTask) (now : UInt64) (id : Id) (r : Responded) : LookupTask :=
  if !r.fits id .findPeer then self
  else
    let self := self.addResponder now id r.getToken
    match r.response.content with
    | .findPeerResponse l peers =>
      if peers ≠ [] then
        if peers.all (·.isValid self.crypto) then self.handleResult r (.peers peers) else self
      else self.addNodes (l.getNodes self.network)
    | _ => self

/-- `callResponsed`: the task afterwards, and whether an exception was thrown. -/
def callResponsed (self : LookupTask) (now : UInt64) (id : Id) (r : Responded) :
    LookupTask × Bool :=
  match self.kind with
  | .node => (self.nodeResponsed now id r, false)
  | .value => self.valueResponsed now id r
  | .peer => (self.peerResponsed now id r, false)

/-- What happens to a call in flight. -/
inductive CallEvent where
  | responded (r : Responded)
  | err
  | timeout
  | stalled

/-- What happens to a task. `inject` is `NodeLookup::injectCandidates`, which the code calls before
it gives the task to its manager. -/
inductive LookupEvent where
  | inject (nodes : List NodeRef)
  | start (nodes : List NodeRef)
  | cancel
  | call (key : Nat) (e : CallEvent)

/-- The state change handler that `Task::sendCall` sets, up to `serializedUpdate`. -/
def onStateChange (self : LookupTask) (now : UInt64) (call : LookupCall) : CallEvent →
    LookupTask × Bool
  | .responded r =>
    let self := { self with inFlight := self.inFlight.erase call }
    if self.isFinished then (self, false) else self.callResponsed now call.target r
  | .err =>
    let self := { self with inFlight := self.inFlight.erase call }
    (if self.isFinished then self else self.callError call.target, false)
  | .timeout =>
    let self := { self with inFlight := self.inFlight.erase call }
    (if self.isFinished then self else self.callTimeout call.target, false)
  | .stalled => (self, false)

/-- What happens before `serializedUpdate`, and whether that is called. A call is notified only
while it is in flight, since it ends once. -/
def handle (self : LookupTask) (now : UInt64) : LookupEvent → LookupTask × Bool
  | .inject nodes => (if self.state = .initial then self.addCandidates nodes else self, false)
  | .start nodes =>
    if self.state = .initial || self.state = .queued then
      ({ self with state := .running, isRunning := true }.addCandidates nodes, true)
    else (self, false)
  | .cancel => (self.cancel, false)
  | .call key e =>
    match self.inFlight.find? (·.key = key) with
    | some call =>
      if self.rx then
        let (self, threw) := self.onStateChange now call e
        ({ self with rx := !threw }, !threw)
      else (self, false)
    | none => (self, false)

/-- One step, at the time `now`. -/
def step (self : LookupTask) (e : UInt64 × LookupEvent) : LookupTask :=
  let (self, updates) := self.handle e.1 e.2
  if updates then self.serializedUpdate e.1 else self

/-- A sequence of steps. -/
def run (self : LookupTask) (events : List (UInt64 × LookupEvent)) : LookupTask :=
  events.foldl step self

end LookupTask

end Boson
