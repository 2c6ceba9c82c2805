import Boson.Message
import Boson.Lib.Table
import Mathlib.Data.List.Basic

/-!
# Outstanding calls (`src/core/rpccall.*`, `src/core/rpcserver.cc`)

The part of the RPC server that follows a call from `sendCall` to its response or timeout. A call is
named by its index in `objs`, the list of all `RPCCall` objects; the map `calls` holds the indices
of the outstanding ones under their transaction ids.

The handlers of a call are code of others: they may send further calls and they may throw. `Script`
says what a handler does; `exec` runs it. `send` is the one effect of a handler on the calls: every
nested `sendCall` creates a call, so a script is a finite tree. An exception leaves the state as it
is at the point of the `throw` (`Res`).

`trace` and `delivered` record the notifications of all calls and the messages given to them.
-/

namespace Boson

/-- `RPCCall::State`. -/
inductive CallState where
  | unsent
  | sent
  | stalled
  | timeout
  | canceled
  | err
  | responded
  deriving DecidableEq, Repr

/-- The states in which a call waits for its response. -/
def CallState.isWaiting (s : CallState) : Bool := s = .sent || s = .stalled

/-- The states that end a call. -/
def CallState.isTerminal (s : CallState) : Bool := s = .responded || s = .err || s = .timeout

/-- `Constants::RPC_CALL_TIMEOUT_MAX`, in milliseconds. -/
def RPC_CALL_TIMEOUT_MAX : Nat := 10 * 1000

/-- `RPCCall`: the transaction id and the remote address of its request, its state, and the job that
checks its timeout. -/
structure RPCCall where
  txid : Int32 := 0
  remote : SocketAddress
  state : CallState := .unsent
  sentTime : Nat := 2 ^ 64 - 1
  timeoutTimer : Option Nat := none
  deriving DecidableEq

/-- A job of the scheduler that runs `checkTimeout` of a call. It is not `active` when it was
cancelled or has run. -/
structure TimeoutJob where
  due : Nat
  call : Nat
  active : Bool := true
  deriving DecidableEq

/-- What the server reads of a received message here. -/
structure Packet where
  type : MessageType
  txid : Int32
  origin : SocketAddress
  deriving DecidableEq

/-- A notification of a call: the state it enters, and when. -/
structure Notification where
  call : Nat
  state : CallState
  time : Nat
  deriving DecidableEq

/-- What a handler does: it may throw, and it may send calls. `fails` tells if `sendData` throws for
the new call, `onSent` is what the new call's own handler does when it is sent. -/
inductive Script where
  | done
  | throw
  | send (remote : SocketAddress) (fails : Bool) (onSent rest : Script)

/-- `RPCServer`: the calls, the jobs of its scheduler and the clock. `rx` tells if the receive loop
is still running. -/
structure RPCServer where
  now : Nat
  startTime : Nat
  dht6 : Bool
  nextTxid : Int32
  objs : List RPCCall := []
  calls : Table (Prod.fst : Int32 × Nat → Int32) := Table.empty
  timers : List TimeoutJob := []
  rx : Bool := true
  trace : List Notification := []
  delivered : List (Nat × Packet) := []

/-- The state after a piece of code, and whether it ended with an exception. -/
structure Res where
  state : RPCServer
  threw : Bool

namespace Res

/-- The code ended normally. -/
def ok (s : RPCServer) : Res := ⟨s, false⟩

/-- The code threw. -/
def thrown (s : RPCServer) : Res := ⟨s, true⟩

/-- The code goes on with `f`, unless it threw. -/
def andThen (r : Res) (f : RPCServer → Res) : Res := if r.threw then r else f r.state

end Res

namespace RPCServer

open Res

/-- The call `c`; no call is read outside the list. -/
def call (self : RPCServer) (c : Nat) : RPCCall := self.objs.getD c { remote := .empty }

/-- The call `c`, changed. -/
def modifyCall (self : RPCServer) (c : Nat) (f : RPCCall → RPCCall) : RPCServer :=
  { self with objs := self.objs.modify c f }

/-- `timeoutTimer = scheduler.add(checkTimeout, delay)`. -/
def schedule (self : RPCServer) (c : Nat) (delay : Nat) : RPCServer :=
  let job := self.timers.length
  { self.modifyCall c fun call => { call with timeoutTimer := some job } with
    timers := self.timers ++ [{ due := self.now + delay, call := c }] }

/-- A job that was cancelled, or has run, does not run again. -/
def clearJob (self : RPCServer) (job : Nat) : RPCServer :=
  { self with timers := self.timers.modify job fun j => { j with active := false } }

/-- `timeoutTimer->cancel()`. -/
def cancelTimer (self : RPCServer) (c : Nat) : RPCServer :=
  match (self.call c).timeoutTimer with
  | some job => self.clearJob job
  | none => self

/-- The timeout handler that `dispatchCall` sets: the call is taken out of `calls`. -/
def timeoutHandler (self : RPCServer) (c : Nat) : RPCServer :=
  { self with calls := self.calls.deleteWhere fun r => r.1 = (self.call c).txid }

/-- The call `c` is in the state `st`, and its state change handler is notified. -/
def enter (self : RPCServer) (c : Nat) (st : CallState) : RPCServer :=
  { self.modifyCall c fun call => { call with state := st } with
    trace := self.trace ++ [{ call := c, state := st, time := self.now }] }

/-- `RPCCall::updateState`. `handler` is what the state change handler does. -/
def updateState (self : RPCServer) (c : Nat) (st : CallState) (handler : RPCServer → Res) : Res :=
  (handler (self.enter c st)).andThen fun s => ok (if st = .timeout then s.timeoutHandler c else s)

/-- `int txid = nextTxid++`, once more if it is 0. -/
def takeTxid (self : RPCServer) : Int32 × RPCServer :=
  if self.nextTxid = 0 then (self.nextTxid + 1, { self with nextTxid := self.nextTxid + 1 + 1 })
  else (self.nextTxid, { self with nextTxid := self.nextTxid + 1 })

/-- `std::make_shared<RPCCall>`: a new call to `remote`. -/
def newCall (self : RPCServer) (remote : SocketAddress) : RPCServer :=
  { self with objs := self.objs ++ [{ remote := remote }] }

/-- `calls[txid] = call`, and the send time that `RPCCall::sent` notes. -/
def register (self : RPCServer) (c : Nat) (txid : Int32) : RPCServer :=
  { self.modifyCall c fun call => { call with txid := txid, sentTime := self.now } with
    calls := self.calls.upsert (txid, c) (fun r => (r.1, c)) fun _ => rfl }

/-- `RPCServer::sendCall` of a new call to `remote`, with `dispatchCall`, `sendMessage` and
`RPCCall::sent`. -/
def sendCall (self : RPCServer) (remote : SocketAddress) (fails : Bool)
    (handler : RPCServer → Res) :
    Res :=
  let c := self.objs.length
  let (txid, self) := (self.newCall remote).takeTxid
  if (self.calls.lookup txid).isSome then thrown self
  else
    ((self.register c txid).updateState c .sent handler).andThen fun self =>
      let self := self.schedule c 2000
      if fails then thrown self else ok self

/-- Run a handler. -/
def exec : Script → RPCServer → Res
  | .done, self => ok self
  | .throw, self => thrown self
  | .send remote fails onSent rest, self =>
    (self.sendCall remote fails (exec onSent)).andThen (exec rest)

/-- `RPCCall::checkTimeout`. -/
def checkTimeout (self : RPCServer) (c : Nat) (handler : RPCServer → Res) : Res :=
  if (self.call c).state.isWaiting then
    let elapsed := Int32.ofInt ((self.now : Int) - (self.call c).sentTime)
    let remaining := Int32.ofNat RPC_CALL_TIMEOUT_MAX - elapsed
    if remaining > 0 then
      (self.updateState c .stalled handler).andThen fun self =>
        ok (self.schedule c remaining.toInt.toNat)
    else self.updateState c .timeout handler
  else ok self

/-- `RPCCall::responsed`. -/
def responsed (self : RPCServer) (c : Nat) (msg : Packet) (handler : RPCServer → Res) : Res :=
  let self := { self.cancelTimer c with delivered := self.delivered ++ [(c, msg)] }
  match msg.type with
  | .response => self.updateState c .responded handler
  | .err => self.updateState c .err handler
  | .request => thrown self

/-- `RPCCall::stall`. -/
def stall (self : RPCServer) (c : Nat) (handler : RPCServer → Res) : Res :=
  if (self.call c).state = .sent then self.updateState c .stalled handler else ok self

/-- What others do while the server handles a packet: whether the sending of an error reply throws
(for an invalid transaction id, and for a response that matches no call), what the state change
handler of the call does, and what `DHT::onMessage` does. -/
structure Others where
  txidErrorFails : Bool := false
  matchErrorFails : Bool := false
  handler : Script := .done
  onMessage : Script := .done

/-- `RPCServer::handlePacket` after the message is parsed, except for the reply to an invalid
transaction id. -/
def matchCall (self : RPCServer) (msg : Packet) (o : Others) : Res :=
  if msg.type = .request then exec o.onMessage self
  else
    match self.calls.lookup msg.txid with
    | some (_, c) =>
      if (self.call c).remote = msg.origin then
        -- the call is removed first in case of an exception
        let self := { self with calls := self.calls.deleteWhere fun r => r.1 = msg.txid }
        (self.responsed c msg (exec o.handler)).andThen (exec o.onMessage)
      else if msg.type = .response && self.dht6 && o.matchErrorFails then thrown self
      else self.stall c (exec o.handler)
    | none =>
      if msg.type = .response && self.now - self.startTime > 2 * 60 * 1000 then
        if o.matchErrorFails then thrown self else ok self
      else if msg.type = .err then exec o.onMessage self
      else ok self

/-- `RPCServer::handlePacket` after the message is parsed. -/
def handlePacket (self : RPCServer) (msg : Packet) (o : Others) : Res :=
  if msg.type ≠ .err && msg.txid = 0 && o.txidErrorFails then thrown self
  else self.matchCall msg o

/-- A step of the system: a call is sent, a packet arrives, a timeout job runs, or time passes. -/
inductive Event where
  | sendCall (remote : SocketAddress) (fails : Bool) (handler : Script)
  | packet (msg : Packet) (o : Others)
  | fire (job : Nat) (handler : Script)
  | advance (millis : Nat)

/-- A step on the thread of the receive loop: an exception ends the loop. -/
def onLoop (self : RPCServer) (f : RPCServer → Res) : RPCServer :=
  if self.rx then
    let r := f self
    { r.state with rx := !r.threw }
  else self

/-- One job of the scheduler, if it is active and due. -/
def runJob (self : RPCServer) (job : Nat) (handler : Script) : Res :=
  match self.timers[job]? with
  | some j =>
    if j.active && j.due ≤ self.now then (self.clearJob job).checkTimeout j.call (exec handler)
    else ok self
  | none => ok self

/-- One step. `sendCall` may also be called from other threads, which get its exception. -/
def step (self : RPCServer) : Event → RPCServer
  | .sendCall remote fails handler => (self.sendCall remote fails (exec handler)).state
  | .packet msg o => self.onLoop (·.handlePacket msg o)
  | .fire job handler => self.onLoop (·.runJob job handler)
  | .advance millis => { self with now := self.now + millis }

/-- A sequence of steps. -/
def run (self : RPCServer) (events : List Event) : RPCServer := events.foldl step self

/-- A server that has sent nothing. -/
def init (now : Nat) (dht6 : Bool) (nextTxid : Int32) : RPCServer :=
  { now := now, startTime := now, dht6 := dht6, nextTxid := nextTxid }

end RPCServer

end Boson
