import Boson.ActiveProxy.Connection

/-!
# The connections of the proxy (`src/addons/activeproxy/activeproxy.cc`, `activeproxy.h`)

`ActiveProxy` keeps its connections in a vector and counts in `inFlights` those that are at work. A
connection is named by its number here, the `id` that it gets when it is made: `objects` holds all
of them, also those that are no longer in the vector, for their callbacks may still run and call the
handlers of the proxy.

`onIteration` runs on a timer and after each turn of the loop. Its parts are events of their own, in
any order: a new connection, the idle check, and the health check, which is `periodicCheck` of the
connections. The announcement of the peer and the search for the server are left out.
-/

namespace Boson

namespace ActiveProxy

/-- `MAX_IDLE_TIME`, in milliseconds. -/
def MAX_IDLE_TIME : Nat := 5 * 60 * 1000

/-- `UINT64_MAX`. -/
def UINT64_MAX : UInt64 := 0xFFFFFFFFFFFFFFFF

/-- `ActiveProxy`. -/
structure Proxy where
  /-- All connections, by their `id`. -/
  objects : List ProxyConnection := []
  /-- The vector, by the `id` of each connection. -/
  connections : List Nat := []
  inFlights : UInt32 := 0
  idleTimestamp : UInt64 := UINT64_MAX
  maxConnections : UInt32 := 16
  serverPk : Option (List UInt8) := none
  serverFails : UInt32 := 0
  reconnectDelay : UInt32 := 0
  lastConnectTimestamp : UInt64 := 0
  running : Bool := true
  /-- Not in the source: `inFlights` was decremented at 0. -/
  wrapped : Bool := false
  deriving DecidableEq

namespace Proxy

variable (self : Proxy)

/-- The handlers that `connect` gives to a connection, and `setMaxConnections`. -/
def handle (now : UInt64) (id : Nat) : Call → Proxy
  | .setMaxConnections connections => { self with maxConnections := UInt32.ofNat connections }
  | .authorized serverPk _ _ => { self with serverPk := some serverPk }
  | .opened => { self with serverFails := 0, reconnectDelay := 0 }
  | .openFailed =>
    let serverFails := self.serverFails + 1
    { self with
      serverFails := serverFails
      reconnectDelay :=
        if self.reconnectDelay < 64 then ((1 : UInt32) <<< serverFails) * 1000
        else self.reconnectDelay }
  | .closed => { self with connections := self.connections.erase id }
  | .busy => { self with inFlights := self.inFlights + 1, idleTimestamp := UINT64_MAX }
  | .idle =>
    { self with
      inFlights := self.inFlights - 1
      idleTimestamp := if self.inFlights - 1 = 0 then now else self.idleTimestamp
      wrapped := self.wrapped || self.inFlights = 0 }

/-- The part of an effect that the proxy takes. -/
def see (now : UInt64) (id : Nat) : Effect → Proxy
  | .call call => self.handle now id call
  | _ => self

/-- The connection becomes `next`, and the proxy gets the calls that it made on the way. -/
def update (now : UInt64) (id : Nat) (connection next : ProxyConnection) : Proxy :=
  (next.effects.drop connection.effects.length).foldl (fun self effect => self.see now id effect)
    { self with objects := self.objects.set id next }

/-- A callback of a connection. -/
def callback (id : Nat) (env : Env) (event : Event) : Proxy :=
  match self.objects[id]? with
  | none => self
  | some connection =>
    self.update env.now id connection
      (connection.step { env with isAuthenticated := self.serverPk.isSome } event)

/-- `onClosed(nullptr)` and `close()`. -/
def release (now : UInt64) (id : Nat) : Proxy :=
  match self.objects[id]? with
  | none => self
  | some connection => self.update now id connection { connection with closeHandler := false }.close

/-- `ActiveProxy::reset`. -/
def reset : Proxy :=
  { self with
    serverPk := none
    lastConnectTimestamp := 0
    serverFails := 0
    reconnectDelay := 0
    idleTimestamp := UINT64_MAX
    inFlights := 0 }

/-- `ActiveProxy::needsNewConnection`. -/
def needsNewConnection (now : UInt64) : Proxy × Bool :=
  if self.connections.length ≥ self.maxConnections.toNat then (self, false)
  else if self.reconnectDelay ≠ 0 ∧
    (now - self.lastConnectTimestamp).toNat < self.reconnectDelay.toNat then
    (self, false)
  else if self.connections.isEmpty then (if self.serverPk.isSome then self.reset else self, true)
  else (self, self.inFlights.toNat = self.connections.length)

/-- `ActiveProxy::connect`. -/
def connect (env : Env) : Proxy :=
  { self with
    objects := self.objects ++ [.create env]
    connections := self.connections ++ [self.objects.length]
    lastConnectTimestamp := env.now }

/-- The start of `ActiveProxy::onIteration`. -/
def onIteration (env : Env) : Proxy :=
  if (self.needsNewConnection env.now).2 then (self.needsNewConnection env.now).1.connect env
  else (self.needsNewConnection env.now).1

/-- `ActiveProxy::idleCheck`. -/
def idleCheck (now : UInt64) : Proxy :=
  if self.idleTimestamp = UINT64_MAX ∨ (now - self.idleTimestamp).toNat < MAX_IDLE_TIME then self
  else if self.inFlights ≠ 0 ∨ self.connections.length ≤ 1 then self
  else
    let closed := (self.connections.drop 1).reverse.foldl (fun self id => self.release now id) self
    { closed with connections := closed.connections.take 1 }

/-- `ActiveProxy::onStop`. -/
def onStop (now : UInt64) : Proxy :=
  let closed :=
    self.connections.foldl (fun self id => self.release now id) { self with running := false }
  { closed with connections := [] }

end Proxy

/-- What happens to the proxy. -/
inductive ProxyEvent where
  | onIteration (env : Env)
  | idleCheck (now : UInt64)
  | onStop (now : UInt64)
  | callback (id : Nat) (env : Env) (event : Event)

namespace Proxy

variable (self : Proxy)

/-- A fault of a connection ended the process. -/
def isDead : Bool := self.objects.any (·.fault.isSome)

/-- The timers stop with `onStop`; the connections have their callbacks to the end. -/
def react : ProxyEvent → Proxy
  | .onIteration env => if self.running then self.onIteration env else self
  | .idleCheck now => if self.running then self.idleCheck now else self
  | .onStop now => if self.running then self.onStop now else self
  | .callback id env event => self.callback id env event

def step (event : ProxyEvent) : Proxy := if self.isDead then self else self.react event

def run (events : List ProxyEvent) : Proxy := events.foldl step self

/-- The proxy when its loop starts to run. -/
def start (maxConnections : UInt32) : Proxy := { maxConnections := maxConnections }

@[simp] theorem run_nil : self.run [] = self := rfl

@[simp] theorem run_concat (events : List ProxyEvent) (e : ProxyEvent) :
    self.run (events ++ [e]) = (self.run events).step e := List.foldl_concat ..

end Proxy

end ActiveProxy

end Boson
