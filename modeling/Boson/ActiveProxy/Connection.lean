import Boson.ActiveProxy.Framing
import Mathlib.Data.Vector.Basic

/-!
# A connection to the relay server (`src/addons/activeproxy/connection.cc`, `connection.h`)

A `ProxyConnection` has two sockets, the relay and the upstream, and it is driven by callbacks: what
comes from the relay or the upstream, the end of a request that was given to libuv (`Request`), the
health check of the proxy, and `close`. The functions are those of the source. What they get from
libuv, from the crypto functions and from the proxy during a callback is the `Env` of the callback,
so a failure may happen anywhere.

An exception that leaves a `noexcept` function ends the process: `fault` is set, and no callback
runs after that. `effects` records what can be seen of a connection: the states it enters, with
`disconnectConfirms` at that time, its calls to the proxy, and the return of the `close` that closed
it.

Left out are the reference count, the nonce and the contents of the packets that are sent;
encryption and signing do not fail. A read may come at any time, also after `uv_read_stop`.

* `Extends`: every function adds to the effects of a connection.
* `onRelayRead_run`: what `onRelayRead` does with the bytes of a read is a run of the packets in it.
-/

namespace Boson

namespace ActiveProxy

/-- `ConnectionState`. -/
inductive ConnectionState where
  | initializing
  | authenticating
  | attaching
  | idling
  | relaying
  | disconnecting
  | closed
  deriving DecidableEq

namespace ConnectionState

/-- The value of the enumerator. -/
def toNat : ConnectionState → Nat
  | initializing => 0
  | authenticating => 1
  | attaching => 2
  | idling => 3
  | relaying => 4
  | disconnecting => 5
  | closed => 6

/-- `ConnectionState::accept`. -/
def accept (self : ConnectionState) (type : PacketType) : Bool :=
  match self with
  -- type-less challenge
  | initializing => false
  | authenticating => type = .authAck
  | attaching => type = .attachAck
  | idling => type = .pingAck || type = .connect
  | relaying => type = .pingAck || type = .data || type = .disconnect
  | disconnecting => type = .disconnect || type = .disconnectAck || type = .data
  | closed => false

end ConnectionState

def KEEP_ALIVE_INTERVAL : Nat := 60000
def MAX_KEEP_ALIVE_RETRY : Nat := 3
def MAX_RELAY_WRITE_QUEUE_SIZE : Nat := 2 * 1024 * 1024

/-- `CryptoBox::MAC_BYTES`. -/
def MAC_BYTES : Nat := 16
/-- `CryptoBox::PublicKey::BYTES`. -/
def PUBLIC_KEY_BYTES : Nat := 32

def AUTH_ACK_SIZE : Nat := PACKET_HEADER_BYTES + MAC_BYTES + PUBLIC_KEY_BYTES + 2 + 2 + 1
def CONNECT_REQ_SIZE : Nat := PACKET_HEADER_BYTES + MAC_BYTES + 1 + 16 + 2

/-- What a connection calls in the proxy: `setMaxConnections` and the handlers. -/
inductive Call where
  | setMaxConnections (connections : Nat)
  | authorized (serverPk : List UInt8) (port : Nat) (domainEnabled : Bool)
  | opened
  | openFailed
  | closed
  | busy
  | idle
  deriving DecidableEq

inductive Effect where
  | enter (state : ConnectionState) (disconnectConfirms : Nat)
  | call (call : Call)
  /-- The return of a `close` that found the connection not closed. -/
  | returned
  deriving DecidableEq

/-- A `uv_tcp_t`: `data` is set, `uv_is_closing`. -/
structure Handle where
  data : Bool := false
  closing : Bool := false
  deriving DecidableEq

/-- The `handler` of a `WriteRequest` to the relay. -/
inductive WriteCallback where
  | none
  | connectResponse (success : Bool)
  | dataRequest
  deriving DecidableEq

/-- What libuv was asked for; its callback is to come. -/
inductive Request where
  | relayConnect
  | relayWrite (handler : WriteCallback)
  | relayClose
  | upstreamConnect
  | upstreamWrite
  | upstreamShutdown
  | upstreamClose
  deriving DecidableEq

/-- What ends the process: an exception out of a `noexcept` function, a length below 0, a read
outside the memory that is there. -/
inductive Fault where
  | exception
  | underflow
  | overread
  deriving DecidableEq

/-- `Random::uint32(10000)` can be 0. -/
instance shift_neZero : NeZero 10000 := ⟨by decide⟩

/-- What a callback gets from outside: the clock, whether the calls of libuv it makes succeed, the
size of the write queue of the relay, what `decrypt` and `decryptWithNode` give unless they throw,
whether `CryptoBox(serverPk, sk)` can be made and the proxy has a `peerKeypair`,
`proxy.isAuthenticated()` and the random numbers. -/
structure Env where
  now : UInt64 := 0
  tcpInit : Bool := true
  tcpConnect : Bool := true
  readStart : Bool := true
  write : PacketType → Bool := fun _ => true
  upstreamWrite : Bool := true
  shutdown : Bool := true
  relayQueueSize : Nat := 0
  decrypt : (cipher : List UInt8) → Option (List.Vector UInt8 (cipher.length - MAC_BYTES)) :=
    fun _ => none
  decryptWithNode : (cipher : List UInt8) →
    Option (List.Vector UInt8 (cipher.length - MAC_BYTES)) :=
    fun _ => none
  cryptoBox : List UInt8 → Bool := fun _ => true
  peerKeypair : Bool := false
  isAuthenticated : Bool := false
  randomShift : Fin 10000 := 0

/-- The handler that `ActiveProxy::connect` sets by `onAuthorized` returns. It makes the
`CryptoBox`, and with a peer key the `PeerInfo`, for which the port 0 is an invalid argument. -/
def Env.authorizes (env : Env) (serverPk : List UInt8) (port : Nat) : Bool :=
  env.cryptoBox serverPk && (!env.peerKeypair || port ≠ 0)

/-- `ProxyConnection`. -/
structure ProxyConnection where
  state : ConnectionState := .initializing
  relay : Handle := {}
  upstream : Handle := {}
  upstreamPaused : Bool := false
  upstreamClosed : Bool := true
  disconnectConfirms : Nat := 0
  keepAliveTimestamp : UInt64 := 0
  /-- `closeHandler` is set; the other handlers always are. -/
  closeHandler : Bool := true
  pending : List Request := []
  fault : Option Fault := none
  effects : List Effect := []
  deriving DecidableEq

/-- `ActiveProxy::allow`. -/
def allow (_client : SocketAddress) : Bool := true

/-- The type of a packet: its third byte is read, whatever its size is. -/
def RelayPacket.type (self : RelayPacket) : Except Fault PacketType :=
  match self.memory[2]? with
  | none => .error .overread
  | some flag =>
    match PacketType.valueOf flag with
    | .error _ => .error .exception
    | .ok type => .ok type

namespace ProxyConnection

variable (env : Env) (self : ProxyConnection)

def log (effect : Effect) : ProxyConnection := { self with effects := self.effects ++ [effect] }

/-- An assignment to `state`. -/
def enter (state : ConnectionState) : ProxyConnection :=
  { self with state := state }.log (.enter state self.disconnectConfirms)

def call (call : Call) : ProxyConnection := self.log (.call call)

def throw (fault : Fault) : ProxyConnection := { self with fault := some fault }

def request (request : Request) : ProxyConnection :=
  { self with pending := request :: self.pending }

/-- `uv_close` of the upstream. -/
def uvCloseUpstream : ProxyConnection :=
  { self with upstream := { self.upstream with closing := true } }.request .upstreamClose

/-- `uv_close` of the relay. -/
def uvCloseRelay : ProxyConnection :=
  { self with relay := { self.relay with closing := true } }.request .relayClose

/-- The part of `close` that closes the sockets. -/
def closeHandles : ProxyConnection :=
  if self.upstream.data ∧ self.upstream.closing then self
  else
    let self := if self.upstream.data then self.uvCloseUpstream else self
    if self.relay.data ∧ self.relay.closing then self
    else
      let self := if self.relay.data then self.uvCloseRelay else self
      if self.closeHandler then self.call .closed else self

/-- `ProxyConnection::close`. -/
def close : ProxyConnection :=
  if self.state = .closed then self
  else
    let old := self.state
    let self := self.enter .closed
    let self := if old.toNat ≤ ConnectionState.attaching.toNat then self.call .openFailed else self
    let self := if old = .relaying then self.call .idle else self
    self.closeHandles.log .returned

/-- `ProxyConnection::connectServer`. -/
def connectServer : ProxyConnection :=
  if env.tcpInit then
    let self := { self with relay := { data := true } }
    if env.tcpConnect then self.request .relayConnect
    -- closed without a callback, so `relay.data` stays
    else { self with relay := { data := true, closing := true } }
  else self

/-- `ProxyConnection::establish`. -/
def establish : ProxyConnection := if env.readStart then self else self.close

/-- `ProxyConnection::sendRelayPacket`. -/
def sendRelayPacket (type : PacketType) (handler : WriteCallback) : ProxyConnection :=
  if self.state = .closed then self
  else if env.write type then self.request (.relayWrite handler)
  else self.close

/-- `ProxyConnection::sendAuthenticateRequest`. -/
def sendAuthenticateRequest : ProxyConnection :=
  if self.state = .closed then self
  else (self.enter .authenticating).sendRelayPacket env .auth .none

/-- `ProxyConnection::sendAttachRequest`. -/
def sendAttachRequest : ProxyConnection :=
  if self.state = .closed then self
  else (self.enter .attaching).sendRelayPacket env .attach .none

/-- `ProxyConnection::sendPingRequest`. -/
def sendPingRequest : ProxyConnection := self.sendRelayPacket env .ping .none

/-- `ProxyConnection::sendConnectResponse`. -/
def sendConnectResponse (success : Bool) : ProxyConnection :=
  self.sendRelayPacket env .connectAck (.connectResponse success)

/-- `ProxyConnection::sendDisconnectRequest`. -/
def sendDisconnectRequest : ProxyConnection :=
  if self.state = .closed then self else self.sendRelayPacket env .disconnect .none

/-- `ProxyConnection::sendDisconnectResponse`. -/
def sendDisconnectResponse : ProxyConnection :=
  if self.state = .closed then self else self.sendRelayPacket env .disconnectAck .none

/-- `ProxyConnection::sendDataRequest`. -/
def sendDataRequest : ProxyConnection :=
  let self := self.sendRelayPacket env .data .dataRequest
  if env.relayQueueSize ≥ MAX_RELAY_WRITE_QUEUE_SIZE then { self with upstreamPaused := true }
  else self

/-- `ProxyConnection::closeUpstream2`. -/
def closeUpstream2 : ProxyConnection :=
  if self.state = .closed ∨ self.state = .idling then self
  else
    let self := { self with upstreamClosed := true }
    if ¬ self.upstream.data ∨ self.upstream.closing then self else self.uvCloseUpstream

/-- `ProxyConnection::closeUpstream`. -/
def closeUpstream : ProxyConnection :=
  if self.state = .closed ∨ self.state = .idling ∨ self.upstreamClosed then self
  else
    let self := { self with upstreamClosed := true }
    let self := (self.enter .disconnecting).sendDisconnectRequest env
    if env.shutdown then self.request .upstreamShutdown else self.closeUpstream2

/-- `ProxyConnection::startReadUpstream`. -/
def startReadUpstream : ProxyConnection := if env.readStart then self else self.closeUpstream env

/-- `ProxyConnection::openUpstream`. -/
def openUpstream : ProxyConnection :=
  if env.tcpInit then
    let self := { self with upstream := { data := true }, upstreamClosed := false }
    if env.tcpConnect then self.request .upstreamConnect
    else ((self.closeUpstream2.enter .idling).call .idle).sendConnectResponse env false
  else ((self.sendConnectResponse env false).enter .idling).call .idle

/-- `ProxyConnection::onChallenge`. -/
def onChallenge (size : Nat) : ProxyConnection :=
  if size < 32 ∨ size > 256 then self
  else if env.isAuthenticated then self.sendAttachRequest env
  else self.sendAuthenticateRequest env

/-- What `processRelayPacket` does with an ERROR packet. -/
def onError (packet : RelayPacket) : ProxyConnection :=
  if packet.size < PACKET_HEADER_BYTES + MAC_BYTES then self.throw .underflow
  else
    match env.decrypt (packet.bytes.drop PACKET_HEADER_BYTES) with
    | none => self.throw .exception
    -- the error code is in the first two bytes
    | some plain => if plain.toList.length < 2 then self.throw .overread else self.close

/-- `ProxyConnection::onAuthenticateResponse`. -/
def onAuthenticateResponse (packet : RelayPacket) : ProxyConnection :=
  if packet.size < AUTH_ACK_SIZE then self.close
  else
    let cipher := (packet.bytes.drop PACKET_HEADER_BYTES).take (AUTH_ACK_SIZE - PACKET_HEADER_BYTES)
    match env.decryptWithNode cipher with
    | none => self.throw .exception
    | some plain =>
      let serverPk := plain.toList.take PUBLIC_KEY_BYTES
      let port := ntohs (plain.toList.drop PUBLIC_KEY_BYTES)
      let maxConnections := ntohs (plain.toList.drop (PUBLIC_KEY_BYTES + 2))
      let domainEnabled := plain.toList.getD (PUBLIC_KEY_BYTES + 4) 0 ≠ 0
      let self := self.call (.setMaxConnections maxConnections)
      if env.authorizes serverPk port then
        ((self.call (.authorized serverPk port domainEnabled)).enter .idling).call .opened
      else self.throw .exception

/-- `ProxyConnection::onAttachResponse`. -/
def onAttachResponse : ProxyConnection := (self.enter .idling).call .opened

/-- `ProxyConnection::onPingResponse`. -/
def onPingResponse : ProxyConnection := self

/-- The address of the client in a CONNECT packet; `none` if it does not decrypt or is no
address. -/
def connectClient (packet : RelayPacket) : Option SocketAddress := do
  let cipher :=
    (packet.bytes.drop PACKET_HEADER_BYTES).take (CONNECT_REQ_SIZE - PACKET_HEADER_BYTES)
  let plain ← env.decrypt cipher
  let addrLen := (plain.toList.getD 0 0).toNat
  let port := UInt16.ofNat (ntohs (plain.toList.drop 17))
  SocketAddress.ofBlob? ((plain.toList.drop 1).take addrLen) port

/-- `ProxyConnection::onConnectRequest`. -/
def onConnectRequest (packet : RelayPacket) : ProxyConnection :=
  if packet.size < CONNECT_REQ_SIZE then self.close
  else
    let self := (self.enter .relaying).call .busy
    match connectClient env packet with
    | none => self.throw .exception
    | some client =>
      if allow client then self.openUpstream env
      else ((self.sendConnectResponse env false).enter .idling).call .idle

/-- The count of the confirmations at the end of `onDisconnectRequest` and
`onDisconnectResponse`. -/
def confirmDisconnect : ProxyConnection :=
  let self := { self with disconnectConfirms := self.disconnectConfirms + 1 }
  if self.disconnectConfirms = 2 then
    ({ self with disconnectConfirms := 0 }.enter .idling).call .idle
  else self

/-- `ProxyConnection::onDisconnectRequest`. -/
def onDisconnectRequest : ProxyConnection :=
  ((self.closeUpstream env).sendDisconnectResponse env).confirmDisconnect

/-- `ProxyConnection::onDisconnectResponse`. -/
def onDisconnectResponse : ProxyConnection := self.confirmDisconnect

/-- `ProxyConnection::onDataRequest`. -/
def onDataRequest (packet : RelayPacket) : ProxyConnection :=
  if packet.size < PACKET_HEADER_BYTES + MAC_BYTES then self.throw .underflow
  else
    match env.decrypt (packet.bytes.drop PACKET_HEADER_BYTES) with
    | none => self.throw .exception
    | some _ => if env.upstreamWrite then self.request .upstreamWrite else self.closeUpstream env

/-- The switch over the type of a packet in `processRelayPacket`. -/
def dispatch (packet : RelayPacket) : PacketType → ProxyConnection
  | .authAck => self.onAuthenticateResponse env packet
  | .attachAck => self.onAttachResponse
  | .pingAck => self.onPingResponse
  | .connect => self.onConnectRequest env packet
  | .data => self.onDataRequest env packet
  | .disconnect => self.onDisconnectRequest env
  | .disconnectAck => self.onDisconnectResponse
  | _ => self

/-- `ProxyConnection::processRelayPacket`. -/
def processRelayPacket (packet : RelayPacket) : ProxyConnection :=
  if self.state = .initializing then self.onChallenge env (sizeOf ((packet.size : Int) - 2))
  else
    match packet.type with
    | .error fault => self.throw fault
    | .ok type =>
      if type = .error then self.onError env packet
      else if self.state.accept type then self.dispatch env packet type
      else self.close

/-- Nothing came from the relay for too long. -/
def isDead : Bool :=
  (env.now - self.keepAliveTimestamp).toNat ≥ MAX_KEEP_ALIVE_RETRY * KEEP_ALIVE_INTERVAL

/-- `ProxyConnection::periodicCheck`. -/
def periodicCheck : ProxyConnection :=
  if self.state = .relaying then self
  -- Dead connection check
  else if self.isDead env then self.close
  -- Keep-alive check
  else if self.state = .idling ∧
      (env.now - self.keepAliveTimestamp).toNat ≥ KEEP_ALIVE_INTERVAL - env.randomShift then
    self.sendPingRequest env
  else self

/-- The handler of a packet that was written to the relay. -/
def written : WriteCallback → ProxyConnection
  | .none => self
  | .connectResponse success =>
    if success ∧ self.upstream.data then self.startReadUpstream env else self
  | .dataRequest =>
    if self.upstreamPaused ∧ env.relayQueueSize ≤ MAX_RELAY_WRITE_QUEUE_SIZE / 4 then
      { self with upstreamPaused := false }.startReadUpstream env
    else self

/-- The callback of a request, with its outcome. -/
def complete : Request → Bool → ProxyConnection
  | .relayConnect, true => self.establish env
  | .relayConnect, false => self.close
  | .relayWrite handler, true => self.written env handler
  | .relayWrite _, false => self.close
  | .relayClose, _ => { self with relay := { self.relay with data := false } }
  | .upstreamConnect, true => self.sendConnectResponse env true
  | .upstreamConnect, false =>
    ((self.closeUpstream2.enter .idling).call .idle).sendConnectResponse env false
  | .upstreamWrite, true => self
  | .upstreamWrite, false => self.closeUpstream env
  | .upstreamShutdown, _ => self.closeUpstream2
  | .upstreamClose, _ => { self with upstream := { self.upstream with data := false } }

end ProxyConnection

/-- What happens to a connection. -/
inductive Event where
  /-- Bytes from the relay; the packets in them follow. -/
  | relayRead
  | relayPacket (packet : RelayPacket)
  /-- EOF or an error. -/
  | relayError
  | upstreamRead
  /-- EOF or an error. -/
  | upstreamError
  /-- The end of a request; nothing happens if there is no such request. -/
  | complete (request : Request) (ok : Bool)
  | periodicCheck
  | close
  deriving DecidableEq

namespace ProxyConnection

variable (env : Env) (self : ProxyConnection)

def react : Event → ProxyConnection
  | .relayRead => { self with keepAliveTimestamp := env.now }
  | .relayPacket packet => self.processRelayPacket env packet
  | .relayError => self.close
  | .upstreamRead => self.sendDataRequest env
  | .upstreamError => self.closeUpstream env
  | .complete request ok =>
    if request ∈ self.pending then
      { self with pending := self.pending.erase request }.complete env request ok
    else self
  | .periodicCheck => self.periodicCheck env
  | .close => self.close

/-- A callback; there is none after a fault. -/
def step (event : Event) : ProxyConnection :=
  if self.fault.isSome then self else self.react env event

/-- The callbacks, each with what it gets from outside. -/
def run (events : List (Env × Event)) : ProxyConnection :=
  events.foldl (fun self e => self.step e.1 e.2) self

/-- A connection as `ActiveProxy::connect` makes it. -/
def create : ProxyConnection :=
  { keepAliveTimestamp := env.now : ProxyConnection }.connectServer env

end ProxyConnection

namespace ProxyConnection

variable {env : Env} {self : ProxyConnection}

/-! ## What the functions add to the effects -/

theorem create_spec (env : Env) : (create env).state = .initializing ∧
    (create env).effects = [] := by
  unfold create connectServer
  dsimp only
  split_ifs <;> exact ⟨rfl, rfl⟩

/-- The same to whoever looks at the connection from outside, and with the same handler. -/
structure Alike (a b : ProxyConnection) : Prop where
  state : b.state = a.state
  confirms : b.disconnectConfirms = a.disconnectConfirms
  upstream : b.upstreamClosed = a.upstreamClosed
  handler : b.closeHandler = a.closeHandler
  effects : b.effects = a.effects
  fault : b.fault = a.fault

theorem Alike.refl (a : ProxyConnection) : Alike a a := ⟨rfl, rfl, rfl, rfl, rfl, rfl⟩

theorem Alike.trans {a b c : ProxyConnection} (h : Alike a b) (h' : Alike b c) : Alike a c :=
  ⟨h'.state.trans h.state, h'.confirms.trans h.confirms, h'.upstream.trans h.upstream,
    h'.handler.trans h.handler, h'.effects.trans h.effects, h'.fault.trans h.fault⟩

theorem alike_uvCloseUpstream (self : ProxyConnection) :
    Alike self (if self.upstream.data then self.uvCloseUpstream else self) := by
  split
  · exact ⟨rfl, rfl, rfl, rfl, rfl, rfl⟩
  · exact .refl self

theorem alike_uvCloseRelay (self : ProxyConnection) :
    Alike self (if self.relay.data then self.uvCloseRelay else self) := by
  split
  · exact ⟨rfl, rfl, rfl, rfl, rfl, rfl⟩
  · exact .refl self

/-- The sockets are closed, and then the handler may be called. -/
theorem closeHandles_cases (self : ProxyConnection) : ∃ closed, Alike self closed ∧
    (self.closeHandles = closed ∨
      self.closeHandler = true ∧ self.closeHandles = closed.call .closed) := by
  unfold closeHandles
  split
  · exact ⟨self, .refl self, .inl rfl⟩
  have hfirst := alike_uvCloseUpstream self
  generalize (if self.upstream.data then self.uvCloseUpstream else self) = first at hfirst ⊢
  dsimp only
  split
  · exact ⟨first, hfirst, .inl rfl⟩
  have hsecond := hfirst.trans (alike_uvCloseRelay first)
  generalize (if first.relay.data then first.uvCloseRelay else first) = second at hsecond ⊢
  split
  · rename_i hhandler
    exact ⟨second, hsecond, .inr ⟨hsecond.handler.symm.trans hhandler, rfl⟩⟩
  · exact ⟨second, hsecond, .inl rfl⟩

theorem closeHandles_closeHandler (self : ProxyConnection) : self.closeHandles.closeHandler =
    self.closeHandler := by
  obtain ⟨closed, halike, heq | ⟨-, heq⟩⟩ := closeHandles_cases self
  · rw [heq, halike.handler]
  · rw [heq]
    exact halike.handler

theorem closeHandles_spec (self : ProxyConnection) :
    self.closeHandles.state = self.state ∧
      self.closeHandles.disconnectConfirms = self.disconnectConfirms ∧
      self.closeHandles.upstreamClosed = self.upstreamClosed ∧
      ∃ calls, calls ⊆ [.call .closed] ∧ (self.closeHandler = false → calls = []) ∧
        self.closeHandles.effects = self.effects ++ calls := by
  obtain ⟨closed, halike, heq | ⟨hhandler, heq⟩⟩ := closeHandles_cases self
  · rw [heq]
    refine ⟨halike.state, halike.confirms, halike.upstream, [], List.nil_subset _, fun _ => rfl, ?_⟩
    rw [halike.effects, List.append_nil]
  · rw [heq]
    refine ⟨halike.state, halike.confirms, halike.upstream, [.call .closed],
      List.Subset.refl _, fun hnone => ?_, ?_⟩
    · rw [hhandler] at hnone
      cases hnone
    · rw [← halike.effects]
      rfl

/-- The handlers that `close` calls first, from the state that it finds. -/
def closeCalls (state : ConnectionState) : List Effect :=
  (if state.toNat ≤ ConnectionState.attaching.toNat then [.call .openFailed] else []) ++
    if state = .relaying then [.call .idle] else []

theorem closeCalls_subset (state : ConnectionState) : closeCalls state ⊆
    [.call .openFailed, .call .idle] := by
  unfold closeCalls
  split_ifs <;> simp

theorem close_of_closed (h : self.state = .closed) : self.close = self := if_pos h

theorem close_spec (h : self.state ≠ .closed) :
    self.close.state = .closed ∧ self.close.disconnectConfirms = self.disconnectConfirms ∧
      self.close.upstreamClosed = self.upstreamClosed ∧
      ∃ calls, calls ⊆ [.call .closed] ∧ (self.closeHandler = false → calls = []) ∧
        self.close.effects = self.effects ++
          (.enter .closed self.disconnectConfirms :: (closeCalls self.state ++ calls) ++
            [.returned]) := by
  unfold close
  rw [if_neg h]
  dsimp only
  -- the connection when the sockets are closed
  generalize hself' : (if self.state = .relaying then _ else _ : ProxyConnection) = self'
  have hbefore : self'.state = .closed ∧ self'.disconnectConfirms = self.disconnectConfirms ∧
      self'.upstreamClosed = self.upstreamClosed ∧ self'.closeHandler = self.closeHandler ∧
      self'.effects = self.effects ++ .enter .closed self.disconnectConfirms ::
        closeCalls self.state := by
    rw [← hself', closeCalls]
    split_ifs <;> simp [call, enter, log]
  obtain ⟨hstate, hconfirms, hupstream, hhandler, heffects⟩ := hbefore
  obtain ⟨hstate', hconfirms', hupstream', calls, hcalls, hnone, heffects'⟩ :=
    closeHandles_spec self'
  rw [hhandler] at hnone
  refine ⟨hstate'.trans hstate, hconfirms'.trans hconfirms, hupstream'.trans hupstream, calls,
    hcalls, hnone, ?_⟩
  rw [log, heffects', heffects]
  simp

/-- Without its handler the end of a connection is not told. -/
theorem close_not_called (self : ProxyConnection) (h : self.closeHandler = false) :
    .call .closed ∉ self.close.effects.drop self.effects.length := by
  by_cases hclosed : self.state = .closed
  · rw [close_of_closed hclosed, List.drop_length]
    exact List.not_mem_nil
  · obtain ⟨-, -, -, calls, -, hnone, heffects⟩ := close_spec hclosed
    rw [heffects, List.drop_left, hnone h, List.append_nil]
    intro hmem
    have hfirst : Effect.call .closed ∉ closeCalls self.state := fun hmem => by
      simpa using closeCalls_subset _ hmem
    simp [hfirst] at hmem

theorem close_state (self : ProxyConnection) : self.close.state = .closed := by
  by_cases hclosed : self.state = .closed
  · rwa [close_of_closed hclosed]
  · exact (close_spec hclosed).1

theorem closeUpstream2_spec (self : ProxyConnection) :
    self.closeUpstream2.state = self.state ∧ self.closeUpstream2.effects = self.effects ∧
      self.closeUpstream2.disconnectConfirms = self.disconnectConfirms ∧
      (self.upstreamClosed → self.closeUpstream2.upstreamClosed) := by
  unfold closeUpstream2
  dsimp only
  split_ifs
  · exact ⟨rfl, rfl, rfl, id⟩
  · exact ⟨rfl, rfl, rfl, fun _ => rfl⟩
  · exact ⟨rfl, rfl, rfl, fun _ => rfl⟩

theorem extends_of_eq {effects effects' : List Effect} (h : effects' = effects) :
    effects <+: effects' :=
  h ▸ List.prefix_rfl

theorem close_extends (self : ProxyConnection) : self.effects <+: self.close.effects := by
  by_cases h : self.state = .closed
  · exact extends_of_eq (by rw [close_of_closed h])
  · obtain ⟨-, -, -, calls, -, -, heffects⟩ := close_spec h
    exact ⟨_, heffects.symm⟩

theorem enter_extends (self : ProxyConnection) (state : ConnectionState) :
    self.effects <+: (self.enter state).effects := List.prefix_append ..

theorem call_extends (self : ProxyConnection) (call : Call) : self.effects <+:
    (self.call call).effects :=
  List.prefix_append ..

theorem sendRelayPacket_extends (self : ProxyConnection) (type : PacketType)
    (handler : WriteCallback) :
    self.effects <+: (self.sendRelayPacket env type handler).effects := by
  unfold sendRelayPacket
  split_ifs
  · exact List.prefix_rfl
  · exact List.prefix_rfl
  · exact close_extends self

theorem sendDisconnectRequest_eq (self : ProxyConnection) :
    self.sendDisconnectRequest env = self.sendRelayPacket env .disconnect .none := by
  unfold sendDisconnectRequest sendRelayPacket
  split_ifs <;> rfl

theorem sendDisconnectResponse_eq (self : ProxyConnection) :
    self.sendDisconnectResponse env = self.sendRelayPacket env .disconnectAck .none := by
  unfold sendDisconnectResponse sendRelayPacket
  split_ifs <;> rfl

theorem sendRelayPacket_of_write {type : PacketType} {handler : WriteCallback}
    (hopen : self.state ≠ .closed)
    (hwrite : env.write type) : self.sendRelayPacket env type handler =
      self.request (.relayWrite handler) := by
  unfold sendRelayPacket
  rw [if_neg hopen, if_pos hwrite]

theorem sendRelayPacket_of_not_write {type : PacketType} {handler : WriteCallback}
    (hwrite : ¬ env.write type) : self.sendRelayPacket env type handler = self.close := by
  unfold sendRelayPacket
  split_ifs with hclosed
  · exact (close_of_closed hclosed).symm
  · rfl

theorem closeUpstream_of_skip (h : self.state = .closed ∨ self.state = .idling ∨
    self.upstreamClosed) :
    self.closeUpstream env = self := if_pos h

/-- What `closeUpstream` does to the connection besides its socket, when the upstream is open. -/
theorem closeUpstream_spec (env : Env)
    (h : ¬ (self.state = .closed ∨ self.state = .idling ∨ self.upstreamClosed)) :
    let sent :=
      ({ self with upstreamClosed := true }.enter .disconnecting).sendRelayPacket env
        .disconnect .none
    (self.closeUpstream env).state = sent.state ∧ (self.closeUpstream env).effects = sent.effects ∧
      (self.closeUpstream env).disconnectConfirms = sent.disconnectConfirms ∧
      (sent.upstreamClosed → (self.closeUpstream env).upstreamClosed) := by
  unfold closeUpstream
  rw [if_neg h]
  dsimp only
  rw [sendDisconnectRequest_eq]
  split_ifs
  · exact ⟨rfl, rfl, rfl, id⟩
  · exact closeUpstream2_spec _

theorem close_confirms (self : ProxyConnection) : self.close.disconnectConfirms =
    self.disconnectConfirms := by
  by_cases hclosed : self.state = .closed
  · rw [close_of_closed hclosed]
  · exact (close_spec hclosed).2.1

theorem sendRelayPacket_confirms (self : ProxyConnection) (type : PacketType)
    (handler : WriteCallback) :
    (self.sendRelayPacket env type handler).disconnectConfirms = self.disconnectConfirms := by
  unfold sendRelayPacket
  split_ifs
  · rfl
  · rfl
  · exact close_confirms self

theorem closeUpstream_confirms (self : ProxyConnection) :
    (self.closeUpstream env).disconnectConfirms = self.disconnectConfirms := by
  by_cases hskip : self.state = .closed ∨ self.state = .idling ∨ self.upstreamClosed
  · rw [closeUpstream_of_skip hskip]
  · rw [(closeUpstream_spec env hskip).2.2.1, sendRelayPacket_confirms]
    rfl

theorem closeUpstream_extends (self : ProxyConnection) :
    self.effects <+: (self.closeUpstream env).effects := by
  have hsend :
      self.effects <+: (({ self with upstreamClosed := true }.enter .disconnecting).sendRelayPacket
      env .disconnect .none).effects :=
    List.IsPrefix.trans (enter_extends { self with upstreamClosed := true } _)
      (sendRelayPacket_extends _ _ _)
  unfold closeUpstream
  dsimp only
  split_ifs
  · exact List.prefix_rfl
  · rw [sendDisconnectRequest_eq]
    exact hsend
  · rw [sendDisconnectRequest_eq, (closeUpstream2_spec _).2.1]
    exact hsend

theorem startReadUpstream_extends (self : ProxyConnection) :
    self.effects <+: (self.startReadUpstream env).effects := by
  unfold startReadUpstream
  split_ifs
  · exact List.prefix_rfl
  · exact closeUpstream_extends self

/-- A connection attempt to the upstream that failed. -/
theorem connectFailed_extends (self : ProxyConnection) :
    self.effects <+: (((self.closeUpstream2.enter .idling).call .idle).sendConnectResponse env
      false).effects := by
  refine List.IsPrefix.trans ?_ (sendRelayPacket_extends _ _ _)
  refine List.IsPrefix.trans ?_ (call_extends _ _)
  refine List.IsPrefix.trans ?_ (enter_extends _ _)
  exact extends_of_eq (closeUpstream2_spec self).2.1

theorem connectRefused_extends (self : ProxyConnection) :
    self.effects <+: (((self.sendConnectResponse env false).enter .idling).call .idle).effects := by
  refine List.IsPrefix.trans ?_ (call_extends _ _)
  exact (sendRelayPacket_extends _ _ _).trans (enter_extends _ _)

theorem openUpstream_extends (self : ProxyConnection) : self.effects <+:
    (self.openUpstream env).effects := by
  unfold openUpstream
  split_ifs
  · exact List.prefix_rfl
  · exact connectFailed_extends { self with upstream := { data := true }, upstreamClosed := false }
  · exact connectRefused_extends self

theorem onChallenge_extends (self : ProxyConnection) (size : Nat) :
    self.effects <+: (self.onChallenge env size).effects := by
  unfold onChallenge sendAttachRequest sendAuthenticateRequest
  split_ifs
  · exact List.prefix_rfl
  · exact List.prefix_rfl
  · exact (enter_extends _ _).trans (sendRelayPacket_extends _ _ _)
  · exact List.prefix_rfl
  · exact (enter_extends _ _).trans (sendRelayPacket_extends _ _ _)

theorem onError_extends (self : ProxyConnection) (packet : RelayPacket) :
    self.effects <+: (self.onError env packet).effects := by
  unfold onError
  split_ifs
  · exact List.prefix_rfl
  · split
    · exact List.prefix_rfl
    · split_ifs
      · exact List.prefix_rfl
      · exact close_extends self

theorem onAuthenticateResponse_extends (self : ProxyConnection) (packet : RelayPacket) :
    self.effects <+: (self.onAuthenticateResponse env packet).effects := by
  unfold onAuthenticateResponse
  split_ifs
  · exact close_extends self
  · dsimp only
    split
    · exact List.prefix_rfl
    · split_ifs
      · exact (call_extends _ _).trans ((call_extends _ _).trans
          ((enter_extends _ _).trans (call_extends _ _)))
      · exact call_extends self _

theorem onConnectRequest_extends (self : ProxyConnection) (packet : RelayPacket) :
    self.effects <+: (self.onConnectRequest env packet).effects := by
  have hbusy : self.effects <+: ((self.enter .relaying).call .busy).effects :=
    (enter_extends _ _).trans (call_extends _ _)
  unfold onConnectRequest
  split_ifs
  · exact close_extends self
  · dsimp only
    split
    · exact hbusy
    · split_ifs
      · exact hbusy.trans (openUpstream_extends _)
      · exact hbusy.trans (connectRefused_extends _)

theorem confirmDisconnect_extends (self : ProxyConnection) :
    self.effects <+: self.confirmDisconnect.effects := by
  unfold confirmDisconnect
  dsimp only
  split_ifs
  · exact (enter_extends { self with disconnectConfirms := 0 } _).trans (call_extends _ _)
  · exact List.prefix_rfl

theorem onDisconnectRequest_extends (self : ProxyConnection) :
    self.effects <+: (self.onDisconnectRequest env).effects := by
  unfold onDisconnectRequest
  rw [sendDisconnectResponse_eq]
  exact (closeUpstream_extends _).trans ((sendRelayPacket_extends _ _ _).trans
    (confirmDisconnect_extends _))

theorem onDataRequest_extends (self : ProxyConnection) (packet : RelayPacket) :
    self.effects <+: (self.onDataRequest env packet).effects := by
  unfold onDataRequest
  split_ifs
  · exact List.prefix_rfl
  · split
    · exact List.prefix_rfl
    · exact List.prefix_rfl
  · split
    · exact List.prefix_rfl
    · exact closeUpstream_extends self

theorem dispatch_extends (self : ProxyConnection) (packet : RelayPacket) (type : PacketType) :
    self.effects <+: (self.dispatch env packet type).effects := by
  cases type with
  | authAck => exact onAuthenticateResponse_extends self packet
  | attachAck => exact (enter_extends _ _).trans (call_extends _ _)
  | connect => exact onConnectRequest_extends self packet
  | data => exact onDataRequest_extends self packet
  | disconnect => exact onDisconnectRequest_extends self
  | disconnectAck => exact confirmDisconnect_extends self
  | _ => exact List.prefix_rfl

theorem processRelayPacket_extends (self : ProxyConnection) (packet : RelayPacket) :
    self.effects <+: (self.processRelayPacket env packet).effects := by
  unfold processRelayPacket
  split_ifs
  · exact onChallenge_extends self _
  · split
    · exact List.prefix_rfl
    · split_ifs
      · exact onError_extends self packet
      · exact dispatch_extends self packet _
      · exact close_extends self

theorem periodicCheck_extends (self : ProxyConnection) :
    self.effects <+: (self.periodicCheck env).effects := by
  unfold periodicCheck
  split_ifs
  · exact List.prefix_rfl
  · exact close_extends self
  · exact sendRelayPacket_extends self _ _
  · exact List.prefix_rfl

theorem written_extends (self : ProxyConnection) (handler : WriteCallback) :
    self.effects <+: (self.written env handler).effects := by
  cases handler with
  | none => exact List.prefix_rfl
  | connectResponse success =>
    simp only [written]
    split_ifs
    · exact startReadUpstream_extends self
    · exact List.prefix_rfl
  | dataRequest =>
    simp only [written]
    split_ifs
    · exact startReadUpstream_extends { self with upstreamPaused := false }
    · exact List.prefix_rfl

theorem complete_extends (self : ProxyConnection) (request : Request) (ok : Bool) :
    self.effects <+: (self.complete env request ok).effects := by
  unfold complete
  split
  · unfold establish
    split_ifs
    · exact List.prefix_rfl
    · exact close_extends self
  · exact close_extends self
  · exact written_extends self _
  · exact close_extends self
  · exact List.prefix_rfl
  · exact sendRelayPacket_extends self _ _
  · exact connectFailed_extends self
  · exact List.prefix_rfl
  · exact closeUpstream_extends self
  · exact extends_of_eq (closeUpstream2_spec self).2.1
  · exact List.prefix_rfl

/-- The effects of a callback come after those that were there. -/
theorem step_extends (self : ProxyConnection) (event : Event) :
    self.effects <+: (self.step env event).effects := by
  unfold step
  split_ifs
  · exact List.prefix_rfl
  · cases event with
    | relayRead => exact List.prefix_rfl
    | relayPacket packet => exact processRelayPacket_extends self packet
    | relayError => exact close_extends self
    | upstreamRead =>
      show _ <+: (self.sendDataRequest env).effects
      unfold sendDataRequest
      dsimp only
      split_ifs
      · exact sendRelayPacket_extends self _ _
      · exact sendRelayPacket_extends self _ _
    | upstreamError => exact closeUpstream_extends self
    | complete request ok =>
      show _ <+: (if _ then _ else _ : ProxyConnection).effects
      split_ifs
      · exact complete_extends { self with pending := self.pending.erase request } request ok
      · exact List.prefix_rfl
    | periodicCheck => exact periodicCheck_extends self
    | close => exact close_extends self

@[simp] theorem run_nil (self : ProxyConnection) : self.run [] = self := rfl

@[simp] theorem run_concat (self : ProxyConnection) (events : List (Env × Event))
    (e : Env × Event) :
    self.run (events ++ [e]) = (self.run events).step e.1 e.2 := List.foldl_concat ..

end ProxyConnection

/-! ## The packets of a read -/

namespace Reader

variable {σ : Type} {process : σ → RelayPacket → σ}

theorem readLoop_packets {fuel : Nat} {self self' : Reader σ} {data : List UInt8}
    (h : readLoop process fuel self data = some self') :
    ∃ packets : List RelayPacket, self'.connection = packets.foldl process self.connection := by
  induction fuel generalizing self data with
  | zero => simp [readLoop] at h
  | succ fuel ih =>
    unfold readLoop at h
    split_ifs at h
    · cases h
      exact ⟨[], rfl⟩
    · cases h
      exact ⟨[], rfl⟩
    · cases h
      exact ⟨[], rfl⟩
    · obtain ⟨packets, hpackets⟩ := ih h
      exact ⟨⟨data, ntohs data⟩ :: packets, hpackets⟩

theorem readPacket_packets {self self' : Reader σ} {data : List UInt8}
    (h : readPacket process self data = some self') :
    ∃ packets : List RelayPacket, self'.connection = packets.foldl process self.connection := by
  unfold readPacket at h
  dsimp only at h
  split_ifs at h
  · cases h
    exact ⟨[], rfl⟩
  · unfold readRest at h
    obtain ⟨packets, hpackets⟩ := readLoop_packets h
    exact ⟨_ :: packets, hpackets⟩

/-- A read hands packets to `processRelayPacket`, one after the other. -/
theorem onRelayRead_packets {self self' : Reader σ} {data : List UInt8}
    (h : onRelayRead process self data = some self') :
    ∃ packets : List RelayPacket, self'.connection = packets.foldl process self.connection := by
  unfold onRelayRead at h
  dsimp only at h
  split_ifs at h
  · cases h
    exact ⟨[], rfl⟩
  · have := readPacket_packets h
    exact this
  · exact readPacket_packets h
  · unfold readRest at h
    exact readLoop_packets h

end Reader

namespace ProxyConnection

/-- `processRelayPacket` as `onRelayRead` calls it: the n-th packet of a read gets `envs n`. -/
def handle (envs : Nat → Env) (self : Nat × ProxyConnection) (packet : RelayPacket) :
    Nat × ProxyConnection :=
  (self.1 + 1, self.2.step (envs self.1) (.relayPacket packet))

theorem foldl_handle (envs : Nat → Env) (packets : List RelayPacket) (n : Nat)
    (self : ProxyConnection) :
    (packets.foldl (handle envs) (n, self)).2 =
      self.run ((packets.zipIdx n).map fun p => (envs p.2, .relayPacket p.1)) := by
  induction packets generalizing n self with
  | nil => rfl
  | cons packet packets ih => exact ih (n + 1) _

/-- A read of the relay is a run of the packets in it. -/
theorem onRelayRead_run {envs : Nat → Env} {self self' : Reader (Nat × ProxyConnection)}
    {data : List UInt8} (h : Reader.onRelayRead (handle envs) self data = some self') :
    ∃ packets : List RelayPacket, self'.connection.2 = self.connection.2.run
      ((packets.zipIdx self.connection.1).map fun p => (envs p.2, .relayPacket p.1)) := by
  obtain ⟨packets, hpackets⟩ := Reader.onRelayRead_packets h
  exact ⟨packets, by rw [hpackets, foldl_handle]⟩

/-- An AUTH packet that an idle connection does not accept closes the relay, so the two bytes after
it, the size 0 of a cut header, are left in the sticky buffer for nobody. -/
example :
    (Reader.onRelayRead (handle fun _ => {})
      ⟨(0, { state := .idling, relay := { data := true } }), []⟩ [0, 3, 0, 0, 0]).map
        (fun after => (after.connection.2.relay.closing, after.stickyBuffer)) =
      some (true, [0, 0]) := by
  decide

end ProxyConnection

end ActiveProxy

end Boson
