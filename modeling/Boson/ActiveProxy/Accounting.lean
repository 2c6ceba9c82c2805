import Boson.ActiveProxy.Closed

/-!
# The calls of `onBusy` and `onIdle` (`src/addons/activeproxy/connection.cc`)

A connection calls `onBusy` when it enters `Relaying`, and `onIdle` when it leaves `Relaying` or
`Disconnecting` for `Idling`. But `close` calls `onIdle` for `Relaying` only, a connection attempt
to the upstream that fails calls it in any state, and so does the second confirmation of a
disconnect.

* `Accounts`: the calls of a connection come in turns and fit its state, for all the functions.
* `Accounts.step`: so it stays under `Accountable`, which says what a callback must not come to.
-/

namespace Boson

namespace ActiveProxy

/-! ## The calls of a connection -/

/-- A call of `onBusy` or `onIdle` in its turn: `busy` tells whether the last one was `onBusy`. -/
def turn (busy : Bool) : Effect → Option Bool
  | .call .busy => if busy then none else some true
  | .call .idle => if busy then some false else none
  | _ => some busy

/-- The calls of `onBusy` and `onIdle` come in turns. -/
def alternate (busy : Bool) (effects : List Effect) : Option Bool := effects.foldlM turn busy

theorem alternate_append {busy busy' : Bool} {effects : List Effect}
    (h : alternate busy effects = some busy')
    (effects' : List Effect) : alternate busy (effects ++ effects') = alternate busy' effects' := by
  unfold alternate at *
  rw [List.foldlM_append, h]
  rfl

theorem alternate_of_not_mem {effects : List Effect} (hbusy : .call .busy ∉ effects)
    (hidle : .call .idle ∉ effects) (busy : Bool) : alternate busy effects = some busy := by
  induction effects with
  | nil => rfl
  | cons effect effects ih =>
    rw [List.mem_cons, not_or] at hbusy hidle
    have hturn : turn busy effect = some busy := by
      unfold turn
      split
      · exact absurd rfl hbusy.1
      · exact absurd rfl hidle.1
      · rfl
    rw [alternate, List.foldlM_cons, hturn]
    exact ih hbusy.2 hidle.2

/-- Each `onBusy` has its `onIdle`, but the last one if it is open. -/
theorem count_of_alternate {busy : Bool} {effects : List Effect}
    (h : alternate false effects = some busy) :
    effects.count (.call .busy) = effects.count (.call .idle) + busy.toNat := by
  induction effects using List.reverseRecOn generalizing busy with
  | nil =>
    cases h
    rfl
  | append_singleton effects effect ih =>
    cases hbefore : alternate false effects with
    | none =>
      unfold alternate at *
      rw [List.foldlM_append, hbefore] at h
      cases h
    | some before =>
      have hcount := ih hbefore
      rw [alternate_append hbefore, alternate, List.foldlM_cons] at h
      rw [List.count_append, List.count_append]
      unfold turn at h
      split at h
      · cases before with
        | true => cases h
        | false =>
          cases h
          simp_all
      · cases before with
        | false => cases h
        | true =>
          cases h
          simp_all
      · rename_i hbusy hidle
        cases h
        have hbusy' : [effect].count (.call .busy) = 0 :=
          List.count_eq_zero.mpr (by simpa using Ne.symm hbusy)
        have hidle' : [effect].count (.call .idle) = 0 :=
          List.count_eq_zero.mpr (by simpa using Ne.symm hidle)
        omega

namespace ProxyConnection

variable {env : Env} {self : ProxyConnection}

/-- The connection is at work. -/
def inFlight (self : ProxyConnection) : Bool :=
  self.state = .relaying || self.state = .disconnecting

/-- If `closeUpstream` has something to close, its DISCONNECT can be sent. -/
def ClosesUpstream (env : Env) (self : ProxyConnection) : Prop :=
  self.inFlight → ¬ self.upstreamClosed → env.write .disconnect

/-- The handler of a written packet starts to read from the upstream. -/
def StartsReading (env : Env) (self : ProxyConnection) : WriteCallback → Prop
  | .none => False
  | .connectResponse success => success ∧ self.upstream.data
  | .dataRequest => self.upstreamPaused ∧ env.relayQueueSize ≤ MAX_RELAY_WRITE_QUEUE_SIZE / 4

/-- A request comes to its end without harm to the balance. -/
def Completes (env : Env) (self : ProxyConnection) : Request → Bool → Prop
  | .relayConnect, ok => self.state = .disconnecting → ok ∧ env.readStart
  | .relayWrite handler, true =>
    self.StartsReading env handler → env.readStart ∨ self.ClosesUpstream env
  | .relayWrite _, false => self.state ≠ .disconnecting
  | .upstreamConnect, true => self.state = .disconnecting → env.write .connectAck
  | .upstreamConnect, false => self.inFlight ∧ self.disconnectConfirms = 0
  | .upstreamWrite, false => self.ClosesUpstream env
  | _, _ => True

/-- The callback keeps the calls of the connection in balance: nothing closes it while it is
disconnecting, a connection attempt to the upstream does not fail after it has left `Relaying` and
got a confirmation, and the writes succeed after which `Idling` is entered in any case. -/
def Accountable (env : Env) (self : ProxyConnection) : Event → Prop
  | .relayRead => True
  | .relayPacket packet =>
    (∀ type, packet.type = .ok type → self.state = .disconnecting → self.state.accept type) ∧
    (self.Handles packet .connect → CONNECT_REQ_SIZE ≤ packet.size →
      (connectClient env packet).isSome → env.tcpInit ∨ env.write .connectAck) ∧
    (self.Handles packet .data → env.upstreamWrite ∨ self.ClosesUpstream env) ∧
    (self.Handles packet .disconnect → self.ClosesUpstream env ∧ (env.write .disconnectAck ∨
      self.state = .relaying ∧ self.upstreamClosed ∧ self.disconnectConfirms = 0))
  | .relayError => self.state ≠ .disconnecting
  | .upstreamRead => self.state = .disconnecting → env.write .data
  | .upstreamError => self.ClosesUpstream env
  | .complete request ok => request ∈ self.pending → self.Completes env request ok
  | .periodicCheck => self.state = .disconnecting → ¬ self.isDead env
  | .close => self.state ≠ .disconnecting

theorem Handles.inFlight {packet : RelayPacket} (h : self.Handles packet .disconnect) :
    self.inFlight = true := by
  have haccept := h.2.2
  unfold ProxyConnection.inFlight
  cases hs : self.state <;> simp_all [ConnectionState.accept]

/-- The calls of a connection fit its state. -/
structure Accounts (c : ProxyConnection) : Prop where
  calls : alternate false c.effects = some c.inFlight
  idling : ∀ k, .enter .idling k ∈ c.effects → k = 0
  confirms : c.inFlight = false → c.state ≠ .closed → c.disconnectConfirms = 0
  opening : c.state.toNat ≤ ConnectionState.attaching.toNat → c.upstreamClosed

namespace Accounts

theorem create (env : Env) : (create env).Accounts := by
  unfold ProxyConnection.create connectServer
  dsimp only
  split_ifs <;> exact ⟨rfl, by simp [request], fun _ _ => rfl, fun _ => rfl⟩

theorem frame {self' : ProxyConnection} (h : self.Accounts) (hstate : self'.state = self.state)
    (heffects : self'.effects = self.effects)
    (hconfirms : self'.disconnectConfirms = self.disconnectConfirms)
    (hupstream : self.upstreamClosed → self'.upstreamClosed) : self'.Accounts := by
  have hinFlight : self'.inFlight = self.inFlight := by rw [inFlight, inFlight, hstate]
  refine ⟨?_, ?_, ?_, ?_⟩
  · rw [heffects, hinFlight]
    exact h.calls
  · rw [heffects]
    exact h.idling
  · rw [hinFlight, hstate, hconfirms]
    exact h.confirms
  · rw [hstate]
    exact fun hopening => hupstream (h.opening hopening)

theorem call {call : Call} (h : self.Accounts) (hbusy : call ≠ .busy) (hidle : call ≠ .idle) :
    (self.call call).Accounts := by
  refine ⟨?_, ?_, h.confirms, h.opening⟩
  · show alternate false (self.effects ++ [.call call]) = some self.inFlight
    rw [alternate_append h.calls]
    exact alternate_of_not_mem (by simpa using Ne.symm hbusy) (by simpa using Ne.symm hidle) _
  · intro k hmem
    exact h.idling k (by simpa [ProxyConnection.call, log] using hmem)

/-- A state is entered, and the handler is called that fits it. -/
theorem enter_call {calls : List Effect} {self' : ProxyConnection} (h : self.Accounts)
    (state : ConnectionState) (hstate : self'.state = state)
    (heffects : self'.effects = self.effects ++ .enter state self.disconnectConfirms :: calls)
    (hcalls : alternate self.inFlight calls = some self'.inFlight)
    (hno : ∀ k, .enter .idling k ∉ calls) (hidling : state = .idling → self.disconnectConfirms = 0)
    (hconfirms : self'.inFlight = false → state ≠ .closed → self'.disconnectConfirms = 0)
    (hopening : state.toNat ≤ ConnectionState.attaching.toNat → self'.upstreamClosed) :
    self'.Accounts := by
  refine ⟨?_, ?_, ?_, ?_⟩
  · rw [heffects, alternate_append h.calls, ← hcalls]
    rfl
  · intro k hmem
    rw [heffects, List.mem_append, List.mem_cons] at hmem
    obtain hmem | hmem | hmem := hmem
    · exact h.idling k hmem
    · cases hmem
      exact hidling rfl
    · exact absurd hmem (hno k)
  · rw [hstate]
    exact hconfirms
  · rw [hstate]
    exact hopening

theorem close (h : self.Accounts) (hstate : self.state ≠ .disconnecting) : self.close.Accounts := by
  by_cases hclosed : self.state = .closed
  · rwa [close_of_closed hclosed]
  · obtain ⟨hafter, -, -, calls, hcalls, -, heffects⟩ := close_spec hclosed
    have hinFlight : self.close.inFlight = false := by
      rw [inFlight, hafter]
      rfl
    have hfirst : alternate self.inFlight (closeCalls self.state) = some false := by
      unfold inFlight
      cases hs : self.state <;> first | exact absurd hs hstate | rfl
    have hrest : alternate false (calls ++ [.returned]) = some false := by
      refine alternate_of_not_mem ?_ ?_ _
      · intro hbusy
        obtain hbusy | hbusy := List.mem_append.mp hbusy
        · simpa using hcalls hbusy
        · simp at hbusy
      · intro hidle
        obtain hidle | hidle := List.mem_append.mp hidle
        · simpa using hcalls hidle
        · simp at hidle
    have hsplit : self.close.effects = self.effects ++
        .enter .closed self.disconnectConfirms ::
          (closeCalls self.state ++ (calls ++ [.returned])) := by
      rw [heffects]
      simp
    refine h.enter_call .closed hafter hsplit ?_ ?_ (by simp) (by simp) fun hle =>
      absurd hle (by decide)
    · rw [alternate_append hfirst, hrest, hinFlight]
    · intro k hk
      obtain hk | hk | hk := by simpa only [List.mem_append] using hk
      · simpa using closeCalls_subset _ hk
      · simpa using hcalls hk
      · simp at hk

theorem sendRelayPacket {type : PacketType} {handler : WriteCallback} (h : self.Accounts)
    (hwrite : self.state = .disconnecting → env.write type) :
    (self.sendRelayPacket env type handler).Accounts := by
  unfold ProxyConnection.sendRelayPacket
  split_ifs with hclosed hsent
  · exact h
  · exact h.frame rfl rfl rfl id
  · exact h.close fun hdisconnecting => hsent (hwrite hdisconnecting)

theorem closeUpstream2 (h : self.Accounts) : self.closeUpstream2.Accounts := by
  obtain ⟨hstate, heffects, hconfirms, hupstream⟩ := closeUpstream2_spec self
  exact h.frame hstate heffects hconfirms hupstream

theorem closeUpstream (h : self.Accounts) (hwrite : self.ClosesUpstream env) :
    (self.closeUpstream env).Accounts := by
  by_cases hskip : self.state = .closed ∨ self.state = .idling ∨ self.upstreamClosed
  · rwa [closeUpstream_of_skip hskip]
  · have hinFlight : self.inFlight = true := by
      rw [not_or, not_or] at hskip
      have hopening := mt h.opening hskip.2.2
      unfold inFlight
      cases hs : self.state <;> simp_all [ConnectionState.toNat]
    have hupstream : ¬ self.upstreamClosed := fun hupstream => hskip (.inr (.inr hupstream))
    have henter : ({ self with upstreamClosed := true }.enter .disconnecting).Accounts :=
      h.enter_call .disconnecting rfl rfl (by rw [hinFlight]; rfl) (by simp) (by simp)
        (by simp [inFlight, enter, log]) fun _ => rfl
    obtain ⟨hstate, heffects, hconfirms, hclosed⟩ := closeUpstream_spec env hskip
    rw [sendRelayPacket_of_write (show ConnectionState.disconnecting ≠ .closed by decide)
      (hwrite hinFlight hupstream)] at hstate heffects hconfirms hclosed
    exact henter.frame hstate heffects hconfirms hclosed

theorem startReadUpstream (h : self.Accounts) (hwrite : env.readStart ∨ self.ClosesUpstream env) :
    (self.startReadUpstream env).Accounts := by
  unfold ProxyConnection.startReadUpstream
  split_ifs with hstart
  · exact h
  · exact h.closeUpstream (hwrite.resolve_left hstart)

theorem enter_opening {state : ConnectionState} (h : self.Accounts)
    (hinit : self.state = .initializing)
    (hstate : state = .authenticating ∨ state = .attaching) : (self.enter state).Accounts := by
  have hinFlight : self.inFlight = false := by
    rw [inFlight, hinit]
    rfl
  have hupstream : self.upstreamClosed := h.opening (by rw [hinit]; decide)
  have hconfirms : self.disconnectConfirms = 0 := h.confirms hinFlight (by rw [hinit]; decide)
  refine h.enter_call state rfl rfl ?_ (by simp) (fun _ => hconfirms)
    (fun _ _ => hconfirms) fun _ => hupstream
  rw [hinFlight]
  obtain rfl | rfl := hstate <;> rfl

theorem enter_idling (h : self.Accounts) (hinFlight : self.inFlight = false)
    (hopen : self.state ≠ .closed) :
    (self.enter .idling).Accounts := by
  have hconfirms : self.disconnectConfirms = 0 := h.confirms hinFlight hopen
  refine h.enter_call .idling rfl rfl ?_ (by simp) (fun _ => hconfirms)
    (fun _ _ => hconfirms) fun hle =>
    absurd hle (by decide)
  rw [hinFlight]
  rfl

theorem busy (h : self.Accounts) (hidling : self.state = .idling) :
    ((self.enter .relaying).call .busy).Accounts := by
  have hinFlight : self.inFlight = false := by
    rw [inFlight, hidling]
    rfl
  refine h.enter_call .relaying rfl (List.append_assoc ..) ?_ (by simp) (by simp)
    (by simp [inFlight, ProxyConnection.call, enter, log]) fun hle => absurd hle (by decide)
  rw [hinFlight]
  rfl

theorem idle (h : self.Accounts) (hinFlight : self.inFlight = true)
    (hconfirms : self.disconnectConfirms = 0) :
    ((self.enter .idling).call .idle).Accounts := by
  refine h.enter_call .idling rfl (List.append_assoc ..) ?_ (by simp) (fun _ => hconfirms)
    (fun _ _ => hconfirms) fun hle => absurd hle (by decide)
  rw [hinFlight]
  rfl

theorem connectFailed (h : self.Accounts) (hinFlight : self.inFlight = true)
    (hconfirms : self.disconnectConfirms = 0) :
    (((self.closeUpstream2.enter .idling).call .idle).sendConnectResponse env false).Accounts := by
  obtain ⟨hstate, -, hsame, -⟩ := closeUpstream2_spec self
  have hinFlight' : self.closeUpstream2.inFlight = true := by rwa [inFlight, hstate, ← inFlight]
  exact (h.closeUpstream2.idle hinFlight' (hsame.trans hconfirms)).sendRelayPacket
    fun hdisconnecting =>
    absurd hdisconnecting (show ConnectionState.idling ≠ .disconnecting by decide)

theorem connectRefused (h : self.Accounts) (hinFlight : self.inFlight = true)
    (hconfirms : self.disconnectConfirms = 0) (hwrite : env.write .connectAck) :
    (((self.sendConnectResponse env false).enter .idling).call .idle).Accounts := by
  have hopen : self.state ≠ .closed := by
    intro hclosed
    rw [inFlight, hclosed] at hinFlight
    cases hinFlight
  rw [sendConnectResponse, sendRelayPacket_of_write hopen hwrite]
  have hrequest : (self.request (.relayWrite (.connectResponse false))).Accounts :=
    h.frame rfl rfl rfl id
  exact hrequest.idle hinFlight hconfirms

theorem openUpstream (h : self.Accounts) (hrelaying : self.state = .relaying)
    (hconfirms : self.disconnectConfirms = 0) (hwrite : env.tcpInit ∨ env.write .connectAck) :
    (self.openUpstream env).Accounts := by
  have hinFlight : self.inFlight = true := by
    rw [inFlight, hrelaying]
    rfl
  have hinit :
      ({ self with upstream := { data := true }, upstreamClosed := false } :
      ProxyConnection).Accounts := by
    refine ⟨h.calls, h.idling, h.confirms, fun hle => ?_⟩
    rw [hrelaying] at hle
    exact absurd hle (by decide)
  unfold ProxyConnection.openUpstream
  dsimp only
  split_ifs with htcp
  · exact hinit.frame rfl rfl rfl id
  · exact hinit.connectFailed hinFlight hconfirms
  · exact h.connectRefused hinFlight hconfirms (hwrite.resolve_left htcp)

theorem onChallenge (h : self.Accounts) (hinit : self.state = .initializing) (size : Nat) :
    (self.onChallenge env size).Accounts := by
  unfold ProxyConnection.onChallenge sendAttachRequest sendAuthenticateRequest
  split_ifs with hsize hauth hclosed hclosed
  · exact h
  · exact h
  · refine (h.enter_opening hinit (.inr rfl)).sendRelayPacket fun hdisconnecting => ?_
    cases hdisconnecting
  · exact h
  · refine (h.enter_opening hinit (.inl rfl)).sendRelayPacket fun hdisconnecting => ?_
    cases hdisconnecting

theorem onError (h : self.Accounts) (hstate : self.state ≠ .disconnecting) (packet : RelayPacket) :
    (self.onError env packet).Accounts := by
  unfold ProxyConnection.onError
  split_ifs
  · exact h.frame rfl rfl rfl id
  · split
    · exact h.frame rfl rfl rfl id
    · split_ifs
      · exact h.frame rfl rfl rfl id
      · exact h.close hstate

theorem onAuthenticateResponse (h : self.Accounts) (hstate : self.state = .authenticating)
    (packet : RelayPacket) : (self.onAuthenticateResponse env packet).Accounts := by
  have hinFlight : self.inFlight = false := by
    rw [inFlight, hstate]
    rfl
  have hopen : self.state ≠ .closed := by
    rw [hstate]
    decide
  unfold ProxyConnection.onAuthenticateResponse
  split_ifs
  · refine h.close ?_
    rw [hstate]
    decide
  · dsimp only
    split
    · exact h.frame rfl rfl rfl id
    · have hmax (n : Nat) : (self.call (.setMaxConnections n)).Accounts :=
        h.call (by simp) (by simp)
      split_ifs
      · exact (((hmax _).call (by simp) (by simp)).enter_idling hinFlight hopen).call
          (by decide) (by decide)
      · exact (hmax _).frame rfl rfl rfl id

theorem onConnectRequest (h : self.Accounts) (hidling : self.state = .idling) {packet : RelayPacket}
    (hwrite : CONNECT_REQ_SIZE ≤ packet.size → (connectClient env packet).isSome →
      env.tcpInit ∨ env.write .connectAck) : (self.onConnectRequest env packet).Accounts := by
  have hconfirms : self.disconnectConfirms = 0 := by
    refine h.confirms ?_ ?_
    · rw [inFlight, hidling]
      rfl
    · rw [hidling]
      decide
  unfold ProxyConnection.onConnectRequest
  split_ifs with hsize
  · refine h.close ?_
    rw [hidling]
    decide
  · dsimp only
    split
    · exact (h.busy hidling).frame rfl rfl rfl id
    · rename_i client hclient
      rw [if_pos (show allow client = true from rfl)]
      exact (h.busy hidling).openUpstream rfl hconfirms
        (hwrite (not_lt.mp hsize) (by rw [hclient]; rfl))

theorem confirmDisconnect (h : self.Accounts)
    (hstate : self.inFlight = true ∨ self.state = .closed ∧ self.disconnectConfirms = 0) :
    self.confirmDisconnect.Accounts := by
  unfold ProxyConnection.confirmDisconnect
  dsimp only
  split_ifs with hconfirms
  · obtain hinFlight | ⟨-, hzero⟩ := hstate
    · have hreset : ({ self with disconnectConfirms := 0 } : ProxyConnection).Accounts :=
        ⟨h.calls, h.idling, fun _ _ => rfl, h.opening⟩
      exact hreset.idle hinFlight rfl
    · omega
  · refine ⟨h.calls, h.idling, fun hno hopen => ?_, h.opening⟩
    obtain hinFlight | ⟨hclosed, -⟩ := hstate
    · exact absurd (hinFlight.symm.trans hno) (by decide)
    · exact absurd hclosed hopen

theorem closeUpstream_inFlight (hinFlight : self.inFlight = true)
    (hwrite : self.ClosesUpstream env) :
    (self.closeUpstream env).inFlight = true := by
  by_cases hskip : self.state = .closed ∨ self.state = .idling ∨ self.upstreamClosed
  · rwa [closeUpstream_of_skip hskip]
  · have hsent := hwrite hinFlight fun hupstream => hskip (.inr (.inr hupstream))
    rw [inFlight, (closeUpstream_spec env hskip).1,
      sendRelayPacket_of_write (show ConnectionState.disconnecting ≠ .closed by decide) hsent]
    rfl

theorem onDisconnectRequest (h : self.Accounts) (hinFlight : self.inFlight = true)
    (hupstream : self.ClosesUpstream env)
    (hwrite : env.write .disconnectAck ∨
      self.state = .relaying ∧ self.upstreamClosed ∧ self.disconnectConfirms = 0) :
    (self.onDisconnectRequest env).Accounts := by
  unfold ProxyConnection.onDisconnectRequest
  rw [sendDisconnectResponse_eq]
  have hafter := closeUpstream_inFlight hinFlight hupstream
  obtain hwrite | ⟨hrelaying, hclosed, hconfirms⟩ := hwrite
  · have hopen : (self.closeUpstream env).state ≠ .closed := by
      intro hclosed
      rw [inFlight, hclosed] at hafter
      cases hafter
    refine ((h.closeUpstream hupstream).sendRelayPacket fun _ => hwrite).confirmDisconnect (.inl ?_)
    rw [sendRelayPacket_of_write hopen hwrite]
    exact hafter
  · -- the connection may be closed by its failing write: this is the first confirmation
    rw [closeUpstream_of_skip (.inr (.inr hclosed))]
    have hsent : (self.sendRelayPacket env .disconnectAck .none).Accounts :=
      h.sendRelayPacket fun hdisconnecting =>
        absurd (hrelaying.symm.trans hdisconnecting) (by decide)
    refine hsent.confirmDisconnect ?_
    by_cases hack : env.write .disconnectAck
    · left
      rw [sendRelayPacket_of_write (by rw [hrelaying]; decide) hack]
      exact hinFlight
    · right
      rw [sendRelayPacket_confirms, sendRelayPacket_of_not_write hack]
      exact ⟨close_state _, hconfirms⟩

theorem onDataRequest (h : self.Accounts) {packet : RelayPacket}
    (hwrite : env.upstreamWrite ∨ self.ClosesUpstream env) :
    (self.onDataRequest env packet).Accounts := by
  unfold ProxyConnection.onDataRequest
  split_ifs with hsize hupstream
  · exact h.frame rfl rfl rfl id
  all_goals split
  · exact h.frame rfl rfl rfl id
  · exact h.frame rfl rfl rfl id
  · exact h.frame rfl rfl rfl id
  · exact h.closeUpstream (hwrite.resolve_left hupstream)

theorem written (h : self.Accounts) {handler : WriteCallback}
    (hwrite : self.StartsReading env handler → env.readStart ∨ self.ClosesUpstream env) :
    (self.written env handler).Accounts := by
  cases handler with
  | none => exact h
  | connectResponse success =>
    simp only [ProxyConnection.written]
    split_ifs with hstart
    · exact h.startReadUpstream (hwrite hstart)
    · exact h
  | dataRequest =>
    simp only [ProxyConnection.written]
    split_ifs with hstart
    · have hresume : ({ self with upstreamPaused := false } : ProxyConnection).Accounts :=
        h.frame rfl rfl rfl id
      exact hresume.startReadUpstream (hwrite hstart)
    · exact h

theorem dispatch (h : self.Accounts) {packet : RelayPacket} {type : PacketType}
    (hhandles : self.Handles packet type) (hok : self.Accountable env (.relayPacket packet)) :
    (self.dispatch env packet type).Accounts := by
  obtain ⟨-, hconnect, hdata, hdisconnect⟩ := hok
  have haccept := hhandles.2.2
  cases type with
  | authAck =>
    have hstate : self.state = .authenticating := by
      cases hs : self.state <;> simp_all [ConnectionState.accept]
    exact h.onAuthenticateResponse hstate packet
  | attachAck =>
    have hstate : self.state = .attaching := by
      cases hs : self.state <;> simp_all [ConnectionState.accept]
    refine (h.enter_idling ?_ ?_).call (by decide) (by decide)
    · rw [inFlight, hstate]
      rfl
    · rw [hstate]
      decide
  | connect =>
    have hstate :
        self.state = .idling := by cases hs : self.state <;> simp_all [ConnectionState.accept]
    exact h.onConnectRequest hstate (hconnect hhandles)
  | data => exact h.onDataRequest (hdata hhandles)
  | disconnect =>
    exact h.onDisconnectRequest hhandles.inFlight (hdisconnect hhandles).1 (hdisconnect hhandles).2
  | disconnectAck =>
    have hstate : self.state = .disconnecting := by
      cases hs : self.state <;> simp_all [ConnectionState.accept]
    refine h.confirmDisconnect (.inl ?_)
    rw [inFlight, hstate]
    rfl
  | _ => exact h

theorem processRelayPacket (h : self.Accounts) {packet : RelayPacket}
    (hok : self.Accountable env (.relayPacket packet)) :
    (self.processRelayPacket env packet).Accounts := by
  unfold ProxyConnection.processRelayPacket
  split_ifs with hinit
  · exact h.onChallenge hinit _
  · split
    · exact h.frame rfl rfl rfl id
    · rename_i type htype
      split_ifs with herror haccept
      · refine h.onError (fun hdisconnecting => ?_) packet
        have haccept := hok.1 type htype hdisconnecting
        rw [hdisconnecting, herror] at haccept
        cases haccept
      · exact h.dispatch ⟨hinit, htype, haccept⟩ hok
      · exact h.close fun hdisconnecting => haccept (hok.1 type htype hdisconnecting)

theorem complete (h : self.Accounts) {request : Request} {ok : Bool}
    (hok : self.Completes env request ok) :
    (self.complete env request ok).Accounts := by
  unfold ProxyConnection.complete
  split
  · unfold establish
    split_ifs with hstart
    · exact h
    · exact h.close fun hdisconnecting => hstart (hok hdisconnecting).2
  · exact h.close fun hdisconnecting => absurd (hok hdisconnecting).1 (by decide)
  · exact h.written hok
  · exact h.close hok
  · exact h.frame rfl rfl rfl id
  · exact h.sendRelayPacket hok
  · exact h.connectFailed hok.1 hok.2
  · exact h
  · exact h.closeUpstream hok
  · exact h.closeUpstream2
  · exact h.frame rfl rfl rfl id

/-- A callback keeps the calls of a connection in balance under the condition. -/
theorem step (h : self.Accounts) {event : Event}
    (hok : self.fault = none → self.Accountable env event) :
    (self.step env event).Accounts := by
  unfold ProxyConnection.step
  split_ifs with hfault
  · exact h
  · have hok := hok (Option.not_isSome_iff_eq_none.mp hfault)
    cases event with
    | relayRead => exact h.frame rfl rfl rfl id
    | relayPacket packet => exact h.processRelayPacket hok
    | relayError => exact h.close hok
    | upstreamRead =>
      show (self.sendDataRequest env).Accounts
      unfold sendDataRequest
      dsimp only
      split_ifs
      · exact (h.sendRelayPacket hok).frame rfl rfl rfl id
      · exact h.sendRelayPacket hok
    | upstreamError => exact h.closeUpstream hok
    | complete request ok =>
      show (if _ then _ else _ : ProxyConnection).Accounts
      split_ifs with hpending
      · have hrest :
            ({ self with pending := self.pending.erase request } : ProxyConnection).Accounts :=
          h.frame rfl rfl rfl id
        refine hrest.complete ?_
        have hcompletes := hok hpending
        cases request <;> cases ok <;> exact hcompletes
      · exact h
    | periodicCheck =>
      show (self.periodicCheck env).Accounts
      unfold ProxyConnection.periodicCheck
      split_ifs with hrelaying hdead hping
      · exact h
      · exact h.close fun hdisconnecting => hok hdisconnecting hdead
      · refine h.sendRelayPacket fun hdisconnecting => ?_
        exact absurd (hping.1.symm.trans hdisconnecting) (by decide)
      · exact h
    | close => exact h.close hok

end Accounts

/-- The condition keeps a closed connection closed. -/
theorem Accountable.keepsClosed {event : Event} (h : self.Accountable env event) :
    self.KeepsClosed env event := by
  cases event with
  | relayPacket packet =>
    obtain ⟨-, hconnect, -, hdisconnect⟩ := h
    refine ⟨hconnect, fun hhandles hconfirms => ?_⟩
    obtain ⟨hupstream, hwrite⟩ := hdisconnect hhandles
    refine ⟨?_, hwrite.resolve_right fun hfirst => ?_⟩
    · by_cases hclosed : self.upstreamClosed
      · exact .inl hclosed
      · exact .inr (hupstream hhandles.inFlight hclosed)
    · omega
  | complete request ok =>
    cases request with
    | upstreamConnect =>
      cases ok with
      | true => trivial
      | false =>
        intro hpending hclosed
        have hinFlight := (h hpending).1
        rw [inFlight, hclosed] at hinFlight
        cases hinFlight
    | _ => trivial
  | _ => trivial

/-- Outside `Disconnecting` a callback keeps the balance if libuv fails it nowhere. -/
theorem Accountable.of_succeeds {event : Event} (hstate : self.state ≠ .disconnecting)
    (hinit : env.tcpInit) (hwrite : ∀ type, env.write type)
    (hevent : event ≠ .complete .upstreamConnect false) :
    self.Accountable env event := by
  have hcloses : self.ClosesUpstream env := fun _ _ => hwrite .disconnect
  cases event with
  | relayPacket packet =>
    exact ⟨fun _ _ hdisconnecting => absurd hdisconnecting hstate, fun _ _ _ => .inl hinit, fun _ =>
      .inr hcloses,
      fun _ => ⟨hcloses, .inl (hwrite .disconnectAck)⟩⟩
  | complete request ok =>
    intro _
    unfold Completes
    split
    · exact fun hdisconnecting => absurd hdisconnecting hstate
    · exact fun _ => .inr hcloses
    · exact hstate
    · exact fun hdisconnecting => absurd hdisconnecting hstate
    · exact absurd rfl hevent
    · exact hcloses
    · trivial
  | relayRead => trivial
  | relayError => exact hstate
  | upstreamRead => exact fun hdisconnecting => absurd hdisconnecting hstate
  | upstreamError => exact hcloses
  | periodicCheck => exact fun hdisconnecting => absurd hdisconnecting hstate
  | close => exact hstate

end ProxyConnection

end ActiveProxy

end Boson
