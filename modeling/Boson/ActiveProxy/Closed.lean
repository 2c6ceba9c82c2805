import Boson.ActiveProxy.Connection

/-!
# Closed connections (`src/addons/activeproxy/connection.cc`)

`close` sets the state to `Closed` and the functions of a connection look at that, but three of them
assign `Idling` to the state after they have called a function that may have closed the connection,
or without a look at the state at all: `openUpstream` when `uv_tcp_init` fails,
`onDisconnectRequest` at the second confirmation, and the callback of a connection attempt to the
upstream that fails.

* `Sealed`: what keeps a connection closed, for all the functions.
* `closedFinal_iff`: a run keeps the connection closed exactly if none of the three comes to it.
-/

namespace Boson

namespace ActiveProxy

/-- Once `Closed` has been entered no other state is, and once that `close` has returned no handler
is called but `onClosed`. -/
def ClosedFinal (effects : List Effect) : Prop :=
  ∀ pre k post, effects = pre ++ .enter .closed k :: post →
    (∀ state k', .enter state k' ∉ post) ∧
    ∀ mid rest, post = mid ++ .returned :: rest → ∀ call, .call call ∈ rest → call = .closed

theorem ClosedFinal.of_initial {effects effects' : List Effect} (h : ClosedFinal effects')
    (hinitial : effects <+: effects') : ClosedFinal effects := by
  obtain ⟨more, rfl⟩ := hinitial
  intro pre k post hpost
  obtain ⟨hstates, hcalls⟩ :=
    h pre k (post ++ more) (by rw [hpost, List.append_assoc, List.cons_append])
  refine ⟨fun state k' hmem => hstates state k' (List.mem_append_left _ hmem), ?_⟩
  intro mid rest hrest call hcall
  exact hcalls mid (rest ++ more) (by rw [hrest, List.append_assoc, List.cons_append]) call
    (List.mem_append_left _ hcall)

theorem closedFinal_of_not_mem {effects : List Effect} (h : ∀ k, .enter .closed k ∉ effects) :
    ClosedFinal effects := by
  rintro pre k post rfl
  exact absurd (List.mem_append_right _ List.mem_cons_self) (h k)

/-- The effects of a `close`. -/
theorem closedFinal_close {effects calls : List Effect} (h : ∀ k, .enter .closed k ∉ effects)
    (hcalls : ∀ effect ∈ calls, ∃ call, effect = .call call) (k : Nat) :
    ClosedFinal (effects ++ (.enter .closed k :: calls ++ [.returned])) := by
  have hno : ∀ state k', .enter state k' ∉ calls ++ [.returned] := by
    intro state k' hmem
    obtain hmem | hmem := List.mem_append.mp hmem
    · obtain ⟨call, hcall⟩ := hcalls _ hmem
      cases hcall
    · cases List.mem_singleton.mp hmem
  have hreturned : .returned ∉ calls := by
    intro hmem
    obtain ⟨call, hcall⟩ := hcalls _ hmem
    cases hcall
  intro pre k' post hsplit
  obtain ⟨-, -, rfl⟩ := (List.append_cons_inj_of_notMem (h k') (hno .closed k')).mp hsplit
  refine ⟨hno, fun mid rest hrest call hcall => ?_⟩
  obtain ⟨-, -, rfl⟩ := (List.append_cons_inj_of_notMem hreturned List.not_mem_nil).mp hrest
  simp at hcall

namespace ProxyConnection

variable {env : Env} {self : ProxyConnection}

/-- The packet gets to the handler of its type. -/
def Handles (self : ProxyConnection) (packet : RelayPacket) (type : PacketType) : Prop :=
  self.state ≠ .initializing ∧ packet.type = .ok type ∧ self.state.accept type

/-- A packet that is handled is accepted, so the connection is in no state that does not accept
it. -/
theorem Handles.state_ne {packet : RelayPacket} {type : PacketType} {state : ConnectionState}
    (h : self.Handles packet type) (hstate : state.accept type = false) : self.state ≠ state := by
  rintro rfl
  rw [h.2.2] at hstate
  cases hstate

/-- The callback does not take a connection out of `Closed`. -/
def KeepsClosed (env : Env) (self : ProxyConnection) : Event → Prop
  | .relayPacket packet =>
    (self.Handles packet .connect → CONNECT_REQ_SIZE ≤ packet.size →
      (connectClient env packet).isSome → env.tcpInit ∨ env.write .connectAck) ∧
    (self.Handles packet .disconnect → self.disconnectConfirms = 1 →
      (self.upstreamClosed ∨ env.write .disconnect) ∧ env.write .disconnectAck)
  | .complete .upstreamConnect false => .upstreamConnect ∈ self.pending → self.state ≠ .closed
  | _ => True

/-- A connection that stays closed if it is. -/
structure Sealed (c : ProxyConnection) : Prop where
  final : ClosedFinal c.effects
  entered : c.state = .closed → ∃ pre k mid rest,
    c.effects = pre ++ .enter .closed k :: (mid ++ .returned :: rest)
  not_entered : c.state ≠ .closed → ∀ k, .enter .closed k ∉ c.effects
  not_called : c.state ≠ .closed → .call .closed ∉ c.effects

namespace Sealed

theorem create (env : Env) : (create env).Sealed := by
  obtain ⟨hstate, heffects⟩ := create_spec env
  refine ⟨?_, ?_, ?_, ?_⟩
  · rw [heffects]
    exact closedFinal_of_not_mem (by simp)
  · simp [hstate]
  · simp [heffects]
  · simp [heffects]

theorem frame {self' : ProxyConnection} (h : self.Sealed) (hstate : self'.state = self.state)
    (heffects : self'.effects = self.effects) : self'.Sealed := by
  obtain ⟨hfinal, hentered, hnot, hcalled⟩ := h
  rw [← hstate, ← heffects] at hentered hnot hcalled
  rw [← heffects] at hfinal
  exact ⟨hfinal, hentered, hnot, hcalled⟩

theorem log {effect : Effect} (h : self.Sealed) (hopen : self.state ≠ .closed)
    (henter : ∀ k, effect ≠ .enter .closed k) (hcall : effect ≠ .call .closed) :
    (self.log effect).Sealed := by
  have hnot : ∀ k, .enter .closed k ∉ self.effects ++ [effect] := by
    intro k hmem
    obtain hmem | hmem := List.mem_append.mp hmem
    · exact h.not_entered hopen k hmem
    · exact henter k (List.mem_singleton.mp hmem).symm
  refine ⟨closedFinal_of_not_mem hnot, fun hclosed =>
    absurd hclosed hopen, fun _ => hnot, fun _ hmem => ?_⟩
  obtain hmem | hmem := List.mem_append.mp hmem
  · exact h.not_called hopen hmem
  · exact hcall (List.mem_singleton.mp hmem).symm

theorem enter {state : ConnectionState} (h : self.Sealed) (hopen : self.state ≠ .closed)
    (hstate : state ≠ .closed) : (self.enter state).Sealed := by
  have hlog : (self.log (.enter state self.disconnectConfirms)).Sealed :=
    h.log hopen (by rintro k ⟨⟩; exact hstate rfl) (by simp)
  exact ⟨hlog.final, fun hclosed => absurd hclosed hstate, fun _ => hlog.not_entered hopen,
    fun _ => hlog.not_called hopen⟩

theorem call {call : Call} (h : self.Sealed) (hopen : self.state ≠ .closed)
    (hcall : call ≠ .closed) :
    (self.call call).Sealed := h.log hopen (by simp) (by simpa using hcall)

theorem close (h : self.Sealed) : self.close.Sealed := by
  by_cases hclosed : self.state = .closed
  · rwa [close_of_closed hclosed]
  · obtain ⟨hstate, -, -, calls, hcalls, -, heffects⟩ := close_spec hclosed
    refine ⟨?_, fun _ => ⟨self.effects, self.disconnectConfirms, closeCalls self.state ++ calls,
      [], heffects⟩,
      fun hopen => absurd hstate hopen, fun hopen => absurd hstate hopen⟩
    · rw [heffects]
      refine closedFinal_close (h.not_entered hclosed) (fun effect heffect => ?_) _
      obtain hmem | hmem := List.mem_append.mp heffect
      · obtain rfl | hidle := List.mem_cons.mp (closeCalls_subset _ hmem)
        · exact ⟨.openFailed, rfl⟩
        · exact ⟨.idle, List.mem_singleton.mp hidle⟩
      · exact ⟨.closed, List.mem_singleton.mp (hcalls hmem)⟩

theorem sendRelayPacket (h : self.Sealed) (type : PacketType) (handler : WriteCallback) :
    (self.sendRelayPacket env type handler).Sealed := by
  unfold ProxyConnection.sendRelayPacket
  split_ifs
  · exact h
  · exact h.frame rfl rfl
  · exact h.close

theorem closeUpstream2 (h : self.Sealed) : self.closeUpstream2.Sealed :=
  h.frame (closeUpstream2_spec self).1 (closeUpstream2_spec self).2.1

theorem closeUpstream (h : self.Sealed) : (self.closeUpstream env).Sealed := by
  by_cases hskip : self.state = .closed ∨ self.state = .idling ∨ self.upstreamClosed
  · rwa [closeUpstream_of_skip hskip]
  · obtain ⟨hstate, heffects, -⟩ := closeUpstream_spec env hskip
    have hupstream : ({ self with upstreamClosed := true } : ProxyConnection).Sealed :=
      h.frame rfl rfl
    have henter := hupstream.enter (fun hclosed => hskip (.inl hclosed))
      (by decide : ConnectionState.disconnecting ≠ .closed)
    exact (henter.sendRelayPacket _ _).frame hstate heffects

theorem startReadUpstream (h : self.Sealed) : (self.startReadUpstream env).Sealed := by
  unfold ProxyConnection.startReadUpstream
  split_ifs
  · exact h
  · exact h.closeUpstream

theorem connectFailed (h : self.Sealed) (hopen : self.state ≠ .closed) :
    (((self.closeUpstream2.enter .idling).call .idle).sendConnectResponse env false).Sealed := by
  have hopen' : self.closeUpstream2.state ≠ .closed := by rwa [(closeUpstream2_spec self).1]
  exact ((h.closeUpstream2.enter hopen' (by decide)).call
    (by simp [ProxyConnection.enter, ProxyConnection.log]) (by decide)).sendRelayPacket _ _

/-- The end of `openUpstream` when `uv_tcp_init` fails. -/
theorem connectRefused (h : self.Sealed) (hopen : self.state ≠ .closed)
    (hwrite : env.write .connectAck) :
    (((self.sendConnectResponse env false).enter .idling).call .idle).Sealed := by
  rw [sendConnectResponse, sendRelayPacket_of_write hopen hwrite]
  have hrequest : (self.request (.relayWrite (.connectResponse false))).Sealed := h.frame rfl rfl
  exact (hrequest.enter hopen (by decide)).call (show ConnectionState.idling ≠ .closed by
    decide) (by decide)

theorem openUpstream (h : self.Sealed) (hopen : self.state ≠ .closed)
    (hwrite : env.tcpInit ∨ env.write .connectAck) : (self.openUpstream env).Sealed := by
  unfold ProxyConnection.openUpstream
  have hinit :
      ({ self with upstream := { data := true }, upstreamClosed := false } :
      ProxyConnection).Sealed :=
    h.frame rfl rfl
  dsimp only
  split_ifs with htcp
  · exact hinit.frame rfl rfl
  · exact hinit.connectFailed hopen
  · exact h.connectRefused hopen (hwrite.resolve_left htcp)

theorem onChallenge (h : self.Sealed) (size : Nat) : (self.onChallenge env size).Sealed := by
  unfold ProxyConnection.onChallenge sendAttachRequest sendAuthenticateRequest
  split_ifs with hsize hauth hclosed hclosed
  · exact h
  · exact h
  · exact (h.enter hclosed (by decide)).sendRelayPacket _ _
  · exact h
  · exact (h.enter hclosed (by decide)).sendRelayPacket _ _

theorem onError (h : self.Sealed) (packet : RelayPacket) : (self.onError env packet).Sealed := by
  unfold ProxyConnection.onError
  split_ifs
  · exact h.frame rfl rfl
  · split
    · exact h.frame rfl rfl
    · split_ifs
      · exact h.frame rfl rfl
      · exact h.close

theorem onAuthenticateResponse (h : self.Sealed) (hopen : self.state ≠ .closed)
    (packet : RelayPacket) :
    (self.onAuthenticateResponse env packet).Sealed := by
  unfold ProxyConnection.onAuthenticateResponse
  split_ifs
  · exact h.close
  · dsimp only
    split
    · exact h.frame rfl rfl
    · have hmax (n : Nat) : (self.call (.setMaxConnections n)).Sealed := h.call hopen (by simp)
      split_ifs
      · exact (((hmax _).call hopen (by simp)).enter hopen (by decide)).call
          (show ConnectionState.idling ≠ .closed by decide) (by decide)
      · exact (hmax _).frame rfl rfl

theorem onConnectRequest (h : self.Sealed) (hopen : self.state ≠ .closed) {packet : RelayPacket}
    (hwrite : CONNECT_REQ_SIZE ≤ packet.size → (connectClient env packet).isSome →
      env.tcpInit ∨ env.write .connectAck) : (self.onConnectRequest env packet).Sealed := by
  unfold ProxyConnection.onConnectRequest
  split_ifs with hsize
  · exact h.close
  · have hrelaying : ConnectionState.relaying ≠ .closed := by decide
    have hbusy : ((self.enter .relaying).call .busy).Sealed :=
      (h.enter hopen hrelaying).call hrelaying (by decide)
    dsimp only
    split
    · exact hbusy.frame rfl rfl
    · rename_i client hclient
      rw [if_pos (show allow client = true from rfl)]
      exact hbusy.openUpstream hrelaying (hwrite (not_lt.mp hsize) (by rw [hclient]; rfl))

theorem confirmDisconnect (h : self.Sealed)
    (hopen : self.disconnectConfirms = 1 → self.state ≠ .closed) :
    self.confirmDisconnect.Sealed := by
  unfold ProxyConnection.confirmDisconnect
  dsimp only
  split_ifs with hconfirms
  · have hreset : ({ self with disconnectConfirms := 0 } : ProxyConnection).Sealed :=
      h.frame rfl rfl
    exact (hreset.enter (hopen (by omega)) (by decide)).call
      (show ConnectionState.idling ≠ .closed by decide)
      (by decide)
  · exact h.frame rfl rfl

end Sealed

/-- The writes of a DISCONNECT leave an open connection open. -/
theorem onDisconnectRequest_open (hopen : self.state ≠ .closed)
    (hwrites : (self.upstreamClosed ∨ env.write .disconnect) ∧ env.write .disconnectAck) :
    ((self.closeUpstream env).sendRelayPacket env .disconnectAck .none).state ≠ .closed := by
  have hupstream : (self.closeUpstream env).state ≠ .closed := by
    by_cases hskip : self.state = .closed ∨ self.state = .idling ∨ self.upstreamClosed
    · rwa [closeUpstream_of_skip hskip]
    · have hwrite := hwrites.1.resolve_left fun hclosed => hskip (.inr (.inr hclosed))
      rw [(closeUpstream_spec env hskip).1,
        sendRelayPacket_of_write (show ConnectionState.disconnecting ≠ .closed by decide) hwrite]
      show ConnectionState.disconnecting ≠ .closed
      decide
  rwa [sendRelayPacket_of_write hupstream hwrites.2]

namespace Sealed

theorem onDisconnectRequest (h : self.Sealed) (hopen : self.state ≠ .closed)
    (hwrites : self.disconnectConfirms = 1 →
      (self.upstreamClosed ∨ env.write .disconnect) ∧ env.write .disconnectAck) :
    (self.onDisconnectRequest env).Sealed := by
  unfold ProxyConnection.onDisconnectRequest
  rw [sendDisconnectResponse_eq]
  refine (h.closeUpstream.sendRelayPacket _ _).confirmDisconnect fun hconfirms => ?_
  rw [sendRelayPacket_confirms, closeUpstream_confirms] at hconfirms
  exact onDisconnectRequest_open hopen (hwrites hconfirms)

theorem dispatch (h : self.Sealed) {packet : RelayPacket} {type : PacketType}
    (hhandles : self.Handles packet type)
    (hkeeps : self.KeepsClosed env (.relayPacket packet)) :
    (self.dispatch env packet type).Sealed := by
  have hopen : self.state ≠ .closed := hhandles.state_ne rfl
  cases type with
  | authAck => exact h.onAuthenticateResponse hopen packet
  | attachAck =>
    exact (h.enter hopen (by decide)).call (show ConnectionState.idling ≠ .closed by
      decide) (by decide)
  | connect => exact h.onConnectRequest hopen (hkeeps.1 hhandles)
  | data =>
    show (self.onDataRequest env packet).Sealed
    unfold onDataRequest
    split_ifs
    · exact h.frame rfl rfl
    all_goals split
    · exact h.frame rfl rfl
    · exact h.frame rfl rfl
    · exact h.frame rfl rfl
    · exact h.closeUpstream
  | disconnect => exact h.onDisconnectRequest hopen (hkeeps.2 hhandles)
  | disconnectAck => exact h.confirmDisconnect fun _ => hopen
  | _ => exact h

theorem processRelayPacket (h : self.Sealed) {packet : RelayPacket}
    (hkeeps : self.KeepsClosed env (.relayPacket packet)) :
    (self.processRelayPacket env packet).Sealed := by
  unfold ProxyConnection.processRelayPacket
  split_ifs with hinit
  · exact h.onChallenge _
  · split
    · exact h.frame rfl rfl
    · rename_i type htype
      split_ifs with herror haccept
      · exact h.onError packet
      · exact h.dispatch ⟨hinit, htype, haccept⟩ hkeeps
      · exact h.close

theorem written (h : self.Sealed) (handler : WriteCallback) :
    (self.written env handler).Sealed := by
  cases handler with
  | none => exact h
  | connectResponse success =>
    simp only [ProxyConnection.written]
    split_ifs
    · exact h.startReadUpstream
    · exact h
  | dataRequest =>
    simp only [ProxyConnection.written]
    split_ifs
    · have hresume : ({ self with upstreamPaused := false } : ProxyConnection).Sealed :=
        h.frame rfl rfl
      exact hresume.startReadUpstream
    · exact h

theorem complete (h : self.Sealed) {request : Request} {ok : Bool}
    (hkeeps : request = .upstreamConnect → ok = false → self.state ≠ .closed) :
    (self.complete env request ok).Sealed := by
  unfold ProxyConnection.complete
  split
  · unfold establish
    split_ifs
    · exact h
    · exact h.close
  · exact h.close
  · exact h.written _
  · exact h.close
  · exact h.frame rfl rfl
  · exact h.sendRelayPacket _ _
  · exact h.connectFailed (hkeeps rfl rfl)
  · exact h
  · exact h.closeUpstream
  · exact h.closeUpstream2
  · exact h.frame rfl rfl

/-- A callback keeps a closed connection closed under the condition. -/
theorem step (h : self.Sealed) {event : Event}
    (hkeeps : self.fault = none → self.KeepsClosed env event) :
    (self.step env event).Sealed := by
  unfold ProxyConnection.step
  split_ifs with hfault
  · exact h
  · have hkeeps := hkeeps (Option.not_isSome_iff_eq_none.mp hfault)
    cases event with
    | relayRead => exact h.frame rfl rfl
    | relayPacket packet => exact h.processRelayPacket hkeeps
    | relayError => exact h.close
    | upstreamRead =>
      show (self.sendDataRequest env).Sealed
      unfold sendDataRequest
      dsimp only
      split_ifs
      · exact (h.sendRelayPacket _ _).frame rfl rfl
      · exact h.sendRelayPacket _ _
    | upstreamError => exact h.closeUpstream
    | complete request ok =>
      show (if _ then _ else _ : ProxyConnection).Sealed
      split_ifs with hpending
      · have hrest :
            ({ self with pending := self.pending.erase request } : ProxyConnection).Sealed :=
          h.frame rfl rfl
        refine hrest.complete ?_
        rintro rfl rfl
        exact hkeeps hpending
      · exact h
    | periodicCheck =>
      show (self.periodicCheck env).Sealed
      unfold ProxyConnection.periodicCheck
      split_ifs
      · exact h
      · exact h.close
      · exact h.sendRelayPacket _ _
      · exact h
    | close => exact h.close

/-- What a connection does after it was closed. -/
theorem of_closed {self' : ProxyConnection} (h : self.Sealed) (hclosed : self.state = .closed)
    (h' : self'.Sealed) (hextends : self.effects <+: self'.effects) :
    self'.state = .closed ∧ ∀ call, .call call ∈ self'.effects.drop self.effects.length →
      call = .closed := by
  obtain ⟨pre, k, mid, rest, heffects⟩ := h.entered hclosed
  obtain ⟨more, hmore⟩ := hextends
  have hsplit : self'.effects = pre ++ .enter .closed k ::
      (mid ++ .returned :: (rest ++ more)) := by
    rw [← hmore, heffects]
    simp
  refine ⟨?_, fun call hcall => ?_⟩
  · by_contra hopen
    refine h'.not_entered hopen k ?_
    rw [hsplit]
    simp
  · rw [← hmore, List.drop_left] at hcall
    exact (h'.final _ _ _ hsplit).2 mid (rest ++ more) rfl call (List.mem_append_right _ hcall)

/-! ### The three that do not look at the state -/

theorem not_final_enter (h : self.Sealed) (hclosed : self.state = .closed)
    (state : ConnectionState) :
    ¬ ClosedFinal (self.enter state).effects := by
  intro hfinal
  obtain ⟨pre, k, mid, rest, heffects⟩ := h.entered hclosed
  refine (hfinal pre k (mid ++ .returned :: rest ++ [.enter state self.disconnectConfirms]) ?_).1
    state self.disconnectConfirms (List.mem_append_right _ (List.mem_singleton_self _))
  rw [ProxyConnection.enter, ProxyConnection.log]
  dsimp only
  rw [heffects, List.append_assoc, List.cons_append]

theorem not_final_enter_call (h : self.Sealed) (hclosed : self.state = .closed)
    (state : ConnectionState)
    (call : Call) : ¬ ClosedFinal ((self.enter state).call call).effects := fun hfinal =>
  h.not_final_enter hclosed state (hfinal.of_initial (call_extends _ _))

theorem not_final_connect (h : self.Sealed) {packet : RelayPacket} (hopen : self.state ≠ .closed)
    (hsize : CONNECT_REQ_SIZE ≤ packet.size) (hclient : (connectClient env packet).isSome)
    (hinit : ¬ env.tcpInit) (hwrite : ¬ env.write .connectAck) :
    ¬ ClosedFinal (self.onConnectRequest env packet).effects := by
  obtain ⟨client, hclient⟩ := Option.isSome_iff_exists.mp hclient
  have hrelaying : ConnectionState.relaying ≠ .closed := by decide
  have hbusy : ((self.enter .relaying).call .busy).Sealed :=
    (h.enter hopen hrelaying).call hrelaying (by decide)
  unfold ProxyConnection.onConnectRequest
  rw [if_neg (not_lt.mpr hsize), hclient]
  dsimp only
  rw [if_pos (show allow client = true from rfl), ProxyConnection.openUpstream, if_neg hinit,
    sendConnectResponse, sendRelayPacket_of_not_write hwrite]
  exact hbusy.close.not_final_enter_call (close_state _) .idling .idle

theorem not_final_confirm (h : self.Sealed) (hclosed : self.state = .closed)
    (hconfirms : self.disconnectConfirms = 1) : ¬ ClosedFinal self.confirmDisconnect.effects := by
  have hreset : ({ self with disconnectConfirms := 0 } : ProxyConnection).Sealed := h.frame rfl rfl
  unfold ProxyConnection.confirmDisconnect
  dsimp only
  rw [hconfirms, if_pos rfl]
  exact hreset.not_final_enter_call hclosed .idling .idle

theorem not_final_disconnect (h : self.Sealed) (haccept : self.state ≠ .idling)
    (hconfirms : self.disconnectConfirms = 1)
    (hwrites : ¬ ((self.upstreamClosed ∨ env.write .disconnect) ∧ env.write .disconnectAck)) :
    ¬ ClosedFinal (self.onDisconnectRequest env).effects := by
  have hsent :
      ((self.closeUpstream env).sendRelayPacket env .disconnectAck .none).state = .closed := by
    by_cases hack : env.write .disconnectAck
    · have hupstream : ¬ (self.upstreamClosed ∨ env.write .disconnect) := fun hupstream =>
          hwrites ⟨hupstream, hack⟩
      rw [not_or] at hupstream
      have hclosed : (self.closeUpstream env).state = .closed := by
        by_cases hskip : self.state = .closed ∨ self.state = .idling ∨ self.upstreamClosed
        · rw [closeUpstream_of_skip hskip]
          exact hskip.resolve_right (not_or.mpr ⟨haccept, hupstream.1⟩)
        · rw [(closeUpstream_spec env hskip).1, sendRelayPacket_of_not_write hupstream.2]
          exact close_state _
      unfold ProxyConnection.sendRelayPacket
      rwa [if_pos hclosed]
    · rw [sendRelayPacket_of_not_write hack]
      exact close_state _
  have hcount :
      ((self.closeUpstream env).sendRelayPacket env .disconnectAck .none).disconnectConfirms =
      1 := by
    rw [sendRelayPacket_confirms, closeUpstream_confirms, hconfirms]
  unfold ProxyConnection.onDisconnectRequest
  rw [sendDisconnectResponse_eq]
  exact (h.closeUpstream.sendRelayPacket _ _).not_final_confirm hsent hcount

end Sealed

theorem processRelayPacket_of_handles {packet : RelayPacket} {type : PacketType}
    (h : self.Handles packet type) : self.processRelayPacket env packet =
      self.dispatch env packet type := by
  obtain ⟨hinit, htype, haccept⟩ := h
  have herror : type ≠ .error := by
    rintro rfl
    cases hstate : self.state <;> simp [hstate, ConnectionState.accept] at haccept
  unfold processRelayPacket
  rw [if_neg hinit, htype]
  dsimp only
  rw [if_neg herror, if_pos haccept]

/-- Without the condition a callback takes the connection out of `Closed`. -/
theorem Sealed.not_final_step (h : self.Sealed) (hfault : self.fault = none) {event : Event}
    (hkeeps : ¬ self.KeepsClosed env event) : ¬ ClosedFinal (self.step env event).effects := by
  have hstep : self.step env event = self.react env event := by
    unfold ProxyConnection.step
    rw [hfault]
    rfl
  rw [hstep]
  cases event with
  | relayPacket packet =>
    obtain hconnect | hdisconnect := not_and_or.mp hkeeps
    · simp only [Classical.not_imp, not_or] at hconnect
      obtain ⟨hhandles, hsize, hclient, hinit, hwrite⟩ := hconnect
      have hopen : self.state ≠ .closed := hhandles.state_ne rfl
      rw [react, processRelayPacket_of_handles hhandles]
      exact h.not_final_connect hopen hsize hclient hinit hwrite
    · simp only [Classical.not_imp] at hdisconnect
      obtain ⟨hhandles, hconfirms, hwrites⟩ := hdisconnect
      have hidling : self.state ≠ .idling := hhandles.state_ne rfl
      rw [react, processRelayPacket_of_handles hhandles]
      exact h.not_final_disconnect hidling hconfirms hwrites
  | complete request ok =>
    cases request with
    | upstreamConnect =>
      cases ok with
      | true => exact absurd trivial hkeeps
      | false =>
        obtain ⟨hpending, hclosed⟩ := Classical.not_imp.mp hkeeps
        rw [ne_eq, not_not] at hclosed
        have hrest :
            ({ self with pending := self.pending.erase .upstreamConnect } :
            ProxyConnection).Sealed :=
          h.frame rfl rfl
        have hnot :=
          hrest.closeUpstream2.not_final_enter_call ((closeUpstream2_spec _).1.trans hclosed)
          .idling .idle
        rw [react, if_pos hpending]
        exact fun hfinal => hnot (hfinal.of_initial (sendRelayPacket_extends _ _ _))
    | _ => exact absurd trivial hkeeps
  | _ => exact absurd trivial hkeeps

theorem run_sealed_iff (env : Env) (events : List (Env × Event)) :
    (ClosedFinal ((create env).run events).effects ↔
      Runs.Every (fun pre e => ((create env).run pre).fault = none →
      ((create env).run pre).KeepsClosed e.1 e.2) events) ∧
    (ClosedFinal ((create env).run events).effects → ((create env).run events).Sealed) := by
  induction events using List.reverseRecOn with
  | nil =>
    have hcreate := Sealed.create env
    exact ⟨iff_of_true hcreate.final Runs.every_nil, fun _ => hcreate⟩
  | append_singleton events e ih =>
    obtain ⟨hiff, hsealed⟩ := ih
    rw [run_concat, Runs.every_concat, ← hiff]
    have hbefore : ClosedFinal (((create env).run events).step e.1 e.2).effects →
        ClosedFinal ((create env).run events).effects := fun hfinal =>
          hfinal.of_initial (step_extends _ _)
    have hkeeps : ClosedFinal (((create env).run events).step e.1 e.2).effects →
        ((create env).run events).fault = none → ((create env).run events).KeepsClosed e.1 e.2 := by
      intro hfinal hfault
      by_contra hkeeps
      exact (hsealed (hbefore hfinal)).not_final_step hfault hkeeps hfinal
    refine ⟨⟨fun hfinal => ⟨hbefore hfinal, hkeeps hfinal⟩, fun h =>
      ((hsealed h.1).step h.2).final⟩, ?_⟩
    exact fun hfinal => (hsealed (hbefore hfinal)).step (hkeeps hfinal)

/-- A connection stays closed in a run, and no handler but `onClosed` is called for it, exactly if
each callback meets the condition: a CONNECT that is accepted finds `uv_tcp_init` or the write of
the CONNECT_ACK to succeed, a DISCONNECT that is the second confirmation has its writes succeed, and
a connection attempt to the upstream does not fail after the connection was closed. -/
theorem closedFinal_iff (env : Env) (events : List (Env × Event)) :
    ClosedFinal ((create env).run events).effects ↔
      Runs.Every (fun pre e => ((create env).run pre).fault = none →
        ((create env).run pre).KeepsClosed e.1 e.2) events := (run_sealed_iff env events).1

/-- The relay server ends the connection while the upstream is being connected, and libuv cancels
the attempt. -/
def cancelledConnect : List (Env × Event) :=
  [({}, .complete .relayConnect true),
    ({ isAuthenticated := true }, .relayPacket ⟨List.replicate 34 0, 34⟩),
    ({}, .relayPacket ⟨[0, 3, 0x88], 3⟩),
    ({ decrypt := fun _ => some (List.Vector.ofFn fun i => if i.val = 0 then 4 else 0) },
      .relayPacket ⟨[0, 38, 0x20] ++ List.replicate 35 0, 38⟩),
    ({}, .relayError),
    ({}, .complete .upstreamConnect false)]

theorem cancelledConnect_effects : ((create {}).run cancelledConnect).effects =
    [.enter .attaching 0, .enter .idling 0, .call .opened, .enter .relaying 0, .call .busy,
      .enter .closed 0,
      .call .idle, .call .closed, .returned, .enter .idling 0, .call .idle] := by
  decide +kernel

/-- The connection comes back to `Idling`, with another call of `onIdle`. -/
theorem cancelledConnect_not_final : ¬ ClosedFinal ((create {}).run cancelledConnect).effects := by
  rw [cancelledConnect_effects]
  intro hfinal
  refine (hfinal [.enter .attaching 0, .enter .idling 0, .call .opened, .enter .relaying 0,
    .call .busy] 0
    [.call .idle, .call .closed, .returned, .enter .idling 0, .call .idle] rfl).1 .idling 0 ?_
  simp

end ProxyConnection

end ActiveProxy

end Boson
