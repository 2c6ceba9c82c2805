import Boson.ActiveProxy.Closed

/-!
# The handles of a connection (`src/addons/activeproxy/connection.cc`)

`close` closes the two handles of a connection and then calls `onClosed`. It returns early at a
handle that is closing already, so the rest is not done if `closeUpstream2` has closed the upstream
a moment before.

* `closeHandles_of_unblocked`, `closeHandles_of_blocked`: what `close` does with the handles, and
  when it does not.
* `Tidy`: the handles and the calls of a connection that was closed only while none of its handles
  was closing.
* `Tidy.step`: the callbacks that keep a connection tidy are those that keep it closed
  (`KeepsClosed`) and release what they close (`Releases`).
-/

namespace Boson

namespace ActiveProxy

/-- The handle was opened: it is in use, or `uv_close` was called for it. -/
def Handle.Opened (self : Handle) : Prop := self.data ∨ self.closing

namespace ProxyConnection

/-- No handle waits for the callback of its `uv_close`, so `close` does not return early. -/
def Unblocked (self : ProxyConnection) : Prop :=
  ¬ (self.upstream.data ∧ self.upstream.closing) ∧ ¬ (self.relay.data ∧ self.relay.closing)

instance (self : ProxyConnection) : Decidable self.Unblocked := inferInstanceAs (Decidable (_ ∧ _))

/-- The callback does not spoil the end of the connection. If it closes the connection, no handle is
closing, and the callback does not close the upstream itself before: a connection attempt does not
fail together with its CONNECT_ACK, nor `uv_shutdown` together with the DISCONNECT_ACK. The upstream
is not opened again before the callback of its `uv_close`. -/
def Releases (env : Env) (self : ProxyConnection) (event : Event) : Prop :=
  (self.state ≠ .closed → (self.react env event).state = .closed → self.Unblocked) ∧
  match event with
  | .relayPacket packet =>
    (self.Handles packet .connect → CONNECT_REQ_SIZE ≤ packet.size →
      (connectClient env packet).isSome →
      env.tcpInit → .upstreamClose ∉ self.pending ∧ (env.tcpConnect ∨ env.write .connectAck)) ∧
    (self.Handles packet .disconnect → ¬ self.upstreamClosed → self.upstream.data →
      env.write .disconnect → env.shutdown ∨ env.write .disconnectAck)
  | .complete .upstreamConnect false =>
    .upstreamConnect ∈ self.pending → self.upstream.data → self.state ≠ .idling →
      env.write .connectAck
  | _ => True

/-- The handles of a connection, which were opened as `upstream` and `relay` say. A callback of
`uv_close` is to come only for a handle that is closing. -/
structure Held (upstream relay : Prop) (c : ProxyConnection) : Prop where
  upstreamOpened : upstream → c.upstream.Opened
  relayOpened : relay → c.relay.Opened
  upstreamClose : .upstreamClose ∈ c.pending → c.upstream.closing
  relayClose : .relayClose ∈ c.pending → c.relay.closing

/-- A connection whose `onClosed` is set as `handler` says. If it is closed, no handle is left open,
and the handler was called once if it is set. -/
structure Tidy (upstream relay : Prop) (handler : Bool) (c : ProxyConnection) : Prop
    extends Held upstream relay c where
  upstreamClosing : c.state = .closed → c.upstream.data → c.upstream.closing
  relayClosing : c.state = .closed → c.relay.data → c.relay.closing
  handler_eq : c.closeHandler = handler
  handler_of_open : c.state ≠ .closed → handler = true
  called : c.effects.count (.call .closed) = if c.state = .closed then handler.toNat else 0

variable {env : Env} {self : ProxyConnection} {upstream relay : Prop} {handler : Bool}

namespace Held

theorem frame {self' : ProxyConnection} (h : self.Held upstream relay)
    (hpending : ∀ request ∈ self'.pending, request ∈ self.pending ∨
      request ≠ .upstreamClose ∧ request ≠ .relayClose)
    (hupstream : self'.upstream = self.upstream) (hrelay : self'.relay = self.relay) :
    self'.Held upstream relay where
  upstreamOpened hopened := hupstream ▸ h.upstreamOpened hopened
  relayOpened hopened := hrelay ▸ h.relayOpened hopened
  upstreamClose hmem :=
    hupstream ▸ h.upstreamClose ((hpending _ hmem).resolve_right fun hne => hne.1 rfl)
  relayClose hmem := hrelay ▸ h.relayClose ((hpending _ hmem).resolve_right fun hne => hne.2 rfl)

theorem uvCloseUpstream (h : self.Held upstream relay) :
    self.uvCloseUpstream.Held upstream relay where
  upstreamOpened _ := .inr rfl
  relayOpened := h.relayOpened
  upstreamClose _ := rfl
  relayClose hmem := h.relayClose (List.mem_of_ne_of_mem (by decide) hmem)

theorem uvCloseRelay (h : self.Held upstream relay) : self.uvCloseRelay.Held upstream relay where
  upstreamOpened := h.upstreamOpened
  relayOpened _ := .inr rfl
  upstreamClose hmem := h.upstreamClose (List.mem_of_ne_of_mem (by decide) hmem)
  relayClose _ := rfl

end Held

/-- `close` closes the handles that are open and calls `onClosed`, unless it returns early. -/
theorem closeHandles_of_unblocked (h : self.Unblocked) :
    ∃ closed : ProxyConnection,
      self.closeHandles = (if closed.closeHandler then closed.call .closed else closed) ∧
      closed.state = self.state ∧ closed.closeHandler = self.closeHandler ∧
        closed.effects = self.effects ∧
      (closed.upstream.data → closed.upstream.closing) ∧
      (closed.relay.data → closed.relay.closing) ∧
      (self.Held upstream relay → closed.Held upstream relay) := by
  unfold closeHandles
  rw [if_neg h.1]
  dsimp only
  by_cases hupstream : self.upstream.data = true
  · rw [if_pos hupstream, show self.uvCloseUpstream.relay = self.relay from rfl, if_neg h.2]
    by_cases hrelay : self.relay.data = true
    · rw [if_pos hrelay]
      exact ⟨_, rfl, rfl, rfl, rfl, fun _ => rfl, fun _ => rfl, fun held =>
        held.uvCloseUpstream.uvCloseRelay⟩
    · rw [if_neg hrelay]
      exact ⟨_, rfl, rfl, rfl, rfl, fun _ => rfl, fun hdata => absurd hdata hrelay,
        fun held => held.uvCloseUpstream⟩
  · rw [if_neg hupstream, if_neg h.2]
    by_cases hrelay : self.relay.data = true
    · rw [if_pos hrelay]
      exact ⟨_, rfl, rfl, rfl, rfl, fun hdata => absurd hdata hupstream, fun _ => rfl,
        fun held => held.uvCloseRelay⟩
    · rw [if_neg hrelay]
      exact ⟨_, rfl, rfl, rfl, rfl, fun hdata => absurd hdata hupstream, fun hdata =>
        absurd hdata hrelay, id⟩

/-- It does return early at a handle that is closing, and the handler is not called. -/
theorem closeHandles_of_blocked (h : ¬ self.Unblocked) : self.closeHandles.effects =
    self.effects := by
  unfold closeHandles
  by_cases hupstream : self.upstream.data ∧ self.upstream.closing
  · rw [if_pos hupstream]
  · have hrelay : self.relay.data ∧ self.relay.closing := by
      by_contra hrelay
      exact h ⟨hupstream, hrelay⟩
    rw [if_neg hupstream]
    dsimp only
    split_ifs <;> first | rfl | exact absurd hrelay ‹_›

namespace Tidy

theorem frame {self' : ProxyConnection} (h : self.Tidy upstream relay handler)
    (hpending : ∀ request ∈ self'.pending, request ∈ self.pending ∨
      request ≠ .upstreamClose ∧ request ≠ .relayClose)
    (hupstream : self'.upstream = self.upstream) (hrelay : self'.relay = self.relay)
    (hstate : self'.state = self.state) (hhandler : self'.closeHandler = self.closeHandler)
    (heffects : self'.effects = self.effects) : self'.Tidy upstream relay handler where
  toHeld := h.toHeld.frame hpending hupstream hrelay
  upstreamClosing := by
    rw [hstate, hupstream]
    exact h.upstreamClosing
  relayClosing := by
    rw [hstate, hrelay]
    exact h.relayClosing
  handler_eq := hhandler.trans h.handler_eq
  handler_of_open hopen := h.handler_of_open (hstate ▸ hopen)
  called := by
    rw [heffects, hstate]
    exact h.called

theorem create (env : Env) : (ProxyConnection.create env).Tidy False False true := by
  unfold ProxyConnection.create connectServer
  dsimp only
  split_ifs
  all_goals exact ⟨⟨False.elim, False.elim, by simp [ProxyConnection.request], by
    simp [ProxyConnection.request]⟩,
    (fun h => by cases h), (fun h => by cases h), rfl, fun _ => rfl, rfl⟩

theorem request (h : self.Tidy upstream relay handler) {request : Request}
    (hupstream : request ≠ .upstreamClose)
    (hrelay : request ≠ .relayClose) : (self.request request).Tidy upstream relay handler := by
  refine h.frame (fun request' hmem => ?_) rfl rfl rfl rfl rfl
  obtain rfl | hmem := List.mem_cons.mp hmem
  · exact .inr ⟨hupstream, hrelay⟩
  · exact .inl hmem

theorem log (h : self.Tidy upstream relay handler) {effect : Effect}
    (heffect : effect ≠ .call .closed) :
    (self.log effect).Tidy upstream relay handler :=
  { h with
    called := by
      show (self.effects ++ [effect]).count (.call .closed) = _
      rw [List.count_append, List.count_singleton, if_neg (by simpa using heffect)]
      exact h.called }

theorem call (h : self.Tidy upstream relay handler) {call : Call} (hcall : call ≠ .closed) :
    (self.call call).Tidy upstream relay handler := h.log (by simpa using hcall)

theorem enter (h : self.Tidy upstream relay handler) (hopen : self.state ≠ .closed)
    {state : ConnectionState}
    (hstate : state ≠ .closed) : (self.enter state).Tidy upstream relay handler := by
  have hstates : ({ self with state := state } : ProxyConnection).Tidy upstream relay handler :=
    { toHeld := ⟨h.upstreamOpened, h.relayOpened, h.upstreamClose, h.relayClose⟩
      upstreamClosing := fun hclosed => absurd hclosed hstate
      relayClosing := fun hclosed => absurd hclosed hstate
      handler_eq := h.handler_eq
      handler_of_open := fun _ => h.handler_of_open hopen
      called := by
        have hcalled := h.called
        rw [if_neg hopen] at hcalled
        rw [if_neg hstate]
        exact hcalled }
  exact hstates.log (by simp)

end Tidy

/-- A `close` that does not return early, with the handler that is set. -/
theorem close_tidy (hheld : self.Held upstream relay) (hopen : self.state ≠ .closed)
    (hunblocked : self.Unblocked)
    (hcalled : self.effects.count (.call .closed) = 0) :
    self.close.Tidy upstream relay self.closeHandler := by
  unfold close
  rw [if_neg hopen]
  dsimp only
  -- the connection when the sockets are closed
  generalize hself' : (if self.state = .relaying then _ else _ : ProxyConnection) = self'
  have hbefore : self'.state = .closed ∧ self'.closeHandler = self.closeHandler ∧
      self'.effects.count (.call .closed) = 0 ∧ self'.upstream = self.upstream ∧
        self'.relay = self.relay ∧
      self'.pending = self.pending := by
    rw [← hself']
    split_ifs <;> simp [ProxyConnection.call, ProxyConnection.enter, ProxyConnection.log, hcalled]
  obtain ⟨hstate, hhandler, hcount, hupstream, hrelay, hpending⟩ := hbefore
  have hunblocked' : self'.Unblocked := by
    unfold Unblocked
    rw [hupstream, hrelay]
    exact hunblocked
  have hheld' : self'.Held upstream relay :=
    hheld.frame (fun _ hmem => .inl (hpending ▸ hmem)) hupstream hrelay
  obtain ⟨closed, heq, hstate', hhandler', heffects, hupstream', hrelay', hclosed⟩ :=
    closeHandles_of_unblocked hunblocked'
  have hlast : closed.state = .closed := hstate'.trans hstate
  rw [← hhandler, ← hhandler', heq]
  have hcount' : closed.effects.count (.call .closed) = 0 := by rw [heffects, hcount]
  refine Tidy.log ?_ (by simp)
  cases hset : closed.closeHandler with
  | false =>
    exact ⟨hclosed hheld', fun _ => hupstream', fun _ => hrelay', hset, fun h => absurd hlast h, by
      rw [if_neg (by decide), hcount']
      split_ifs
      rfl⟩
  | true =>
    refine ⟨hclosed hheld' |>.frame (fun _ => .inl) rfl rfl, fun _ => hupstream', fun _ => hrelay',
      hset, fun _ => rfl, ?_⟩
    rw [if_pos rfl]
    show (closed.effects ++ [Effect.call .closed]).count (.call .closed) = if closed.state =
      .closed then 1 else 0
    rw [List.count_append, hcount', if_pos hlast]
    rfl

/-- A `close` that returns early does not call the handler. -/
theorem close_of_blocked (hopen : self.state ≠ .closed) (hblocked : ¬ self.Unblocked) :
    self.close.effects.count (.call .closed) = self.effects.count (.call .closed) ∧
      self.close.closeHandler = self.closeHandler := by
  unfold close
  rw [if_neg hopen]
  dsimp only
  generalize hself' : (if self.state = .relaying then _ else _ : ProxyConnection) = self'
  have hbefore : self'.effects.count (.call .closed) = self.effects.count (.call .closed) ∧
      self'.closeHandler = self.closeHandler ∧ self'.upstream = self.upstream ∧
        self'.relay = self.relay := by
    rw [← hself']
    split_ifs <;> simp [ProxyConnection.call, ProxyConnection.enter, ProxyConnection.log]
  obtain ⟨hcount, hhandler, hupstream, hrelay⟩ := hbefore
  have hblocked' : ¬ self'.Unblocked := by
    unfold Unblocked
    rw [hupstream, hrelay]
    exact hblocked
  refine ⟨?_, (closeHandles_closeHandler self').trans hhandler⟩
  show (self'.closeHandles.effects ++ [Effect.returned]).count (Effect.call .closed) = _
  rw [closeHandles_of_blocked hblocked', List.count_append, hcount]
  rfl

namespace Tidy

theorem close (h : self.Tidy upstream relay handler)
    (hblock : self.state ≠ .closed → self.Unblocked) :
    self.close.Tidy upstream relay handler := by
  by_cases hclosed : self.state = .closed
  · rwa [close_of_closed hclosed]
  · have hcalled := h.called
    rw [if_neg hclosed] at hcalled
    rw [← h.handler_eq]
    exact close_tidy h.toHeld hclosed (hblock hclosed) hcalled

theorem sendRelayPacket (h : self.Tidy upstream relay handler) {type : PacketType}
    {callback : WriteCallback}
    (hblock : self.state ≠ .closed → (self.sendRelayPacket env type callback).state = .closed →
    self.Unblocked) :
    (self.sendRelayPacket env type callback).Tidy upstream relay handler := by
  by_cases hclosed : self.state = .closed
  · rwa [ProxyConnection.sendRelayPacket, if_pos hclosed]
  · by_cases hwrite : env.write type = true
    · rw [sendRelayPacket_of_write hclosed hwrite]
      exact h.request (by simp) (by simp)
    · rw [sendRelayPacket_of_not_write hwrite] at hblock ⊢
      exact h.close fun hopen => hblock hopen (close_state self)

theorem closeUpstream2 (h : self.Tidy upstream relay handler) :
    self.closeUpstream2.Tidy upstream relay handler := by
  unfold ProxyConnection.closeUpstream2
  dsimp only
  split_ifs with hskip hdone
  · exact h
  · exact h.frame (fun _ => .inl) rfl rfl rfl rfl rfl
  · have hopen : self.state ≠ .closed := fun hclosed => hskip (.inl hclosed)
    have hmarked : ({ self with upstreamClosed := true } : ProxyConnection).Tidy upstream
        relay handler :=
      h.frame (fun _ => .inl) rfl rfl rfl rfl rfl
    exact { hmarked with
      toHeld := hmarked.toHeld.uvCloseUpstream
      upstreamClosing := fun hclosed => absurd hclosed hopen }

theorem closeUpstream (h : self.Tidy upstream relay handler)
    (hblock : self.state ≠ .closed → (self.closeUpstream env).state = .closed → self.Unblocked) :
    (self.closeUpstream env).Tidy upstream relay handler := by
  by_cases hskip : self.state = .closed ∨ self.state = .idling ∨ self.upstreamClosed
  · rwa [closeUpstream_of_skip hskip]
  · have hopen : self.state ≠ .closed := fun hclosed => hskip (.inl hclosed)
    have hmarked : ({ self with upstreamClosed := true } : ProxyConnection).Tidy upstream
        relay handler :=
      h.frame (fun _ => .inl) rfl rfl rfl rfl rfl
    rw [(closeUpstream_spec env hskip).1] at hblock
    have hsent :=
      (hmarked.enter hopen (by decide : ConnectionState.disconnecting ≠ .closed)).sendRelayPacket
      fun _ => hblock hopen
    unfold ProxyConnection.closeUpstream
    rw [if_neg hskip]
    dsimp only
    rw [sendDisconnectRequest_eq]
    split_ifs
    · exact hsent.request (by decide) (by decide)
    · exact hsent.closeUpstream2

theorem startReadUpstream (h : self.Tidy upstream relay handler)
    (hblock : self.state ≠ .closed → (self.startReadUpstream env).state = .closed →
      self.Unblocked) :
    (self.startReadUpstream env).Tidy upstream relay handler := by
  unfold ProxyConnection.startReadUpstream at hblock ⊢
  split_ifs at hblock ⊢
  · exact h
  · exact h.closeUpstream hblock

/-- The upstream could not be connected. -/
theorem connectFailed (h : self.Tidy upstream relay handler) (hopen : self.state ≠ .closed)
    (hblock : ¬ env.write .connectAck → self.closeUpstream2.Unblocked) :
    (((self.closeUpstream2.enter .idling).call .idle).sendConnectResponse env false).Tidy upstream
      relay handler := by
  have hopen' : self.closeUpstream2.state ≠ .closed := by rwa [(closeUpstream2_spec self).1]
  refine ((h.closeUpstream2.enter hopen' (by decide)).call (by decide)).sendRelayPacket
    fun _ hclosed => ?_
  refine hblock fun hwrite => ?_
  rw [sendRelayPacket_of_write (show ConnectionState.idling ≠ .closed by decide) hwrite] at hclosed
  exact absurd hclosed (show ConnectionState.idling ≠ .closed by decide)

theorem openUpstream (h : self.Tidy upstream relay handler) (hopen : self.state ≠ .closed)
    (hpending : env.tcpInit → .upstreamClose ∉ self.pending ∧
      (env.tcpConnect ∨ env.write .connectAck))
    (hwrite : env.tcpInit ∨ env.write .connectAck) :
    (self.openUpstream env).Tidy upstream relay handler := by
  unfold ProxyConnection.openUpstream
  dsimp only
  split_ifs with htcp hconnect
  · have hopened :
        ({ self with upstream := { data := true }, upstreamClosed := false } : ProxyConnection).Tidy
        upstream relay handler :=
      { h with
        toHeld :=
          ⟨fun _ => .inl rfl, h.relayOpened, fun hmem => absurd hmem (hpending htcp).1,
            h.relayClose⟩
        upstreamClosing := fun hclosed => absurd hclosed hopen }
    exact hopened.request (by decide) (by decide)
  · have hopened :
        ({ self with upstream := { data := true }, upstreamClosed := false } : ProxyConnection).Tidy
        upstream relay handler :=
      { h with
        toHeld :=
          ⟨fun _ => .inl rfl, h.relayOpened, fun hmem => absurd hmem (hpending htcp).1,
            h.relayClose⟩
        upstreamClosing := fun hclosed => absurd hclosed hopen }
    exact hopened.connectFailed hopen fun hno =>
      absurd ((hpending htcp).2.resolve_left hconnect) hno
  · rw [sendConnectResponse, sendRelayPacket_of_write hopen (hwrite.resolve_left htcp)]
    exact ((h.request (by simp) (by simp)).enter hopen (by decide)).call (by decide)

theorem onChallenge (h : self.Tidy upstream relay handler) {size : Nat}
    (hblock : self.state ≠ .closed → (self.onChallenge env size).state = .closed → self.Unblocked) :
    (self.onChallenge env size).Tidy upstream relay handler := by
  unfold ProxyConnection.onChallenge sendAttachRequest sendAuthenticateRequest at hblock ⊢
  split_ifs at hblock ⊢ with hsize hauth hclosed hclosed
  · exact h
  · exact h
  · exact (h.enter hclosed (by decide)).sendRelayPacket fun _ => hblock hclosed
  · exact h
  · exact (h.enter hclosed (by decide)).sendRelayPacket fun _ => hblock hclosed

theorem throw (h : self.Tidy upstream relay handler) (fault : Fault) :
    (self.throw fault).Tidy upstream relay handler := h.frame (fun _ => .inl) rfl rfl rfl rfl rfl

theorem onError (h : self.Tidy upstream relay handler) {packet : RelayPacket}
    (hblock : self.state ≠ .closed → (self.onError env packet).state = .closed → self.Unblocked) :
    (self.onError env packet).Tidy upstream relay handler := by
  unfold ProxyConnection.onError at hblock ⊢
  split_ifs at hblock ⊢
  · exact h.throw _
  · split at hblock
    · exact h.throw _
    · split_ifs at hblock ⊢
      · exact h.throw _
      · exact h.close fun hopen => hblock hopen (close_state self)

theorem onAuthenticateResponse (h : self.Tidy upstream relay handler) (hopen : self.state ≠ .closed)
    {packet : RelayPacket}
    (hblock : (self.onAuthenticateResponse env packet).state = .closed → self.Unblocked) :
    (self.onAuthenticateResponse env packet).Tidy upstream relay handler := by
  unfold ProxyConnection.onAuthenticateResponse at hblock ⊢
  split_ifs at hblock ⊢
  · exact h.close fun _ => hblock (close_state self)
  · dsimp only at hblock ⊢
    split
    · exact h.throw _
    · split_ifs
      · exact (((h.call (by simp)).call (by simp)).enter hopen (by decide)).call (by decide)
      · exact (h.call (by simp)).throw _

theorem onConnectRequest (h : self.Tidy upstream relay handler) (hopen : self.state ≠ .closed)
    {packet : RelayPacket}
    (hblock : (self.onConnectRequest env packet).state = .closed → self.Unblocked)
    (hpending : CONNECT_REQ_SIZE ≤ packet.size → (connectClient env packet).isSome → env.tcpInit →
      .upstreamClose ∉ self.pending ∧ (env.tcpConnect ∨ env.write .connectAck))
    (hwrite : CONNECT_REQ_SIZE ≤ packet.size → (connectClient env packet).isSome →
      env.tcpInit ∨ env.write .connectAck) :
    (self.onConnectRequest env packet).Tidy upstream relay handler := by
  unfold ProxyConnection.onConnectRequest at hblock ⊢
  split_ifs at hblock ⊢ with hsize
  · exact h.close fun _ => hblock (close_state self)
  · have hbusy : ((self.enter .relaying).call .busy).Tidy upstream relay handler :=
      (h.enter hopen (by decide)).call (by decide)
    dsimp only
    split
    · exact hbusy.throw _
    · next client hclient =>
      rw [hclient] at hpending hwrite
      rw [if_pos (show allow client = true from rfl)]
      exact hbusy.openUpstream (show ConnectionState.relaying ≠ .closed by decide)
        (hpending (not_lt.mp hsize) rfl) (hwrite (not_lt.mp hsize) rfl)

theorem confirmDisconnect (h : self.Tidy upstream relay handler)
    (hopen : self.disconnectConfirms = 1 → self.state ≠ .closed) :
    self.confirmDisconnect.Tidy upstream relay handler := by
  unfold ProxyConnection.confirmDisconnect
  dsimp only
  split_ifs with hconfirms
  · have hreset : ({ self with disconnectConfirms := 0 } : ProxyConnection).Tidy upstream
        relay handler :=
      h.frame (fun _ => .inl) rfl rfl rfl rfl rfl
    exact (hreset.enter (hopen (by omega)) (by decide)).call (by decide)
  · exact h.frame (fun _ => .inl) rfl rfl rfl rfl rfl

/-- The second confirmation is not counted for a connection that `closeUpstream` or the write of the
DISCONNECT_ACK has closed. -/
theorem confirmDisconnect_state (hopen : self.disconnectConfirms = 1 → self.state ≠ .closed)
    (hclosed : self.state = .closed) : self.confirmDisconnect.state = .closed := by
  unfold ProxyConnection.confirmDisconnect
  dsimp only
  rw [if_neg fun hconfirms => hopen (by omega) hclosed]
  exact hclosed

/-- `closeUpstream` closes the upstream handle itself only if `uv_shutdown` fails. -/
theorem closeUpstream_unblocked (hunblocked : self.Unblocked)
    (hopen : (self.closeUpstream env).state ≠ .closed)
    (hshutdown : ¬ self.upstreamClosed → self.upstream.data → env.write .disconnect →
    env.shutdown) :
    (self.closeUpstream env).Unblocked := by
  by_cases hskip : self.state = .closed ∨ self.state = .idling ∨ self.upstreamClosed
  · rwa [closeUpstream_of_skip hskip]
  · rw [(closeUpstream_spec env hskip).1] at hopen
    by_cases hwrite : env.write .disconnect = true
    · have hnot : ¬ self.upstreamClosed := fun hclosed => hskip (.inr (.inr hclosed))
      unfold ProxyConnection.closeUpstream
      rw [if_neg hskip]
      dsimp only
      rw [sendDisconnectRequest_eq, sendRelayPacket_of_write (show ConnectionState.disconnecting ≠
        .closed by decide) hwrite]
      split_ifs with hsent
      · exact hunblocked
      · have hdata : ¬ self.upstream.data = true := fun hdata => hsent (hshutdown hnot hdata hwrite)
        unfold ProxyConnection.closeUpstream2
        rw [if_neg (by
          show ¬ (ConnectionState.disconnecting = .closed ∨ ConnectionState.disconnecting = .idling)
          decide)]
        dsimp only
        rw [if_pos (.inl hdata)]
        exact hunblocked
    · rw [sendRelayPacket_of_not_write hwrite] at hopen
      exact absurd (close_state _) hopen

theorem onDisconnectRequest (h : self.Tidy upstream relay handler) (hopen : self.state ≠ .closed)
    (hblock : (self.onDisconnectRequest env).state = .closed → self.Unblocked)
    (hack : ¬ self.upstreamClosed → self.upstream.data → env.write .disconnect →
      env.shutdown ∨ env.write .disconnectAck)
    (hwrite : self.disconnectConfirms = 1 →
      (self.upstreamClosed ∨ env.write .disconnect) ∧ env.write .disconnectAck) :
    (self.onDisconnectRequest env).Tidy upstream relay handler := by
  unfold ProxyConnection.onDisconnectRequest at hblock ⊢
  rw [sendDisconnectResponse_eq] at hblock ⊢
  have hconfirms :
      ((self.closeUpstream env).sendRelayPacket env .disconnectAck .none).disconnectConfirms =
      self.disconnectConfirms := by
    rw [sendRelayPacket_confirms, closeUpstream_confirms]
  have hlast :
      ((self.closeUpstream env).sendRelayPacket env .disconnectAck .none).disconnectConfirms = 1 →
      ((self.closeUpstream env).sendRelayPacket env .disconnectAck .none).state ≠ .closed := by
    intro hone
    rw [hconfirms] at hone
    exact onDisconnectRequest_open hopen (hwrite hone)
  have hclosed
      (hsent : ((self.closeUpstream env).sendRelayPacket env .disconnectAck .none).state =
        .closed) :
      self.Unblocked := hblock (confirmDisconnect_state hlast hsent)
  have hfirst : (self.closeUpstream env).Tidy upstream relay handler := by
    refine h.closeUpstream fun _ hstate => hclosed ?_
    rwa [ProxyConnection.sendRelayPacket, if_pos hstate]
  refine (hfirst.sendRelayPacket fun hstate hsent => ?_).confirmDisconnect hlast
  refine closeUpstream_unblocked (hclosed hsent) hstate fun hnot hdata hdisconnect => ?_
  refine (hack hnot hdata hdisconnect).resolve_right fun hsuccess => ?_
  rw [sendRelayPacket_of_write hstate hsuccess] at hsent
  exact hstate hsent

theorem onDataRequest (h : self.Tidy upstream relay handler) {packet : RelayPacket}
    (hblock : self.state ≠ .closed → (self.onDataRequest env packet).state = .closed →
      self.Unblocked) :
    (self.onDataRequest env packet).Tidy upstream relay handler := by
  unfold ProxyConnection.onDataRequest at hblock ⊢
  by_cases hsize : packet.size < PACKET_HEADER_BYTES + MAC_BYTES
  · rw [if_pos hsize]
    exact h.throw _
  · rw [if_neg hsize] at hblock ⊢
    split at hblock
    · exact h.throw _
    · split_ifs at hblock ⊢
      · exact h.request (by decide) (by decide)
      · exact h.closeUpstream hblock

theorem dispatch (h : self.Tidy upstream relay handler) {packet : RelayPacket} {type : PacketType}
    (hhandles : self.Handles packet type)
    (hblock : (self.dispatch env packet type).state = .closed → self.Unblocked)
    (hkeeps : self.KeepsClosed env (.relayPacket packet))
    (hreleases : self.Releases env (.relayPacket packet)) :
    (self.dispatch env packet type).Tidy upstream relay handler := by
  have hopen : self.state ≠ .closed := hhandles.state_ne rfl
  cases type with
  | authAck => exact h.onAuthenticateResponse hopen hblock
  | attachAck => exact (h.enter hopen (by decide)).call (by decide)
  | connect => exact h.onConnectRequest hopen hblock (hreleases.2.1 hhandles) (hkeeps.1 hhandles)
  | data => exact h.onDataRequest fun _ => hblock
  | disconnect =>
    exact h.onDisconnectRequest hopen hblock (hreleases.2.2 hhandles) (hkeeps.2 hhandles)
  | disconnectAck => exact h.confirmDisconnect fun _ => hopen
  | _ => exact h

theorem processRelayPacket (h : self.Tidy upstream relay handler) {packet : RelayPacket}
    (hkeeps : self.KeepsClosed env (.relayPacket packet))
    (hreleases : self.Releases env (.relayPacket packet)) :
    (self.processRelayPacket env packet).Tidy upstream relay handler := by
  have hblock : self.state ≠ .closed → (self.processRelayPacket env packet).state = .closed →
      self.Unblocked :=
    hreleases.1
  unfold ProxyConnection.processRelayPacket at hblock ⊢
  by_cases hinit : self.state = .initializing
  · rw [if_pos hinit] at hblock ⊢
    exact h.onChallenge hblock
  · rw [if_neg hinit] at hblock ⊢
    cases htype : packet.type with
    | error fault => exact h.throw _
    | ok type =>
      simp only [htype] at hblock ⊢
      split_ifs at hblock ⊢ with herror haccept
      · exact h.onError hblock
      · have hhandles : self.Handles packet type := ⟨hinit, htype, haccept⟩
        exact h.dispatch hhandles (hblock (hhandles.state_ne rfl)) hkeeps hreleases
      · exact h.close fun hopen => hblock hopen (close_state self)

theorem written (h : self.Tidy upstream relay handler) {callback : WriteCallback}
    (hblock : self.state ≠ .closed → (self.written env callback).state = .closed → self.Unblocked) :
    (self.written env callback).Tidy upstream relay handler := by
  cases callback with
  | none => exact h
  | connectResponse success =>
    simp only [ProxyConnection.written] at hblock ⊢
    split_ifs at hblock ⊢
    · exact h.startReadUpstream hblock
    · exact h
  | dataRequest =>
    simp only [ProxyConnection.written] at hblock ⊢
    split_ifs at hblock ⊢
    · have hresume : ({ self with upstreamPaused := false } : ProxyConnection).Tidy upstream
          relay handler :=
        h.frame (fun _ => .inl) rfl rfl rfl rfl rfl
      exact hresume.startReadUpstream hblock
    · exact h

/-- A connection attempt to the upstream that failed leaves no handle closing if there was none to
close. -/
theorem closeUpstream2_unblocked (self : ProxyConnection) (hunblocked : self.Unblocked)
    (hdata : self.state ≠ .idling → ¬ self.upstream.data) : self.closeUpstream2.Unblocked := by
  unfold ProxyConnection.closeUpstream2
  split_ifs with hskip
  · exact hunblocked
  · have hnot : ¬ self.upstream.data = true := hdata fun hidling => hskip (.inr hidling)
    dsimp only
    rw [if_pos (.inl hnot)]
    exact hunblocked

theorem complete (h : self.Tidy upstream relay handler) {request : Request} {ok : Bool}
    (hmem : request ∈ self.pending)
    (hkeeps : self.KeepsClosed env (.complete request ok))
    (hreleases : self.Releases env (.complete request ok)) :
    ({ self with pending := self.pending.erase request }.complete env request ok).Tidy upstream
      relay handler := by
  have hrest : ({ self with pending := self.pending.erase request } : ProxyConnection).Tidy upstream
      relay handler :=
    h.frame (fun _ hrequest => .inl (List.mem_of_mem_erase hrequest)) rfl rfl rfl rfl rfl
  have hblock : self.state ≠ .closed →
      ({ self with pending := self.pending.erase request }.complete env request ok).state =
        .closed → self.Unblocked := by
    have hblock := hreleases.1
    rwa [react, if_pos hmem] at hblock
  unfold ProxyConnection.complete at hblock ⊢
  split at hblock
  · unfold establish at hblock ⊢
    split_ifs at hblock ⊢
    · exact hrest
    · exact hrest.close fun hopen => hblock hopen (close_state _)
  · exact hrest.close fun hopen => hblock hopen (close_state _)
  · exact hrest.written hblock
  · exact hrest.close fun hopen => hblock hopen (close_state _)
  · have hclosing := h.relayClose hmem
    exact { hrest with
      toHeld :=
        ⟨hrest.upstreamOpened, fun _ => .inr hclosing, hrest.upstreamClose, fun _ => hclosing⟩
      relayClosing := fun _ _ => hclosing }
  · exact hrest.sendRelayPacket hblock
  · have hopen : self.state ≠ .closed := hkeeps hmem
    refine hrest.connectFailed hopen fun hno => ?_
    have hunblocked : self.Unblocked := by
      refine hblock hopen ?_
      rw [sendConnectResponse, sendRelayPacket_of_not_write hno]
      exact close_state _
    exact closeUpstream2_unblocked _ hunblocked fun hidling hdata =>
      hno (hreleases.2 hmem hdata hidling)
  · exact hrest
  · exact hrest.closeUpstream hblock
  · exact hrest.closeUpstream2
  · have hclosing := h.upstreamClose hmem
    exact { hrest with
      toHeld := ⟨fun _ => .inr hclosing, hrest.relayOpened, fun _ => hclosing, hrest.relayClose⟩
      upstreamClosing := fun _ _ => hclosing }

/-- A callback keeps a connection tidy under the two conditions. -/
theorem step (h : self.Tidy upstream relay handler) {event : Event}
    (hkeeps : self.fault = none → self.KeepsClosed env event)
    (hreleases : self.fault = none → self.Releases env event) :
    (self.step env event).Tidy upstream relay handler := by
  unfold ProxyConnection.step
  split_ifs with hfault
  · exact h
  · have hnone := Option.not_isSome_iff_eq_none.mp hfault
    have hblock := (hreleases hnone).1
    cases event with
    | relayRead => exact h.frame (fun _ => .inl) rfl rfl rfl rfl rfl
    | relayPacket packet => exact h.processRelayPacket (hkeeps hnone) (hreleases hnone)
    | relayError => exact h.close fun hopen => hblock hopen (close_state self)
    | upstreamRead =>
      have hsent : (self.sendRelayPacket env .data .dataRequest).Tidy upstream relay handler := by
        refine h.sendRelayPacket fun hopen hclosed => hblock hopen ?_
        unfold react sendDataRequest
        dsimp only
        split_ifs <;> exact hclosed
      show (self.sendDataRequest env).Tidy upstream relay handler
      unfold sendDataRequest
      dsimp only
      split_ifs
      · exact hsent.frame (fun _ => .inl) rfl rfl rfl rfl rfl
      · exact hsent
    | upstreamError => exact h.closeUpstream hblock
    | complete request ok =>
      show (if _ then _ else _ : ProxyConnection).Tidy upstream relay handler
      split_ifs with hmem
      · exact h.complete hmem (hkeeps hnone) (hreleases hnone)
      · exact h
    | periodicCheck =>
      show (self.periodicCheck env).Tidy upstream relay handler
      have hblock : self.state ≠ .closed → (self.periodicCheck env).state = .closed →
          self.Unblocked := hblock
      unfold ProxyConnection.periodicCheck at hblock ⊢
      split_ifs at hblock ⊢
      · exact h
      · exact h.close fun hopen => hblock hopen (close_state self)
      · exact h.sendRelayPacket hblock
      · exact h
    | close => exact h.close fun hopen => hblock hopen (close_state self)

end Tidy

/-- A callback that leaves the connection open, with no failure on its way, releases what it
closes. -/
theorem Releases.of_succeeds {event : Event} (hopen : (self.react env event).state ≠ .closed)
    (hpending : .upstreamClose ∉ self.pending) (hconnect : env.tcpConnect)
    (hshutdown : env.shutdown)
    (hevent : event ≠ .complete .upstreamConnect false) : self.Releases env event := by
  refine ⟨fun _ hclosed => absurd hclosed hopen, ?_⟩
  split
  · exact ⟨fun _ _ _ _ => ⟨hpending, .inl hconnect⟩, fun _ _ _ _ => .inl hshutdown⟩
  · exact absurd rfl hevent
  · trivial

end ProxyConnection

end ActiveProxy

end Boson
