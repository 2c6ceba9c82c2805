import Boson.ActiveProxy.Release
import Boson.Lib.Sweep

/-!
# The health check (`ActiveProxy::healthCheck`)

A range-based loop over the vector of connections calls `periodicCheck` of each. The check closes a
connection that is dead, and `onClosed` erases a closed connection from the vector while the loop is
at it: the next connection moves up and is skipped, and the loop runs past the last one.

* `ClosedByCheck`: which connections are erased by their check.
* `Listed`: in every run, the vector holds connections that were made, each once.
* `checked_iff`: the loop checks each connection once and stays within the vector exactly if none
  but the last connection is closed by its check.
-/

namespace Boson

namespace ActiveProxy

namespace ProxyConnection

variable {env : Env} {self : ProxyConnection}

/-- The check closes the connection and calls `onClosed`: the connection is dead, or the ping cannot
be written. -/
def ClosedByCheck (env : Env) (self : ProxyConnection) : Prop :=
  self.fault = none ∧ self.state ≠ .relaying ∧ self.state ≠ .closed ∧ self.Unblocked ∧
    self.closeHandler = true ∧
    (self.isDead env = true ∨
      self.state = .idling ∧
        (env.now - self.keepAliveTimestamp).toNat ≥ KEEP_ALIVE_INTERVAL - env.randomShift ∧
        env.write .ping = false)

/-- The effects of `close`. -/
theorem close_effects (h : self.state ≠ .closed) :
    self.close.effects = self.effects ++
      (.enter .closed self.disconnectConfirms :: (closeCalls self.state ++
        if self.Unblocked ∧ self.closeHandler = true then [.call .closed]
        else []) ++ [.returned]) := by
  unfold close
  rw [if_neg h]
  dsimp only
  generalize hself' : (if self.state = .relaying then _ else _ : ProxyConnection) = self'
  have hbefore : self'.closeHandler = self.closeHandler ∧ self'.upstream = self.upstream ∧
      self'.relay = self.relay ∧
      self'.effects = self.effects ++ .enter .closed self.disconnectConfirms ::
        closeCalls self.state := by
    rw [← hself', closeCalls]
    split_ifs <;> simp [call, enter, log]
  obtain ⟨hhandler, hupstream, hrelay, heffects⟩ := hbefore
  have hblock : self'.Unblocked ↔ self.Unblocked := by
    unfold Unblocked
    rw [hupstream, hrelay]
  have hhandles : self'.closeHandles.effects = self'.effects ++
      if self.Unblocked ∧ self.closeHandler = true then [.call .closed] else [] := by
    by_cases hunblocked : self.Unblocked
    · obtain ⟨closed, heq, -, hset, hsame, -, -, -⟩ :=
        @closeHandles_of_unblocked self' True True (hblock.mpr hunblocked)
      rw [heq, hset, hhandler]
      by_cases hcalled : self.closeHandler = true
      · rw [if_pos hcalled, if_pos ⟨hunblocked, hcalled⟩, ← hsame]
        rfl
      · rw [if_neg hcalled, if_neg fun h => hcalled h.2, hsame, List.append_nil]
    · rw [closeHandles_of_blocked (mt hblock.mp hunblocked), if_neg fun h => hunblocked h.1,
        List.append_nil]
  rw [log, hhandles, heffects]
  simp

theorem close_called_iff :
    .call .closed ∈ self.close.effects.drop self.effects.length ↔
      self.state ≠ .closed ∧ self.Unblocked ∧ self.closeHandler = true := by
  by_cases hclosed : self.state = .closed
  · rw [close_of_closed hclosed, List.drop_length]
    exact iff_of_false List.not_mem_nil fun h => h.1 hclosed
  · have hfirst : Effect.call .closed ∉ closeCalls self.state := fun hmem => by
      simpa using closeCalls_subset _ hmem
    rw [close_effects hclosed, List.drop_left]
    split_ifs with h
    · exact iff_of_true (by simp) ⟨hclosed, h⟩
    · exact iff_of_false (by simp [hfirst]) fun h' => h h'.2

/-- `onClosed` is called by a check exactly if `ClosedByCheck` says so. -/
theorem periodicCheck_called_iff :
    .call .closed ∈ (self.step env .periodicCheck).effects.drop self.effects.length ↔
      self.ClosedByCheck env := by
  have hnone : Effect.call .closed ∉ self.effects.drop self.effects.length := by
    rw [List.drop_length]
    exact List.not_mem_nil
  unfold step ClosedByCheck
  by_cases hfault : self.fault = none
  swap
  · rw [if_pos (Option.isSome_iff_ne_none.mpr hfault)]
    exact iff_of_false hnone fun h => hfault h.1
  rw [if_neg (by simp [hfault])]
  show .call .closed ∈ (self.periodicCheck env).effects.drop _ ↔ _
  unfold periodicCheck
  split_ifs with hrelaying hdead hping
  · exact iff_of_false hnone fun h => h.2.1 hrelaying
  · rw [close_called_iff]
    simp only [hfault, hdead, true_and, true_or, and_true]
    tauto
  · have hopen : self.state ≠ .closed := by
      rw [hping.1]
      decide
    unfold sendPingRequest sendRelayPacket
    rw [if_neg hopen]
    split_ifs with hwrite
    · refine iff_of_false hnone fun h => ?_
      rcases h.2.2.2.2.2 with hd | ⟨-, -, hw⟩
      · exact hdead hd
      · rw [hwrite] at hw
        cases hw
    · rw [close_called_iff]
      have hw : env.write .ping = false := Bool.eq_false_iff.mpr hwrite
      simp only [hfault, hw, hping, true_and, and_true, or_true]
      tauto
  · refine iff_of_false hnone fun h => ?_
    rcases h.2.2.2.2.2 with hd | ⟨hidle, hlong, -⟩
    · exact hdead hd
    · exact hping ⟨hidle, hlong⟩

end ProxyConnection

namespace Proxy

variable {self : Proxy} {envs : Nat → Env} {id : Nat}

/-- `ActiveProxy::healthCheck`, with what the check of each connection gets from outside. The loop
takes the end of the vector once; erasing an element moves up those behind it. -/
def healthCheck (self : Proxy) (envs : Nat → Env) : Sweep.Trace Proxy Nat :=
  Sweep.sweep Proxy.connections (fun self id => self.callback id (envs id) .periodicCheck) self

/-- Each connection that was in the vector was checked once, and nothing was read outside the
vector. -/
def Checked (self : Proxy) (envs : Nat → Env) : Prop :=
  (self.healthCheck envs).outside = false ∧
    ∀ id ∈ self.connections, (self.healthCheck envs).visited.count id = 1

/-- The check of a connection closes it. -/
def ClosedByCheck (envs : Nat → Env) (self : Proxy) (id : Nat) : Prop :=
  ∃ c, self.objects[id]? = some c ∧ c.ClosedByCheck (envs id)

theorem callback_objects (self : Proxy) (id : Nat) (env : Env) (event : Event) {other : Nat}
    (h : other ≠ id) : (self.callback id env event).objects[other]? = self.objects[other]? := by
  unfold callback
  split
  · rfl
  · rw [update_objects]
    exact List.getElem?_set_ne h.symm

theorem callback_connections_sublist (self : Proxy) (id : Nat) (env : Env) (event : Event) :
    (self.callback id env event).connections.Sublist self.connections := by
  unfold callback
  split
  · exact List.Sublist.refl _
  · exact (self.update_connections _ id _ _).1

/-- A check takes the connection out of the vector if it closes it, and no other one. -/
theorem healthCheck_erasing (envs : Nat → Env) :
    Sweep.Erasing Proxy.connections (fun self id => self.callback id (envs id) .periodicCheck)
      (ClosedByCheck envs) where
  kept self id h := by
    unfold callback
    cases hc : self.objects[id]? with
    | none => rfl
    | some c =>
      refine (self.update_connections _ id c _).2.1 fun hmem => ?_
      exact h ⟨c, hc, ProxyConnection.periodicCheck_called_iff.mp hmem⟩
  erased self id hnodup hid h := by
    obtain ⟨c, hc, hclosed⟩ := h
    have hsub := callback_connections_sublist self id (envs id) .periodicCheck
    have hgone : id ∉ (self.callback id (envs id) .periodicCheck).connections := by
      unfold callback
      rw [hc]
      exact update_erased _ hnodup (ProxyConnection.periodicCheck_called_iff.mpr hclosed)
    refine lt_of_le_of_ne hsub.length_le fun hlen => ?_
    exact hgone (hsub.eq_of_length hlen ▸ hid)
  length_le self id := (callback_connections_sublist self id (envs id) .periodicCheck).length_le
  others self id other h := by
    unfold ClosedByCheck
    rw [callback_objects self id (envs id) .periodicCheck h]

/-! ## The vector in a run -/

/-- The vector holds connections that were made, each once. -/
structure Listed (p : Proxy) : Prop where
  nodup : p.connections.Nodup
  known : ∀ id ∈ p.connections, id < p.objects.length

namespace Listed

theorem sublist (h : self.Listed) {p : Proxy} (hsub : p.connections.Sublist self.connections)
    (hlen : p.objects.length = self.objects.length) : p.Listed where
  nodup := h.nodup.sublist hsub
  known id hid := hlen ▸ h.known id (hsub.subset hid)

theorem update (h : self.Listed) (now : UInt64) (id : Nat) (c next : ProxyConnection) :
    (self.update now id c next).Listed := by
  refine h.sublist (self.update_connections now id c next).1 ?_
  rw [update_objects]
  exact List.length_set

theorem callback (h : self.Listed) (id : Nat) (env : Env) (event : Event) :
    (self.callback id env event).Listed := by
  unfold Proxy.callback
  split
  · exact h
  · exact h.update _ _ _ _

theorem release (h : self.Listed) (now : UInt64) (id : Nat) : (self.release now id).Listed := by
  unfold Proxy.release
  split
  · exact h
  · exact h.update _ _ _ _

theorem releases (h : self.Listed) (now : UInt64) (ids : List Nat) :
    (ids.foldl (fun self id => self.release now id) self).Listed := by
  induction ids generalizing self with
  | nil => exact h
  | cons id ids ih => exact ih (h.release now id)

theorem connect (h : self.Listed) (env : Env) : (self.connect env).Listed where
  nodup := by
    refine List.nodup_append'.mpr ⟨h.nodup, List.nodup_singleton _, ?_⟩
    intro id hid hnew
    obtain rfl := List.mem_singleton.mp hnew
    exact absurd (h.known _ hid) (Nat.lt_irrefl _)
  known id hid := by
    show id < (self.objects ++ [_]).length
    rw [List.length_append, List.length_singleton]
    rcases List.mem_append.mp hid with hold | hnew
    · exact Nat.lt_succ_of_lt (h.known id hold)
    · exact List.mem_singleton.mp hnew ▸ Nat.lt_succ_self _

theorem needsNewConnection (h : self.Listed) (now : UInt64) :
    (self.needsNewConnection now).1.Listed := by
  unfold Proxy.needsNewConnection
  split_ifs <;> exact ⟨h.nodup, h.known⟩

theorem step (h : self.Listed) (event : ProxyEvent) : (self.step event).Listed := by
  unfold Proxy.step
  split
  · exact h
  cases event with
  | onIteration env =>
    show (if self.running then self.onIteration env else self).Listed
    split
    · unfold Proxy.onIteration
      split
      · exact (h.needsNewConnection env.now).connect env
      · exact h.needsNewConnection env.now
    · exact h
  | idleCheck now =>
    show (if self.running then self.idleCheck now else self).Listed
    split
    · unfold Proxy.idleCheck
      split_ifs
      · exact h
      · exact h
      · exact (h.releases now _).sublist (List.take_sublist _ _) rfl
    · exact h
  | onStop now =>
    show (if self.running then self.onStop now else self).Listed
    split
    · have hstopped : ({ self with running := false } : Proxy).Listed := ⟨h.nodup, h.known⟩
      exact (hstopped.releases now _).sublist (List.nil_sublist _) rfl
    · exact h
  | callback id env event => exact h.callback id env event

end Listed

theorem run_listed (maxConnections : UInt32) (events : List ProxyEvent) :
    ((start maxConnections).run events).Listed := by
  induction events using List.reverseRecOn with
  | nil => exact ⟨List.nodup_nil, by simp [start]⟩
  | append_singleton events event ih =>
    rw [run_concat]
    exact ih.step event

/-! ## What is checked -/

/-- For every list of connections, in any states and at any time: each of them is checked exactly
once, and nothing outside the list is read, exactly if no connection but the last one is closed by
its check. -/
theorem checked_iff (self : Proxy) (h : self.Listed) (envs : Nat → Env) :
    self.Checked envs ↔ ∀ id ∈ self.connections.dropLast, ¬ self.ClosedByCheck envs id :=
  (healthCheck_erasing envs).covers_iff h.nodup

/-- Two connections to a server that is gone. -/
def twoDead : Proxy where
  objects := List.replicate 2 { state := .idling, relay := { data := true } }
  connections := [0, 1]

theorem twoDead_listed : twoDead.Listed := ⟨by decide, by decide⟩

theorem twoDead_checked_iff :
    twoDead.Checked (fun _ => { now := 180000 }) ↔
      ∀ id ∈ [0], ¬ twoDead.ClosedByCheck (fun _ => { now := 180000 }) id :=
  checked_iff twoDead twoDead_listed fun _ => { now := 180000 }

/-- The first of them is closed, and the second one is not checked. -/
theorem twoDead_not_checked :
    (twoDead.healthCheck fun _ => { now := 180000 }).visited = [0] ∧
      (twoDead.healthCheck fun _ => { now := 180000 }).outside = true ∧
      ¬ twoDead.Checked fun _ => { now := 180000 } := by
  refine ⟨by decide, by decide, fun h => ?_⟩
  exact absurd h.1 (by decide)

end Proxy

end ActiveProxy

end Boson
