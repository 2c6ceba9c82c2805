import Boson.ActiveProxy.Handles
import Boson.ActiveProxy.InFlights

/-!
# The end of a connection (`src/addons/activeproxy/activeproxy.cc`)

The handler of `onClosed` takes a connection out of the vector and drops the reference that the
vector holds. `idleCheck` and `onStop` take the handler away, close the connection and do the same
themselves.

* `Kept`: the connections are tidy, and the vector has those that are not closed.
* `run_closes_iff`: in a run whose steps release what they close, a `close` does all of its work
  exactly if the connection is closed already or none of its handles is closing.
-/

namespace Boson

namespace ActiveProxy

namespace ProxyConnection

/-- How often the reference of the vector was dropped: by the handler of `onClosed`, and by the
proxy, which takes the handler away before it closes the connection. -/
def listUnrefs (self : ProxyConnection) : Nat :=
  self.effects.count (.call .closed) + (!self.closeHandler).toNat

end ProxyConnection

/-! ## The connections of the proxy -/

namespace Proxy

/-- The upstream of a connection was opened in a run. -/
def UpstreamOpened (maxConnections : UInt32) (events : List ProxyEvent) (id : Nat) : Prop :=
  ∃ pre, pre <+: events ∧ ∃ c, ((start maxConnections).run pre).objects[id]? = some c ∧
    c.upstream.data

/-- The relay of a connection was opened in a run. -/
def RelayOpened (maxConnections : UInt32) (events : List ProxyEvent) (id : Nat) : Prop :=
  ∃ pre, pre <+: events ∧ ∃ c, ((start maxConnections).run pre).objects[id]? = some c ∧ c.relay.data

/-- What a `close` of a connection is there for, after a run: its handles are closing or were never
opened, its closed handler was called once if the proxy has not taken it away, and it is no longer
in the vector, which has dropped its reference once. -/
def Closes (maxConnections : UInt32) (events : List ProxyEvent) (id : Nat) (env : Env) : Prop :=
  let after := ((start maxConnections).run events).callback id env .close
  ∃ c, after.objects[id]? = some c ∧
    (c.upstream.closing ∨ ¬ UpstreamOpened maxConnections events id) ∧
    (c.relay.closing ∨ ¬ RelayOpened maxConnections events id) ∧
    (c.closeHandler → c.effects.count (.call .closed) = 1) ∧ c.listUnrefs = 1 ∧
      id ∉ after.connections

/-- Nothing that happens spoils the end of a connection: the callbacks release what they close, and
the proxy closes its connections only while none of their handles is closing. -/
def Releases (self : Proxy) : ProxyEvent → Prop
  | .onIteration _ => True
  | .idleCheck now => self.running → ¬ (self.idleTimestamp = UINT64_MAX ∨
      (now - self.idleTimestamp).toNat < MAX_IDLE_TIME) → self.inFlights = 0 →
      ∀ id ∈ self.connections.drop 1, ∀ c, self.objects[id]? = some c → c.Unblocked
  | .onStop _ =>
    self.running → ∀ id ∈ self.connections, ∀ c, self.objects[id]? = some c → c.Unblocked
  | .callback id env event => ∀ c, self.objects[id]? = some c →
      c.KeepsClosed { env with isAuthenticated := self.serverPk.isSome } event ∧
        c.Releases { env with isAuthenticated := self.serverPk.isSome } event

/-- The connections are tidy, and the vector has those that are not closed. -/
structure Kept (upstream relay : Nat → Prop) (p : Proxy) : Prop where
  nodup : p.connections.Nodup
  known : ∀ id ∈ p.connections, id < p.objects.length
  tidy : ∀ id (c : ProxyConnection), p.objects[id]? = some c →
    c.Tidy (upstream id) (relay id) c.closeHandler
  listed : ∀ id (c : ProxyConnection), p.objects[id]? = some c →
    (id ∈ p.connections ↔ c.state ≠ .closed)
  unused : ∀ id, p.objects.length ≤ id → ¬ upstream id ∧ ¬ relay id

variable {self : Proxy} {now : UInt64} {id : Nat} {upstream relay : Nat → Prop}

/-- The handler of `onClosed` takes the connection out of the vector. -/
theorem foldl_see_closed (now : UInt64) (id : Nat) {effects : List Effect}
    (hnodup : self.connections.Nodup) (hclosed : .call .closed ∈ effects) :
    id ∉ (effects.foldl (fun self effect => self.see now id effect) self).connections := by
  induction effects generalizing self with
  | nil => cases hclosed
  | cons effect effects ih =>
    rw [List.foldl_cons]
    obtain rfl | hclosed := List.mem_cons.mp hclosed
    · have herase : id ∉ (self.see now id (.call .closed)).connections := hnodup.not_mem_erase
      exact fun hmem => herase ((foldl_see_connections effects _).1.subset hmem)
    · have hsub : (self.see now id effect).connections.Sublist self.connections :=
        (foldl_see_connections [effect] self).1
      exact ih (hnodup.sublist hsub) hclosed

/-- A connection that calls `onClosed` while it changes is erased. -/
theorem update_erased {c next : ProxyConnection} (now : UInt64) (hnodup : self.connections.Nodup)
    (hclosed : .call .closed ∈ next.effects.drop c.effects.length) :
    id ∉ (self.update now id c next).connections :=
  foldl_see_closed now id hnodup hclosed

/-- An object of the proxy after one of them was replaced: the new one or one of the others. -/
theorem object_of_set {objects : List ProxyConnection} {next c' : ProxyConnection} {other : Nat}
    (hc' : (objects.set id next)[other]? = some c') :
    other = id ∧ c' = next ∨ other ≠ id ∧ objects[other]? = some c' := by
  by_cases hid : other = id
  · subst hid
    have hlt := (List.getElem?_eq_some_iff.mp hc').1
    rw [List.length_set] at hlt
    rw [List.getElem?_set_self hlt] at hc'
    exact .inl ⟨rfl, (Option.some.inj hc').symm⟩
  · rw [List.getElem?_set_ne (Ne.symm hid)] at hc'
    exact .inr ⟨hid, hc'⟩

namespace Kept

theorem start (maxConnections : UInt32) :
    (start maxConnections).Kept (fun _ => False) fun _ => False where
  nodup := List.nodup_nil
  known := by simp [Proxy.start]
  tidy := by simp [Proxy.start]
  listed := by simp [Proxy.start]
  unused _ _ := ⟨id, id⟩

/-- A tidy change that calls `onClosed` is the change to `closed`. -/
theorem listed_update (h : self.Kept upstream relay) {c next : ProxyConnection}
    (hc : self.objects[id]? = some c) (hextends : c.effects <+: next.effects)
    (hnext : next.Tidy (upstream id) (relay id) c.closeHandler) :
    id ∈ (self.update now id c next).connections ↔ next.state ≠ .closed := by
  have hbefore := h.tidy id c hc
  have hsplit : c.effects ++ next.effects.drop c.effects.length = next.effects :=
    List.prefix_iff_eq_append.mp hextends
  have hcount : c.effects.count (.call .closed) + (next.effects.drop c.effects.length).count
      (.call .closed) =
      next.effects.count (.call .closed) := by
    rw [← List.count_append, hsplit]
  rw [hbefore.called, hnext.called] at hcount
  obtain ⟨hsub, hsame, -⟩ := self.update_connections now id c next
  by_cases hclosed : c.state = .closed
  · -- the handler was called before, or taken away
    have hno : id ∉ self.connections := fun hmem => (h.listed id c hc).mp hmem hclosed
    refine iff_of_false (fun hmem => hno (hsub.subset hmem)) fun hopen => ?_
    rw [if_pos hclosed, if_neg hopen, hnext.handler_of_open hopen] at hcount
    exact absurd hcount (by simp)
  · have hlisted : id ∈ self.connections := (h.listed id c hc).mpr hclosed
    rw [if_neg hclosed, hbefore.handler_of_open hclosed, Nat.zero_add] at hcount
    by_cases hopen : next.state = .closed
    · rw [if_pos hopen] at hcount
      refine iff_of_false (update_erased now h.nodup ?_) (not_not.mpr hopen)
      exact List.count_pos_iff.mp (by rw [hcount]; decide)
    · rw [if_neg hopen] at hcount
      refine iff_of_true ?_ hopen
      rw [hsame (List.count_eq_zero.mp hcount)]
      exact hlisted

/-- A connection changes and stays tidy. -/
theorem update (h : self.Kept upstream relay) {c next : ProxyConnection}
    (hc : self.objects[id]? = some c) (hextends : c.effects <+: next.effects)
    (hnext : next.Tidy (upstream id) (relay id) c.closeHandler) :
    (self.update now id c next).Kept upstream relay := by
  obtain ⟨hsub, -, hothers⟩ := self.update_connections now id c next
  refine ⟨h.nodup.sublist hsub, ?_, ?_, ?_, ?_⟩
  · intro other hother
    rw [update_objects, List.length_set]
    exact h.known other (hsub.subset hother)
  · rw [update_objects]
    intro other c' hc'
    obtain ⟨rfl, rfl⟩ | ⟨-, hc'⟩ := object_of_set hc'
    · rw [hnext.handler_eq]
      exact hnext
    · exact h.tidy other c' hc'
  · rw [update_objects]
    intro other c' hc'
    obtain ⟨rfl, rfl⟩ | ⟨hid, hc'⟩ := object_of_set hc'
    · exact h.listed_update hc hextends hnext
    · rw [← h.listed other c' hc']
      exact ⟨fun hmem => hsub.subset hmem, fun hmem => hothers other hmem hid⟩
  · rw [update_objects, List.length_set]
    exact h.unused

theorem callback (h : self.Kept upstream relay) {env : Env} {event : Event}
    (hok : self.Releases (.callback id env event)) :
    (self.callback id env event).Kept upstream relay := by
  unfold Proxy.callback
  split
  · exact h
  · next c hc =>
    exact h.update hc (ProxyConnection.step_extends c event)
      ((h.tidy id c hc).step (fun _ => (hok c hc).1) fun _ => (hok c hc).2)

/-- The connections are released one after the other; none of them was closed. -/
theorem releases (h : self.Kept upstream relay) (now : UInt64) {ids : List Nat} (hnodup : ids.Nodup)
    (hids : ids ⊆ self.connections)
    (hunblocked : ∀ id ∈ ids, ∀ c, self.objects[id]? = some c → c.Unblocked) :
    let after := ids.foldl (fun self id => self.release now id) self
    after.connections = self.connections ∧ after.objects.length = self.objects.length ∧
      (∀ id ∈ ids, ∀ c, after.objects[id]? = some c →
        c.state = .closed ∧ c.Tidy (upstream id) (relay id) c.closeHandler) ∧
      ∀ other ∉ ids, after.objects[other]? = self.objects[other]? := by
  induction ids using List.reverseRecOn with
  | nil => exact ⟨rfl, rfl, by simp, fun _ _ => rfl⟩
  | append_singleton ids id ih =>
    obtain ⟨hnodup', -, hdisjoint⟩ := List.nodup_append.mp hnodup
    have hnew : id ∉ ids := fun hmem => hdisjoint id hmem id (List.mem_singleton_self id) rfl
    have hlisted : id ∈ self.connections :=
      hids (List.mem_append_right _ (List.mem_singleton_self id))
    obtain ⟨hconnections, hlength, hreleased, hothers⟩ :=
      ih hnodup' (fun _ hmem => hids (List.mem_append_left _ hmem))
      fun other hother => hunblocked other (List.mem_append_left _ hother)
    rw [List.foldl_concat]
    dsimp only
    generalize ids.foldl (fun self id => self.release now id) self = after at *
    obtain ⟨c, hc⟩ : ∃ c, self.objects[id]? = some c :=
      ⟨_, List.getElem?_eq_getElem (h.known id hlisted)⟩
    have hafter : after.objects[id]? = some c := (hothers id hnew).trans hc
    have hopen : c.state ≠ .closed := (h.listed id c hc).mp hlisted
    have htidy := h.tidy id c hc
    have hcalled := htidy.called
    rw [if_neg hopen] at hcalled
    have hheld : ({ c with closeHandler := false } : ProxyConnection).Held
        (upstream id) (relay id) :=
      ⟨htidy.upstreamOpened, htidy.relayOpened, htidy.upstreamClose, htidy.relayClose⟩
    have hclosed : ({ c with closeHandler := false } : ProxyConnection).close.Tidy (upstream id)
        (relay id) false :=
      ProxyConnection.close_tidy hheld hopen
        (hunblocked id (List.mem_append_right _ (List.mem_singleton_self id)) c hc) hcalled
    have hobjects : (after.release now id).objects =
        after.objects.set id ({ c with closeHandler := false } : ProxyConnection).close := by
      simp only [Proxy.release, hafter, update_objects]
    refine ⟨?_, ?_, ?_, ?_⟩
    · rw [← hconnections]
      simp only [Proxy.release, hafter]
      exact (update_connections _ _ _ _ _).2.1
        (ProxyConnection.close_not_called { c with closeHandler := false } rfl)
    · rw [hobjects, List.length_set, hlength]
    · intro other hother c' hc'
      rw [hobjects] at hc'
      obtain ⟨rfl, rfl⟩ | ⟨hid, hc'⟩ := object_of_set hc'
      · rw [hclosed.handler_eq]
        exact ⟨ProxyConnection.close_state _, hclosed⟩
      · refine hreleased other ?_ c' hc'
        simpa [hid] using hother
    · intro other hother
      rw [List.mem_append, List.mem_singleton, not_or] at hother
      rw [hobjects, List.getElem?_set_ne (Ne.symm hother.2), hothers other hother.1]

/-- Some connections are released and taken out of the vector, the others stay. -/
theorem shrink (h : self.Kept upstream relay) (now : UInt64) {ids connections : List Nat}
    (hnodup : ids.Nodup) (hsub : connections.Sublist self.connections)
    (hids : ∀ id ∈ self.connections, id ∈ ids ↔ id ∉ connections) (hsubset : ids ⊆ self.connections)
    (hunblocked : ∀ id ∈ ids, ∀ c, self.objects[id]? = some c → c.Unblocked) :
    ({ ids.foldl (fun self id => self.release now id) self with connections := connections
      } : Proxy).Kept
      upstream relay := by
  obtain ⟨-, hlength, hreleased, hothers⟩ := h.releases now hnodup hsubset hunblocked
  refine ⟨h.nodup.sublist hsub, fun id hid => ?_, fun id c hc => ?_, fun id c hc => ?_,
    fun id hid => ?_⟩
  · show id < (ids.foldl _ self).objects.length
    rw [hlength]
    exact h.known id (hsub.subset hid)
  · by_cases hmem : id ∈ ids
    · exact (hreleased id hmem c hc).2
    · exact h.tidy id c ((hothers id hmem) ▸ hc)
  · by_cases hmem : id ∈ ids
    · exact iff_of_false ((hids id (hsubset hmem)).mp hmem) (not_not.mpr (hreleased id hmem c hc).1)
    · rw [← h.listed id c ((hothers id hmem) ▸ hc)]
      refine ⟨fun hlisted => hsub.subset hlisted, fun hlisted => ?_⟩
      by_contra hno
      exact hmem ((hids id hlisted).mpr hno)
  · exact h.unused id (hlength ▸ hid)

theorem connect (h : self.Kept upstream relay) (env : Env) :
    (self.connect env).Kept upstream relay := by
  have hcreate := ProxyConnection.Tidy.create env
  obtain ⟨hnoUpstream, hnoRelay⟩ := h.unused self.objects.length le_rfl
  have hnew : self.objects.length ∉ self.connections := fun hmem => lt_irrefl _ (h.known _ hmem)
  have hsplit {id : Nat} {c : ProxyConnection} (hc : (self.connect env).objects[id]? = some c) :
      self.objects[id]? = some c ∧ id ≠ self.objects.length ∨
        id = self.objects.length ∧ c = .create env := by
    obtain hlt | rfl | hgt := lt_trichotomy id self.objects.length
    · exact .inl ⟨(List.getElem?_append_left hlt).symm.trans hc, hlt.ne⟩
    · have hlast : (self.connect env).objects[self.objects.length]? = some (.create env) :=
        List.getElem?_concat_length
      rw [hlast] at hc
      cases hc
      exact .inr ⟨rfl, rfl⟩
    · obtain ⟨hlt, -⟩ := List.getElem?_eq_some_iff.mp hc
      simp only [Proxy.connect, List.length_append, List.length_singleton] at hlt
      omega
  refine ⟨?_, ?_, fun id c hc => ?_, fun id c hc => ?_, fun id hid => h.unused id ?_⟩
  · refine List.nodup_append.mpr ⟨h.nodup, List.nodup_singleton _, fun id hid other hother => ?_⟩
    rw [List.mem_singleton.mp hother]
    exact fun heq => hnew (heq ▸ hid)
  · intro id hid
    simp only [Proxy.connect, List.length_append, List.length_singleton]
    obtain hid | hid := List.mem_append.mp hid
    · exact (h.known id hid).trans (Nat.lt_succ_self _)
    · rw [List.mem_singleton.mp hid]
      exact Nat.lt_succ_self _
  · obtain ⟨hc, -⟩ | ⟨rfl, rfl⟩ := hsplit hc
    · exact h.tidy id c hc
    · rw [hcreate.handler_eq]
      exact { hcreate with
        upstreamOpened := fun hopened => absurd hopened hnoUpstream
        relayOpened := fun hopened => absurd hopened hnoRelay }
  · show id ∈ self.connections ++ [self.objects.length] ↔ _
    rw [List.mem_append, List.mem_singleton]
    obtain ⟨hc, hne⟩ | ⟨rfl, rfl⟩ := hsplit hc
    · rw [h.listed id c hc, or_iff_left hne]
    · refine iff_of_true (.inr rfl) ?_
      rw [(ProxyConnection.create_spec env).1]
      decide
  · simp only [Proxy.connect, List.length_append, List.length_singleton] at hid
    omega

theorem onIteration (h : self.Kept upstream relay) (env : Env) :
    (self.onIteration env).Kept upstream relay := by
  have hneeds : (self.needsNewConnection env.now).1.Kept upstream relay := by
    unfold Proxy.needsNewConnection
    split_ifs
    · exact h
    · exact h
    · exact ⟨h.nodup, h.known, h.tidy, h.listed, h.unused⟩
    · exact h
    · exact h
  unfold Proxy.onIteration
  split_ifs
  · exact hneeds.connect env
  · exact hneeds

theorem idleCheck (h : self.Kept upstream relay) (now : UInt64)
    (hunblocked : ¬ (self.idleTimestamp = UINT64_MAX ∨
      (now - self.idleTimestamp).toNat < MAX_IDLE_TIME) →
      self.inFlights = 0 → ∀ id ∈ self.connections.drop 1, ∀ c, self.objects[id]? = some c →
        c.Unblocked) :
    (self.idleCheck now).Kept upstream relay := by
  unfold Proxy.idleCheck
  split_ifs with hearly hbusy
  · exact h
  · exact h
  · rw [not_or, not_not] at hbusy
    have hparts : (self.connections.take 1 ++ self.connections.drop 1).Nodup := by
      rw [List.take_append_drop]
      exact h.nodup
    obtain ⟨-, hdrop, hdisjoint⟩ := List.nodup_append.mp hparts
    obtain ⟨hconnections, -⟩ := h.releases now (List.nodup_reverse.mpr hdrop)
      (fun id hid => List.mem_of_mem_drop (List.mem_reverse.mp hid))
      fun id hid => hunblocked hearly hbusy.1 id (List.mem_reverse.mp hid)
    dsimp only
    rw [hconnections]
    refine h.shrink now (List.nodup_reverse.mpr hdrop) (List.take_sublist _ _) (fun id hid => ?_)
      (fun id hid => List.mem_of_mem_drop (List.mem_reverse.mp hid))
      fun id hid => hunblocked hearly hbusy.1 id (List.mem_reverse.mp hid)
    rw [List.mem_reverse]
    refine ⟨fun hmem htake => hdisjoint id htake id hmem rfl, fun hno => ?_⟩
    rw [← List.take_append_drop 1 self.connections, List.mem_append] at hid
    exact hid.resolve_left hno

theorem onStop (h : self.Kept upstream relay) (now : UInt64)
    (hunblocked : ∀ id ∈ self.connections, ∀ c, self.objects[id]? = some c → c.Unblocked) :
    (self.onStop now).Kept upstream relay := by
  have hstopped : ({ self with running := false } : Proxy).Kept upstream relay :=
    ⟨h.nodup, h.known, h.tidy, h.listed, h.unused⟩
  exact hstopped.shrink now h.nodup (List.nil_sublist _) (by simp) (List.Subset.refl _) hunblocked

theorem step (h : self.Kept upstream relay) {event : ProxyEvent}
    (hok : self.isDead = false → self.Releases event) : (self.step event).Kept upstream relay := by
  unfold Proxy.step
  split_ifs with hdead
  · exact h
  · have hok := hok (Bool.not_eq_true _ ▸ hdead)
    cases event with
    | onIteration env =>
      unfold Proxy.react
      split_ifs
      · exact h.onIteration env
      · exact h
    | idleCheck now =>
      unfold Proxy.react
      split_ifs with hrunning
      · exact h.idleCheck now (hok hrunning)
      · exact h
    | onStop now =>
      unfold Proxy.react
      split_ifs with hrunning
      · exact h.onStop now (hok hrunning)
      · exact h
    | callback id env event => exact h.callback hok

/-- A handle that was opened by now is known to have been. -/
theorem grow (h : self.Kept upstream relay) {upstream' relay' : Nat → Prop}
    (hupstream : ∀ id, upstream' id → upstream id ∨ ∃ c,
      self.objects[id]? = some c ∧ c.upstream.data)
    (hrelay : ∀ id, relay' id → relay id ∨ ∃ c, self.objects[id]? = some c ∧ c.relay.data) :
    self.Kept upstream' relay' := by
  refine ⟨h.nodup, h.known, fun id c hc => ?_, h.listed, fun id hid => ?_⟩
  · have htidy := h.tidy id c hc
    refine { htidy with upstreamOpened := fun hopened => ?_, relayOpened := fun hopened => ?_ }
    · obtain hbefore | ⟨c', hc', hdata⟩ := hupstream id hopened
      · exact htidy.upstreamOpened hbefore
      · rw [hc] at hc'
        cases hc'
        exact .inl hdata
    · obtain hbefore | ⟨c', hc', hdata⟩ := hrelay id hopened
      · exact htidy.relayOpened hbefore
      · rw [hc] at hc'
        cases hc'
        exact .inl hdata
  · have hnone := List.getElem?_eq_none hid
    refine ⟨fun hopened => ?_, fun hopened => ?_⟩
    · obtain hbefore | ⟨c, hc, -⟩ := hupstream id hopened
      · exact (h.unused id hid).1 hbefore
      · rw [hnone] at hc
        cases hc
    · obtain hbefore | ⟨c, hc, -⟩ := hrelay id hopened
      · exact (h.unused id hid).2 hbefore
      · rw [hnone] at hc
        cases hc

end Kept

/-! ## Runs -/

theorem run_kept {maxConnections : UInt32} {events : List ProxyEvent}
    (hok : Runs.Every (fun pre e => ((start maxConnections).run pre).isDead = false →
      ((start maxConnections).run pre).Releases e) events) :
    ((start maxConnections).run events).Kept (UpstreamOpened maxConnections events)
      (RelayOpened maxConnections events) := by
  refine hok.inv (I := fun pre => ((start maxConnections).run pre).Kept
    (UpstreamOpened maxConnections pre) (RelayOpened maxConnections pre)) ?_ fun pre e hpre he => ?_
  · refine (Kept.start maxConnections).grow (fun id hopened => ?_) fun id hopened => ?_
    · obtain ⟨pre, hpre, hdata⟩ := hopened
      rw [List.prefix_nil.mp hpre] at hdata
      exact .inr hdata
    · obtain ⟨pre, hpre, hdata⟩ := hopened
      rw [List.prefix_nil.mp hpre] at hdata
      exact .inr hdata
  · have hstep := hpre.step he
    rw [← run_concat] at hstep
    exact hstep.grow (fun _ => Runs.exists_initial_concat) fun _ => Runs.exists_initial_concat

/-- In a run whose steps all release what they close, one more `close` of a connection leaves no
handle open, calls the closed handler once and drops the reference of the vector once, exactly if
the connection is closed already or neither its upstream nor its relay is closing. -/
theorem run_closes_iff (maxConnections : UInt32) (events : List ProxyEvent)
    (hok : Runs.Every (fun pre e => ((start maxConnections).run pre).isDead = false →
      ((start maxConnections).run pre).Releases e) events)
    (halive : ((start maxConnections).run events).isDead = false) (id : Nat) (c : ProxyConnection)
    (hc : ((start maxConnections).run events).objects[id]? = some c) (env : Env) :
    Closes maxConnections events id env ↔ c.state = .closed ∨ c.Unblocked := by
  have hkept := run_kept hok
  unfold Closes
  generalize (start maxConnections).run events = p at *
  have hfault : c.fault.isSome = false := by
    have hnone := List.any_eq_false.mp halive c (List.mem_of_getElem? hc)
    exact Bool.not_eq_true _ ▸ hnone
  have hlt : id < p.objects.length := (List.getElem?_eq_some_iff.mp hc).1
  have hobjects : (p.callback id env .close).objects = p.objects.set id c.close := by
    simp [Proxy.callback, hc, update_objects, ProxyConnection.step, hfault, ProxyConnection.react]
  have hget : (p.callback id env .close).objects[id]? = some c.close := by
    rw [hobjects, List.getElem?_set_self hlt]
  have htidy := hkept.tidy id c hc
  simp only [hget, Option.some.injEq, exists_eq_left']
  constructor
  · rintro ⟨-, -, -, hunrefs, -⟩
    by_contra hblocked
    rw [not_or] at hblocked
    obtain ⟨hcount, hhandler⟩ := ProxyConnection.close_of_blocked hblocked.1 hblocked.2
    rw [ProxyConnection.listUnrefs, hcount, hhandler, htidy.called, if_neg hblocked.1,
      htidy.handler_of_open hblocked.1] at hunrefs
    cases hunrefs
  · intro hready
    have hblock (hopen : c.state ≠ .closed) : c.Unblocked := hready.resolve_left hopen
    have hclose := htidy.close hblock
    have hclosed : c.close.state = .closed := c.close_state
    have hafter : (p.callback id env .close).Kept (UpstreamOpened maxConnections events)
        (RelayOpened maxConnections events) := by
      refine hkept.callback fun c' hc' => ?_
      rw [hc] at hc'
      cases hc'
      exact ⟨trivial, fun hopen _ => hblock hopen, trivial⟩
    have hcalled := hclose.called
    rw [if_pos hclosed] at hcalled
    have hhandler := hclose.handler_eq
    refine ⟨?_, ?_, fun hset => ?_, ?_, fun hlisted => (hafter.listed id _ hget).mp hlisted hclosed⟩
    · by_cases hopened : UpstreamOpened maxConnections events id
      · exact .inl ((hclose.upstreamOpened hopened).elim
          (hclose.upstreamClosing hclosed) fun hclosing => hclosing)
      · exact .inr hopened
    · by_cases hopened : RelayOpened maxConnections events id
      · exact .inl ((hclose.relayOpened hopened).elim (hclose.relayClosing hclosed) fun hclosing =>
          hclosing)
      · exact .inr hopened
    · rw [hcalled, ← hhandler, hset]
      rfl
    · rw [ProxyConnection.listUnrefs, hcalled, ← hhandler]
      cases c.close.closeHandler <;> rfl

/-- A connection that relays data is closed. -/
theorem relaying_closes : Closes 16 relaying 0 {} := by
  have hcallback {pre : List ProxyEvent} {env : Env} {event : Event} (hinit : env.tcpInit)
      (hwrite : ∀ type, env.write type) (hconnect : env.tcpConnect) (hshutdown : env.shutdown)
      (hevent : event ≠ .complete .upstreamConnect false)
      (hbefore : ∀ c ∈ ((start 16).run pre).objects, c.state ≠ .disconnecting ∧
        .upstreamClose ∉ c.pending ∧
        (c.react { env with isAuthenticated := ((start 16).run pre).serverPk.isSome } event).state ≠
          .closed) :
      ((start 16).run pre).isDead = false →
        ((start 16).run pre).Releases (.callback 0 env event) := by
    intro _ c hc
    obtain ⟨hstate, hpending, hopen⟩ := hbefore c (List.mem_of_getElem? hc)
    exact ⟨(ProxyConnection.Accountable.of_succeeds hstate hinit hwrite hevent).keepsClosed,
      .of_succeeds hopen hpending hconnect hshutdown hevent⟩
  refine (run_closes_iff 16 relaying ?_ (by decide +kernel) 0
    (((start 16).run relaying).objects.getD 0 {})
    (by decide +kernel) {}).mpr (.inr (by decide +kernel))
  show Runs.Every _ ([] ++ [_] ++ [_] ++ [_] ++ [_] ++ [_] ++ [_])
  simp only [Runs.every_concat]
  refine ⟨⟨⟨⟨⟨⟨Runs.every_nil, fun _ => trivial⟩, ?_⟩, ?_⟩, ?_⟩, ?_⟩, ?_⟩
  all_goals exact hcallback rfl (fun _ => rfl) rfl rfl (by simp) (by decide +kernel)

/-- The upstream ends, and `uv_shutdown` fails, so that the upstream is closed at once. -/
def upstreamClosing : List ProxyEvent :=
  relaying ++ [.callback 0 { shutdown := false } .upstreamError]

/-- The relay stays open then, and the vector keeps the connection and its reference. -/
theorem upstreamClosing_not_closes : ¬ Closes 16 upstreamClosing 0 {} := by
  rintro ⟨c, hc, -, -, -, hunrefs, -⟩
  have hnone : ((((start 16).run upstreamClosing).callback 0 {} .close).objects[0]?).map
      ProxyConnection.listUnrefs = some 0 := by decide +kernel
  rw [hc, Option.map_some, hunrefs] at hnone
  cases hnone

end Proxy

end ActiveProxy

end Boson
