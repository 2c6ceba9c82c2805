import Boson.ActiveProxy.Accounting
import Boson.ActiveProxy.Proxy
import Boson.Lib.Counts
import Mathlib.Data.List.Perm.Subperm

/-!
# The count of the connections at work (`src/addons/activeproxy/activeproxy.cc`)

`inFlights` goes up with `onBusy` and down with `onIdle`, so it counts the connections at work as
long as the calls of each connection fit its state (`Accounts`) and no connection comes back after
it was closed (`Sealed`).

* `Balanced`: the invariant, for all that happens to the proxy.
* `run_accounted`: `inFlights` is the number of connections at work in every run in which no
  connection is closed while it is disconnecting, no connection attempt to the upstream fails too
  late, and no connection enters `Idling` when a write has closed it.
-/

namespace Boson

namespace ActiveProxy

namespace Proxy

variable {self : Proxy} {now : UInt64} {id : Nat}

/-- The connections in the vector. -/
def live (self : Proxy) : List ProxyConnection := self.connections.filterMap (self.objects[·]?)

/-! ## The calls of a connection -/

theorem foldl_see_objects (effects : List Effect) (self : Proxy) :
    (effects.foldl (fun self effect => self.see now id effect) self).objects = self.objects := by
  induction effects generalizing self with
  | nil => rfl
  | cons effect effects ih =>
    rw [List.foldl_cons, ih]
    unfold see
    split
    · unfold handle
      split <;> rfl
    · rfl

theorem foldl_see_connections (effects : List Effect) (self : Proxy) :
    let after := effects.foldl (fun self effect => self.see now id effect) self
    after.connections.Sublist self.connections ∧
      (.call .closed ∉ effects → after.connections = self.connections) ∧
      ∀ other ∈ self.connections, other ≠ id → other ∈ after.connections := by
  induction effects generalizing self with
  | nil => exact ⟨List.Sublist.refl _, fun _ => rfl, fun _ hmem _ => hmem⟩
  | cons effect effects ih =>
    obtain ⟨hsub, hsame, hothers⟩ := ih (self.see now id effect)
    rw [List.foldl_cons]
    by_cases hclosed : effect = .call .closed
    · subst hclosed
      refine ⟨hsub.trans List.erase_sublist, fun hno =>
        absurd List.mem_cons_self hno, fun other hmem hne => ?_⟩
      exact hothers other ((List.mem_erase_of_ne hne).mpr hmem) hne
    · have hsee : (self.see now id effect).connections = self.connections := by
        unfold see
        split
        · unfold handle
          split <;> first | rfl | exact absurd rfl hclosed
        · rfl
      rw [hsee] at hsub hsame hothers
      exact ⟨hsub, fun hno => hsame (List.not_mem_of_not_mem_cons hno), hothers⟩

@[simp] theorem update_objects (c next : ProxyConnection) :
    (self.update now id c next).objects = self.objects.set id next :=
  foldl_see_objects _ _

/-- The vector after a connection has changed: it may be erased if it called `onClosed`. -/
theorem update_connections (self : Proxy) (now : UInt64) (id : Nat) (c next : ProxyConnection) :
    (self.update now id c next).connections.Sublist self.connections ∧
      (.call .closed ∉ next.effects.drop c.effects.length →
        (self.update now id c next).connections = self.connections) ∧
      ∀ other ∈ self.connections, other ≠ id → other ∈ (self.update now id c next).connections :=
  foldl_see_connections _ _

/-- A call in its turn, with `n` other connections at work. -/
theorem see_inFlights {effect : Effect} {busy next : Bool} {n : Nat} {self : Proxy}
    (now : UInt64) (id : Nat) (hturn : turn busy effect = some next) (hn : n + 1 < 2 ^ 32)
    (hinFlights : self.inFlights.toNat = n + busy.toNat) :
    (self.see now id effect).inFlights.toNat = n + next.toNat ∧
      (self.see now id effect).wrapped = self.wrapped := by
  unfold turn at hturn
  split at hturn
  · cases busy with
    | true => cases hturn
    | false =>
      cases hturn
      refine ⟨?_, rfl⟩
      show (self.inFlights + 1).toNat = n + 1
      rw [UInt32.toNat_add, hinFlights]
      exact Nat.mod_eq_of_lt hn
  · cases busy with
    | false => cases hturn
    | true =>
      cases hturn
      have hpos : (1 : UInt32) ≤ self.inFlights := by
        rw [UInt32.le_iff_toNat_le, hinFlights]
        exact Nat.le_add_left ..
      refine ⟨?_, ?_⟩
      · show (self.inFlights - 1).toNat = n
        rw [UInt32.toNat_sub_of_le _ _ hpos, hinFlights]
        rfl
      · have hne : self.inFlights ≠ 0 := by
          intro hzero
          rw [hzero] at hinFlights
          cases hinFlights
        show (self.wrapped || decide (self.inFlights = 0)) = self.wrapped
        rw [decide_eq_false hne, Bool.or_false]
  · rename_i hbusy hidle
    cases hturn
    unfold see
    split
    · unfold handle
      split
      all_goals first
        | exact ⟨hinFlights, rfl⟩
        | exact absurd rfl hbusy
        | exact absurd rfl hidle
    · exact ⟨hinFlights, rfl⟩

/-- Calls in turns, with `n` other connections at work. -/
theorem foldl_see_inFlights {effects : List Effect} {busy busy' : Bool} {n : Nat} {self : Proxy}
    (halternate : alternate busy effects = some busy') (hn : n + 1 < 2 ^ 32)
    (hinFlights : self.inFlights.toNat = n + busy.toNat) :
    (effects.foldl (fun self effect => self.see now id effect) self).inFlights.toNat =
      n + busy'.toNat ∧
      (effects.foldl (fun self effect => self.see now id effect) self).wrapped = self.wrapped := by
  induction effects generalizing self busy with
  | nil =>
    cases halternate
    exact ⟨hinFlights, rfl⟩
  | cons effect effects ih =>
    rw [alternate, List.foldlM_cons] at halternate
    obtain ⟨next, hturn, halternate⟩ := Option.bind_eq_some_iff.mp halternate
    have hsee := see_inFlights now id hturn hn hinFlights
    rw [List.foldl_cons, ← hsee.2]
    exact ih halternate hsee.1

theorem foldl_see_of_closed {effects : List Effect} {self : Proxy}
    (hcalls : ∀ call, .call call ∈ effects → call = .closed) :
    (effects.foldl (fun self effect => self.see now id effect) self).inFlights = self.inFlights ∧
      (effects.foldl (fun self effect => self.see now id effect) self).wrapped = self.wrapped := by
  induction effects generalizing self with
  | nil => exact ⟨rfl, rfl⟩
  | cons effect effects ih =>
    have hrest (call : Call) (hcall : .call call ∈ effects) : call = .closed :=
      hcalls call (List.mem_cons_of_mem _ hcall)
    rw [List.foldl_cons, (ih hrest).1, (ih hrest).2]
    cases effect with
    | call call =>
      cases hcalls call List.mem_cons_self
      exact ⟨rfl, rfl⟩
    | _ => exact ⟨rfl, rfl⟩

/-! ## The connections at work -/

/-- A connection is at work, by its number. -/
def inFlightAt (self : Proxy) (id : Nat) : Bool :=
  ((self.objects[id]?).map ProxyConnection.inFlight).getD false

theorem countP_live (self : Proxy) :
    self.live.countP ProxyConnection.inFlight = self.connections.countP self.inFlightAt :=
  List.countP_filterMap

theorem countP_objects (self : Proxy) :
    self.objects.countP ProxyConnection.inFlight =
      (List.range self.objects.length).countP self.inFlightAt := by
  have hrange (objects : List ProxyConnection) :
      (List.range objects.length).filterMap (objects[·]?) = objects := by
    induction objects with
    | nil => rfl
    | cons c objects ih =>
      rw [List.length_cons, List.range_succ_eq_map, List.filterMap_cons, List.filterMap_map]
      exact congrArg (c :: ·) ih
  conv_lhs => rw [← hrange self.objects]
  exact List.countP_filterMap

/-- The connections in the vector are all that are at work, if the others are closed. -/
theorem countP_objects_eq (hnodup : self.connections.Nodup)
    (hknown : ∀ id ∈ self.connections, id < self.objects.length)
    (hunlisted : ∀ id c, self.objects[id]? = some c → id ∉ self.connections → c.state = .closed) :
    self.objects.countP ProxyConnection.inFlight = self.live.countP ProxyConnection.inFlight := by
  rw [countP_objects, countP_live, List.countP_eq_length_filter, List.countP_eq_length_filter]
  refine List.Perm.length_eq
    ((List.perm_ext_iff_of_nodup (List.nodup_range.filter _) (hnodup.filter _)).mpr ?_)
  intro id
  rw [List.mem_filter, List.mem_filter, List.mem_range]
  refine and_congr_left fun hinFlight => ⟨fun hlt => ?_, hknown id⟩
  by_contra hno
  have hclosed := hunlisted id _ (List.getElem?_eq_getElem hlt) hno
  rw [inFlightAt, List.getElem?_eq_getElem hlt, Option.map_some, Option.getD_some,
    ProxyConnection.inFlight, hclosed] at hinFlight
  cases hinFlight

/-- `inFlights` is the number of the connections at work. -/
structure Balanced (p : Proxy) : Prop where
  nodup : p.connections.Nodup
  known : ∀ id ∈ p.connections, id < p.objects.length
  short : p.connections.length < 2 ^ 32
  accounts : ∀ c ∈ p.objects, c.Accounts
  closed : ∀ c ∈ p.objects, c.Sealed
  unlisted : ∀ id c, p.objects[id]? = some c → id ∉ p.connections → c.state = .closed
  count : p.inFlights.toNat = p.objects.countP ProxyConnection.inFlight
  not_wrapped : p.wrapped = false

namespace Balanced

theorem start (maxConnections : UInt32) : (start maxConnections).Balanced where
  nodup := List.nodup_nil
  known := by simp [Proxy.start]
  short := by simp [Proxy.start]
  accounts := by simp [Proxy.start]
  closed := by simp [Proxy.start]
  unlisted := by simp [Proxy.start]
  count := rfl
  not_wrapped := rfl

theorem count_live (h : self.Balanced) : self.inFlights.toNat =
    self.live.countP ProxyConnection.inFlight :=
  h.count.trans (countP_objects_eq h.nodup h.known h.unlisted)

theorem length_live (self : Proxy) : self.live.length ≤ self.connections.length :=
  List.length_filterMap_le ..

/-- A connection in the vector leaves room in `inFlights`. -/
theorem count_others (h : self.Balanced) {c : ProxyConnection} (hc : self.objects[id]? = some c)
    (hlisted : id ∈ self.connections) :
    ∃ n, n + 1 < 2 ^ 32 ∧ self.inFlights.toNat = n + c.inFlight.toNat := by
  have hlive : c ∈ self.live := List.mem_filterMap.mpr ⟨id, hlisted, hc⟩
  have hlength := (length_live self).trans_lt h.short
  rw [h.count_live]
  cases hinFlight : c.inFlight with
  | true =>
    have hpos : 0 < self.live.countP ProxyConnection.inFlight :=
      List.countP_pos_iff.mpr ⟨c, hlive, hinFlight⟩
    refine ⟨self.live.countP ProxyConnection.inFlight - 1, ?_, ?_⟩
    · have := List.countP_le_length (p := ProxyConnection.inFlight) (l := self.live)
      omega
    · show _ = _ - 1 + 1
      omega
  | false =>
    refine ⟨self.live.countP ProxyConnection.inFlight, ?_, rfl⟩
    have hlt : self.live.countP ProxyConnection.inFlight < self.live.length := by
      refine lt_of_le_of_ne List.countP_le_length fun hall => ?_
      have := List.countP_eq_length.mp hall c hlive
      rw [hinFlight] at this
      cases this
    omega

/-- The count after a connection has changed, if it is in the vector or stays closed. -/
theorem update_count (h : self.Balanced) {c next : ProxyConnection} (now : UInt64)
    (hc : self.objects[id]? = some c)
    (halternate : alternate c.inFlight (next.effects.drop c.effects.length) = some next.inFlight)
    (hunlisted : id ∉ self.connections → next.state = .closed ∧
      ∀ call, .call call ∈ next.effects.drop c.effects.length → call = .closed) :
    (self.update now id c next).inFlights.toNat =
    (self.objects.set id next).countP ProxyConnection.inFlight ∧
      (self.update now id c next).wrapped = self.wrapped := by
  have hset : (self.objects.set id next).countP ProxyConnection.inFlight + c.inFlight.toNat =
      self.objects.countP ProxyConnection.inFlight + next.inFlight.toNat :=
        Counts.countP_set hc next
  have hcount := h.count
  by_cases hlisted : id ∈ self.connections
  · obtain ⟨n, hn, hinFlights⟩ := h.count_others hc hlisted
    have hbefore : ({ self with objects := self.objects.set id next } : Proxy).inFlights.toNat =
        n + c.inFlight.toNat := hinFlights
    obtain ⟨hafter, hwrapped⟩ := foldl_see_inFlights halternate hn hbefore
    exact ⟨hafter.trans (by omega), hwrapped⟩
  · obtain ⟨hstate, hcalls⟩ := hunlisted hlisted
    have hafter : (self.update now id c next).inFlights = self.inFlights ∧
        (self.update now id c next).wrapped = self.wrapped := foldl_see_of_closed hcalls
    have hc' : c.inFlight = false := by
      rw [ProxyConnection.inFlight, h.unlisted id c hc hlisted]
      rfl
    have hnext : next.inFlight = false := by
      rw [ProxyConnection.inFlight, hstate]
      rfl
    rw [hc', hnext] at hset
    exact ⟨(congrArg UInt32.toNat hafter.1).trans (hcount.trans hset.symm), hafter.2⟩

/-- A connection changes, with its calls in balance. -/
theorem update (h : self.Balanced) {c next : ProxyConnection} (hc : self.objects[id]? = some c)
    (hextends : c.effects <+: next.effects) (haccounts : next.Accounts) (hclosed : next.Sealed) :
    (self.update now id c next).Balanced := by
  have hmem : c ∈ self.objects := List.mem_of_getElem? hc
  have hlt : id < self.objects.length := (List.getElem?_eq_some_iff.mp hc).1
  have hsplit : c.effects ++ next.effects.drop c.effects.length = next.effects :=
    List.prefix_iff_eq_append.mp hextends
  have halternate : alternate c.inFlight (next.effects.drop c.effects.length) =
      some next.inFlight := by
    rw [← alternate_append (h.accounts c hmem).calls, hsplit]
    exact haccounts.calls
  -- a connection that is no longer in the vector is closed, and stays so
  have hunlisted (hno : id ∉ self.connections) :=
    (h.closed c hmem).of_closed (h.unlisted id c hc hno) hclosed hextends
  obtain ⟨hsub, hsame, hothers⟩ := self.update_connections now id c next
  obtain ⟨hcount, hwrapped⟩ := h.update_count now hc halternate hunlisted
  refine ⟨h.nodup.sublist hsub, ?_, hsub.length_le.trans_lt h.short, ?_, ?_, ?_, ?_,
    hwrapped.trans h.not_wrapped⟩
  · intro other hother
    rw [update_objects, List.length_set]
    exact h.known other (hsub.subset hother)
  · rw [update_objects]
    intro other hother
    obtain hother | rfl := List.mem_or_eq_of_mem_set hother
    · exact h.accounts other hother
    · exact haccounts
  · rw [update_objects]
    intro other hother
    obtain hother | rfl := List.mem_or_eq_of_mem_set hother
    · exact h.closed other hother
    · exact hclosed
  · rw [update_objects]
    intro other c' hc' hno
    by_cases hid : other = id
    · subst hid
      rw [List.getElem?_set_self hlt] at hc'
      cases hc'
      by_cases hlisted : other ∈ self.connections
      · by_contra hopen
        refine hclosed.not_called hopen (hsplit ▸ List.mem_append_right _ ?_)
        by_contra hcall
        exact hno (hsame hcall ▸ hlisted)
      · exact (hunlisted hlisted).1
    · rw [List.getElem?_set_ne (Ne.symm hid)] at hc'
      exact h.unlisted other c' hc' fun hlisted => hno (hothers other hlisted hid)
  · rw [update_objects]
    exact hcount

theorem callback (h : self.Balanced) {env : Env} {event : Event}
    (hok : ∀ c, self.objects[id]? = some c →
      c.Accountable { env with isAuthenticated := self.serverPk.isSome } event) :
    (self.callback id env event).Balanced := by
  unfold Proxy.callback
  split
  · exact h
  · rename_i c hc
    have hmem := List.mem_of_getElem? hc
    refine h.update hc (ProxyConnection.step_extends c event) ?_ ?_
    · exact (h.accounts c hmem).step fun _ => hok c hc
    · exact (h.closed c hmem).step fun _ => (hok c hc).keepsClosed

/-- What `release` does, if the connection is not disconnecting. -/
theorem release (h : self.Balanced) (now : UInt64)
    (hstate : ∀ c, self.objects[id]? = some c → c.state ≠ .disconnecting) :
    (self.release now id).Balanced ∧ (self.release now id).connections = self.connections ∧
      (∀ c, (self.release now id).objects[id]? = some c → c.state = .closed) ∧
      ∀ other, other ≠ id → (self.release now id).objects[other]? = self.objects[other]? := by
  unfold Proxy.release
  split
  · rename_i hnone
    refine ⟨h, rfl, fun c hc => ?_, fun _ _ => rfl⟩
    rw [hnone] at hc
    cases hc
  · rename_i c hc
    have hmem := List.mem_of_getElem? hc
    have hlt : id < self.objects.length := (List.getElem?_eq_some_iff.mp hc).1
    have haccounts : ({ c with closeHandler := false } : ProxyConnection).Accounts :=
      (h.accounts c hmem).frame rfl rfl rfl fun hupstream => hupstream
    have hclosed : ({ c with closeHandler := false } : ProxyConnection).Sealed :=
      (h.closed c hmem).frame rfl rfl
    have hextends : c.effects <+: { c with closeHandler := false }.close.effects :=
      ProxyConnection.close_extends { c with closeHandler := false }
    refine ⟨h.update hc hextends (haccounts.close (hstate c hc)) hclosed.close, ?_, ?_, ?_⟩
    · exact (update_connections _ _ _ _ _).2.1
        (ProxyConnection.close_not_called { c with closeHandler := false } rfl)
    · intro c' hc'
      rw [update_objects, List.getElem?_set_self hlt] at hc'
      cases hc'
      exact ProxyConnection.close_state _
    · intro other hother
      rw [update_objects, List.getElem?_set_ne (Ne.symm hother)]

/-- The connections are released one after the other. -/
theorem releases (h : self.Balanced) (now : UInt64) (ids : List Nat)
    (hstate : ∀ id ∈ ids, ∀ c, self.objects[id]? = some c → c.state ≠ .disconnecting) :
    let after := ids.foldl (fun self id => self.release now id) self
    after.Balanced ∧ after.connections = self.connections ∧
      (∀ id ∈ ids, ∀ c, after.objects[id]? = some c → c.state = .closed) ∧
      ∀ other ∉ ids, after.objects[other]? = self.objects[other]? := by
  induction ids using List.reverseRecOn with
  | nil => exact ⟨h, rfl, by simp, fun _ _ => rfl⟩
  | append_singleton ids id ih =>
    simp only [List.mem_append, List.mem_singleton] at hstate
    obtain ⟨hbalanced, hconnections, hreleased, hothers⟩ := ih fun id hid => hstate id (.inl hid)
    rw [List.foldl_concat]
    dsimp only
    have hlast : ∀ c, (ids.foldl (fun self id => self.release now id) self).objects[id]? = some c →
        c.state ≠ .disconnecting := by
      intro c hc
      by_cases hid : id ∈ ids
      · rw [hreleased id hid c hc]
        decide
      · rw [hothers id hid] at hc
        exact hstate id (.inr rfl) c hc
    obtain ⟨hbalanced', hconnections', hreleased', hothers'⟩ := hbalanced.release now hlast
    refine ⟨hbalanced', hconnections'.trans hconnections, ?_, ?_⟩
    · intro other hother c hc
      by_cases hid : other = id
      · exact hreleased' c (hid ▸ hc)
      · rw [hothers' other hid] at hc
        refine hreleased other ?_ c hc
        simpa [hid] using hother
    · intro other hother
      rw [List.mem_append, List.mem_singleton, not_or] at hother
      rw [hothers' other hother.2, hothers other hother.1]

/-- Connections that are closed are taken out of the vector. -/
theorem shrink (h : self.Balanced) {connections : List Nat}
    (hsub : connections.Sublist self.connections)
    (hclosed : ∀ id ∈ self.connections, id ∉ connections → ∀ c, self.objects[id]? = some c →
    c.state = .closed) :
    ({ self with connections := connections } : Proxy).Balanced where
  nodup := h.nodup.sublist hsub
  known id hid := h.known id (hsub.subset hid)
  short := hsub.length_le.trans_lt h.short
  accounts := h.accounts
  closed := h.closed
  unlisted id c hc hno := by
    by_cases hlisted : id ∈ self.connections
    · exact hclosed id hlisted hno c hc
    · exact h.unlisted id c hc hlisted
  count := h.count
  not_wrapped := h.not_wrapped

theorem connect (h : self.Balanced)
    (hroom : self.connections.length < self.maxConnections.toNat) (env : Env) :
    (self.connect env).Balanced := by
  have hmax := self.maxConnections.toNat_lt
  have hnew : (ProxyConnection.create env).inFlight = false := by
    rw [ProxyConnection.inFlight, (ProxyConnection.create_spec env).1]
    rfl
  refine ⟨?_, ?_, ?_, ?_, ?_, ?_, ?_, h.not_wrapped⟩
  · refine List.nodup_append.mpr ⟨h.nodup, List.nodup_singleton _, fun id hid other hother => ?_⟩
    rw [List.mem_singleton.mp hother]
    exact (h.known id hid).ne
  · intro id hid
    show id < (self.objects ++ [_]).length
    rw [List.length_append, List.length_singleton]
    obtain hid | hid := List.mem_append.mp hid
    · have := h.known id hid
      omega
    · rw [List.mem_singleton.mp hid]
      omega
  · show (self.connections ++ [_]).length < _
    rw [List.length_append, List.length_singleton]
    omega
  · intro c hc
    obtain hc | hc := List.mem_append.mp hc
    · exact h.accounts c hc
    · rw [List.mem_singleton.mp hc]
      exact ProxyConnection.Accounts.create env
  · intro c hc
    obtain hc | hc := List.mem_append.mp hc
    · exact h.closed c hc
    · rw [List.mem_singleton.mp hc]
      exact ProxyConnection.Sealed.create env
  · intro id c hc hno
    have hne : id ≠ self.objects.length := fun hid =>
      hno (List.mem_append_right _ (List.mem_singleton.mpr hid))
    have hlt : id < self.objects.length := by
      have := (List.getElem?_eq_some_iff.mp hc).1
      rw [Proxy.connect, List.length_append, List.length_singleton] at this
      omega
    refine h.unlisted id c ?_ fun hid => hno (List.mem_append_left _ hid)
    rwa [Proxy.connect, List.getElem?_append_left hlt] at hc
  · show self.inFlights.toNat = (self.objects ++ [_]).countP _
    rw [List.countP_append, List.countP_singleton, hnew, h.count]
    rfl

/-- The vector is empty, so no connection is at work. -/
theorem reset (h : self.Balanced) (hempty : self.connections = []) : self.reset.Balanced where
  nodup := h.nodup
  known := h.known
  short := h.short
  accounts := h.accounts
  closed := h.closed
  unlisted := h.unlisted
  count := by
    rw [Proxy.reset, ← h.count, h.count_live, live, hempty]
    rfl
  not_wrapped := h.not_wrapped

theorem needsNewConnection (h : self.Balanced) (now : UInt64) :
    (self.needsNewConnection now).1.Balanced ∧ ((self.needsNewConnection now).2 = true →
      (self.needsNewConnection now).1.connections.length <
        (self.needsNewConnection now).1.maxConnections.toNat) := by
  unfold Proxy.needsNewConnection
  split_ifs with hfull hdelay hempty hreset
  · exact ⟨h, fun hno => by cases hno⟩
  · exact ⟨h, fun hno => by cases hno⟩
  · exact ⟨h.reset (List.isEmpty_iff.mp hempty), fun _ => not_le.mp hfull⟩
  · exact ⟨h, fun _ => not_le.mp hfull⟩
  · exact ⟨h, fun _ => not_le.mp hfull⟩

theorem onIteration (h : self.Balanced) (env : Env) : (self.onIteration env).Balanced := by
  obtain ⟨hbalanced, hroom⟩ := h.needsNewConnection env.now
  unfold Proxy.onIteration
  split_ifs with hneeds
  · exact hbalanced.connect (hroom hneeds) env
  · exact hbalanced

theorem idleCheck (h : self.Balanced) (now : UInt64) : (self.idleCheck now).Balanced := by
  unfold Proxy.idleCheck
  split_ifs with hrecent hbusy
  · exact h
  · exact h
  · rw [not_or, not_not] at hbusy
    have hnone : ∀ c ∈ self.objects, c.state ≠ .disconnecting := by
      intro c hc hdisconnecting
      have hzero := h.count.symm
      rw [hbusy.1] at hzero
      refine List.countP_eq_zero.mp hzero c hc ?_
      rw [ProxyConnection.inFlight, hdisconnecting]
      rfl
    obtain ⟨hbalanced, hconnections, hreleased, -⟩ : _ ∧ _ ∧ _ ∧ _ :=
      h.releases now (self.connections.drop 1).reverse fun id _ c hc =>
        hnone c (List.mem_of_getElem? hc)
    refine hbalanced.shrink (List.take_sublist 1 _) fun id hid hno => ?_
    rw [hconnections] at hid hno
    refine hreleased id (List.mem_reverse.mpr ?_)
    rw [← List.take_append_drop 1 self.connections] at hid
    exact (List.mem_append.mp hid).resolve_left hno

theorem onStop (h : self.Balanced) (now : UInt64)
    (hstate : ∀ c ∈ self.live, c.state ≠ .disconnecting) :
    (self.onStop now).Balanced := by
  have hstop : ({ self with running := false } : Proxy).Balanced :=
    ⟨h.nodup, h.known, h.short, h.accounts, h.closed, h.unlisted, h.count, h.not_wrapped⟩
  obtain ⟨hbalanced, hconnections, hreleased, -⟩ : _ ∧ _ ∧ _ ∧ _ :=
    hstop.releases now self.connections fun id hid c hc =>
      hstate c (List.mem_filterMap.mpr ⟨id, hid, hc⟩)
  refine hbalanced.shrink (List.nil_sublist _) fun id hid _ => ?_
  rw [hconnections] at hid
  exact hreleased id hid

end Balanced

/-! ## Runs -/

/-- Nothing that happens disturbs the balance: each callback of a connection keeps its calls in
balance, and the proxy is not stopped while a connection is disconnecting. -/
def Accountable (self : Proxy) : ProxyEvent → Prop
  | .onIteration _ => True
  | .idleCheck _ => True
  | .onStop _ => ∀ c ∈ self.live, c.state ≠ .disconnecting
  | .callback id env event => ∀ c, self.objects[id]? = some c →
      c.Accountable { env with isAuthenticated := self.serverPk.isSome } event

/-- The accounts of the proxy: `inFlights` is the number of the connections in the vector that are
in `Relaying` or `Disconnecting`, it was never decremented at 0, each call of `onBusy` has had its
`onIdle` if the connection is not at work now, and every connection entered `Idling` with no
confirmation counted. -/
structure Accounted (p : Proxy) : Prop where
  inFlights : p.inFlights.toNat = p.live.countP ProxyConnection.inFlight
  not_wrapped : p.wrapped = false
  calls : ∀ c ∈ p.objects,
    c.effects.count (.call .busy) = c.effects.count (.call .idle) + c.inFlight.toNat
  idling : ∀ c ∈ p.objects, ∀ k, .enter .idling k ∈ c.effects → k = 0

theorem Balanced.accounted (h : self.Balanced) : self.Accounted where
  inFlights := h.count_live
  not_wrapped := h.not_wrapped
  calls c hc := count_of_alternate (h.accounts c hc).calls
  idling c hc := (h.accounts c hc).idling

theorem Balanced.step (h : self.Balanced) {event : ProxyEvent}
    (hok : self.isDead = false → self.Accountable event) : (self.step event).Balanced := by
  unfold Proxy.step
  split_ifs with hdead
  · exact h
  · have hok := hok (Bool.not_eq_true _ ▸ hdead)
    cases event with
    | onIteration env =>
      unfold Proxy.react
      split_ifs
      · exact h.onIteration env
      · exact h
    | idleCheck now =>
      unfold Proxy.react
      split_ifs
      · exact h.idleCheck now
      · exact h
    | onStop now =>
      unfold Proxy.react
      split_ifs
      · exact h.onStop now hok
      · exact h
    | callback id env event => exact h.callback hok

theorem run_balanced {maxConnections : UInt32} {events : List ProxyEvent}
    (hok : Runs.Every (fun pre e => ((start maxConnections).run pre).isDead = false →
      ((start maxConnections).run pre).Accountable e) events) :
      ((start maxConnections).run events).Balanced := by
  refine hok.inv (I := fun pre => ((start maxConnections).run pre).Balanced)
    (Balanced.start maxConnections)
    fun pre e hpre he => ?_
  rw [run_concat]
  exact hpre.step he

/-- The accounts are right in every state of a run whose steps all keep the balance. -/
theorem run_accounted (maxConnections : UInt32) (events : List ProxyEvent)
    (hok : Runs.Every (fun pre e => ((start maxConnections).run pre).isDead = false →
      ((start maxConnections).run pre).Accountable e) events) :
    ∀ pre, pre <+: events → ((start maxConnections).run pre).Accounted := fun _ hpre =>
  (run_balanced (hok.of_initial hpre)).accounted

/-- A connection comes to relay data: it is made, authenticated and gets a CONNECT. -/
def relaying : List ProxyEvent :=
  [.onIteration {},
    .callback 0 {} (.complete .relayConnect true),
    .callback 0 {} (.relayPacket ⟨List.replicate 34 0, 34⟩),
    .callback 0 { decryptWithNode := fun _ => some (List.Vector.ofFn fun i =>
      if i.val = 35 then 16 else 0) }
      (.relayPacket ⟨[0, 56, 0x80] ++ List.replicate 53 0, 56⟩),
    .callback 0 { decrypt := fun _ => some (List.Vector.ofFn fun i => if i.val = 0 then 4 else 0) }
      (.relayPacket ⟨[0, 38, 0x20] ++ List.replicate 35 0, 38⟩),
    .callback 0 {} (.complete .upstreamConnect true)]

theorem relaying_accounted : ((start 16).run relaying).inFlights = 1 ∧
    ((start 16).run relaying).Accounted := by
  refine ⟨by decide +kernel, run_accounted 16 relaying ?_ relaying List.prefix_rfl⟩
  have hcallback {pre : List ProxyEvent} {env : Env} {event : Event} (hinit : env.tcpInit)
      (hwrite : ∀ type, env.write type) (hevent : event ≠ .complete .upstreamConnect false)
      (hstates : ∀ c ∈ ((start 16).run pre).objects, c.state ≠ .disconnecting) :
      ((start 16).run pre).isDead = false →
        ((start 16).run pre).Accountable (.callback 0 env event) :=
    fun _ c hc => .of_succeeds (hstates c (List.mem_of_getElem? hc)) hinit hwrite hevent
  show Runs.Every _ ([] ++ [_] ++ [_] ++ [_] ++ [_] ++ [_] ++ [_])
  simp only [Runs.every_concat]
  refine ⟨⟨⟨⟨⟨⟨Runs.every_nil, fun _ => trivial⟩, ?_⟩, ?_⟩, ?_⟩, ?_⟩, ?_⟩
  all_goals exact hcallback rfl (fun _ => rfl) (by simp) (by decide +kernel)

/-- The upstream ends, and the relay server ends the connection before it has confirmed that. -/
def closedWhileDisconnecting : List ProxyEvent :=
  relaying ++ [.callback 0 {} .upstreamError, .callback 0 {} .relayError]

/-- No connection is left, and `inFlights` is 1. -/
theorem closedWhileDisconnecting_not_accounted :
    ¬ ((start 16).run closedWhileDisconnecting).Accounted := by
  intro h
  have hcount := h.inFlights
  have hone : ((start 16).run closedWhileDisconnecting).inFlights = 1 := by decide +kernel
  have hnone : ((start 16).run closedWhileDisconnecting).connections = [] := by decide +kernel
  rw [hone, live, hnone] at hcount
  cases hcount

end Proxy

end ActiveProxy

end Boson
