import Boson.Node.Received

/-!
# Entries that are removed for a change of id (`DHT::received`)

When a message comes from an address that `knownNodes` has under another id, the entry of that id is
removed. The map is not changed when a node moves: its old address keeps its id until a message
comes from there.

* `DHT.Fresh`: the nodes of the table are at all addresses under which the map has them.
* `DHT.fresh_step_iff`: an event keeps this exactly if it does not put a node into the table that
  the map has under another address.
* `DHT.run_removed_origin`: in runs of such events, an entry that is removed has the address of the
  sender.
* `DHT.removed_of_stale`: in other states, the next sender at such an address has another node
  removed.
-/

namespace Boson

namespace DHT

/-- The nodes of the table are at all addresses under which the map has them. -/
def Fresh (d : DHT) : Prop :=
  ∀ a x, x ∈ d.routingTable.allEntries → d.knownNodes.lookup a = some (a, x.nodeId) → x.sockaddr = a

/-- The event puts an entry that can be new into the table. -/
inductive Puts (d : DHT) : Event → UInt64 → KBucketEntry → Prop
  | answered {now : UInt64} {msg : Message} {c : AnsweredCall} : d.Reaches msg (some c) →
      d.impostor msg.origin msg.id = none →
        Puts d (.received now msg (some c)) now (senderEntry now msg (some c))
  | put {now : UInt64} {entry : KBucketEntry} : Puts d (.put now entry) now entry

/-- The table takes in the entry, of a node that it does not have. -/
def TakesIn (d : DHT) (now : UInt64) (entry : KBucketEntry) : Prop :=
  d.routingTable.getEntry entry.nodeId = none ∧
    (d.put now entry).routingTable.getEntry entry.nodeId ≠ none

/-- The event puts no node into the table that the map has under another address. -/
def NoOldAddress (d : DHT) (e : Event) : Prop :=
  ∀ now entry, d.Puts e now entry → d.TakesIn now entry →
    ∀ a, d.knownNodes.lookup a = some (a, entry.nodeId) → a = entry.sockaddr

variable {self : DHT} {now : UInt64} {msg : Message} {call : Option AnsweredCall}
    {entry : KBucketEntry}

/-! ## What an event does -/

/-- An entry after `put` was there before, or is new. -/
theorem put_has (self : DHT) (now : UInt64) (entry : KBucketEntry) :
    ∀ x ∈ (self.put now entry).routingTable.allEntries, self.Has x.nodeId x.sockaddr ∨
      x.nodeId = entry.nodeId ∧ x.sockaddr = entry.sockaddr ∧ entry.reachable = true ∧
        self.TakesIn now entry := by
  intro x hx
  cases hget : self.routingTable.getEntry entry.nodeId with
  | some y =>
    exact .inl (RoutingTable.all_iff.mp
      (self.all_has.put_of_getEntry self.table_ok hget (self.put_routingTable now entry)) x hx)
  | none =>
    have hall : (self.put now entry).routingTable.All fun i a =>
        self.Has i a ∨ i = entry.nodeId ∧ a = entry.sockaddr ∧ entry.reachable = true :=
      all_put (RoutingTable.all_iff.mpr fun y hy => .inl ⟨y, hy, rfl, rfl⟩) fun hr =>
        .inr ⟨rfl, rfl, hr⟩
    refine (RoutingTable.all_iff.mp hall x hx).imp_right fun ⟨hid, haddr, hr⟩ => ⟨hid, haddr,
      hr, hget, ?_⟩
    rw [← hid, RoutingTable.getEntry_of_mem (self.put now entry).table_ok hx]
    simp

/-! ## The addresses in the map -/

theorem Fresh.shrinks {after : DHT} (h : self.Fresh) (hs : self.Shrinks after) : after.Fresh := by
  intro a x hx hlookup
  obtain ⟨y, hy, hid, haddr⟩ := RoutingTable.all_iff.mp hs.all x hx
  rw [hs.known, ← hid] at hlookup
  rw [← haddr]
  exact h a y hy hlookup

theorem Fresh.setKnown (h : self.Fresh) {addr : SocketAddress} {id : Id}
    (hsame : ∀ x ∈ self.routingTable.allEntries, x.nodeId = id → x.sockaddr = addr) :
    (self.setKnown addr id).Fresh := by
  intro a x hx hlookup
  rw [lookup_setKnown] at hlookup
  split_ifs at hlookup with ha
  · have hid : id = x.nodeId := congrArg Prod.snd (Option.some.inj hlookup)
    rw [ha]
    exact hsame x hx hid.symm
  · exact h a x hx hlookup

theorem Fresh.put (h : self.Fresh)
    (hno : entry.reachable = true → self.TakesIn now entry →
      ∀ a, self.knownNodes.lookup a = some (a, entry.nodeId) → a = entry.sockaddr) :
    (self.put now entry).Fresh := by
  intro a x hx hlookup
  rw [put_knownNodes] at hlookup
  obtain ⟨y, hy, hid, haddr⟩ | ⟨hid, haddr, hr, htakes⟩ := self.put_has now entry x hx
  · rw [← haddr]
    exact h a y hy (by rw [hid]; exact hlookup)
  · rw [haddr]
    exact (hno hr htakes a (by rw [← hid]; exact hlookup)).symm

theorem Fresh.step (h : self.Fresh) {e : Event} (hno : self.NoOldAddress e) :
    (self.step e).Fresh := by
  cases e with
  | received now msg call =>
    obtain ⟨-, hsame⟩ | ⟨hreaches, known, himp, hremove⟩ | ⟨hreaches, himp, dht, hput, hdht⟩ :=
      self.receive_cases now msg call
    · rw [DHT.step, hsame]
      exact h
    · rw [DHT.step, hremove]
      have hshrinks : self.Shrinks (self.remove now known) :=
        self.operate_shrinks now (.remove known)
      refine (h.shrinks hshrinks).setKnown fun x hx hid => ?_
      obtain ⟨y, hy, hyid, hyaddr⟩ := RoutingTable.all_iff.mp hshrinks.all x hx
      rw [← hyaddr]
      exact hreaches.same y hy (hyid.trans hid)
    · rw [DHT.step, hput]
      have hknown := h.setKnown hreaches.same
      obtain rfl | ⟨rfl, rfl⟩ := hdht
      · refine hknown.put fun hr htakes a hlookup => ?_
        -- only an answer to a call makes a reachable entry
        cases call with
        | none => cases hr
        | some c =>
          rw [lookup_setKnown] at hlookup
          split_ifs at hlookup with ha
          · rw [ha, senderEntry_sockaddr]
          · refine hno now _ (.answered hreaches himp) ⟨htakes.1, ?_⟩ a hlookup
            rw [← self.put_setKnown_routingTable msg.origin msg.id]
            exact htakes.2
      · exact (hknown.shrinks ((self.setKnown _ _).operate_shrinks now (.onSend msg.id))).put
          fun hr => by cases hr
  | put now entry => exact h.put fun _ htakes => hno now entry .put htakes
  | operate now op => exact h.shrinks (self.operate_shrinks now op)

/-- The entry that is taken in is the new one. -/
theorem TakesIn.mem (h : self.TakesIn now entry) :
    ∃ x ∈ (self.put now entry).routingTable.allEntries, x.nodeId = entry.nodeId ∧
      x.sockaddr = entry.sockaddr := by
  obtain ⟨hnone, hsome⟩ := h
  obtain ⟨x, hx⟩ := Option.ne_none_iff_exists'.mp hsome
  obtain ⟨hmem, hid⟩ := (RoutingTable.getEntry_eq_some_iff (self.put now entry).table_ok).mp hx
  refine ⟨x, hmem, hid, ?_⟩
  obtain ⟨y, hy, hyid, -⟩ | ⟨-, haddr, -⟩ := self.put_has now entry x hmem
  · have hget := RoutingTable.getEntry_of_mem self.table_ok hy
    rw [hyid, hid, hnone] at hget
    cases hget
  · exact haddr

/-- An event keeps the nodes at the addresses of the map exactly if it puts no node into the table
that the map has under another one. -/
theorem fresh_step_iff (h : self.Fresh) (e : Event) : (self.step e).Fresh ↔
    self.NoOldAddress e := by
  refine ⟨fun hafter now entry hputs htakes a hlookup => ?_, h.step⟩
  obtain ⟨x, hx, hid, haddr⟩ := htakes.mem
  cases hputs with
  | put =>
    rw [← haddr]
    refine (hafter a x hx ?_).symm
    rw [DHT.step, put_knownNodes, hid]
    exact hlookup
  | @answered now msg c hreaches himp =>
    rw [senderEntry_nodeId] at hid hlookup
    rw [senderEntry_sockaddr] at haddr ⊢
    by_contra ha
    obtain ⟨hnot, -⟩ | ⟨-, known, himp', -⟩ | ⟨-, -, dht, hput, hdht⟩ :=
      self.receive_cases now msg (some c)
    · exact hnot hreaches
    · rw [himp] at himp'
      cases himp'
    · obtain rfl | ⟨hnone, -⟩ := hdht
      · refine ha ((hafter a x ?_ ?_).symm.trans haddr)
        · rw [DHT.step, hput]
          dsimp only
          rw [put_setKnown_routingTable]
          exact hx
        · rw [DHT.step, hput, put_knownNodes, lookup_setKnown, if_neg ha, hid]
          exact hlookup
      · cases hnone

theorem start_fresh (localId : Id) (addr : SocketAddress) (now : UInt64)
    (file : Option (List StoredEntry)) :
    ((create localId addr).start now file).Fresh := by
  intro a x _ hlookup
  rw [(start_shell (create localId addr) now file).2.2] at hlookup
  cases hlookup

/-- The states of a run keep the nodes at the addresses of the map exactly if its events do. -/
theorem run_fresh_iff (h : self.Fresh) (events : List Event) :
    (∀ pre, pre <+: events → (self.run pre).Fresh) ↔
      Runs.Every (fun pre e => (self.run pre).NoOldAddress e) events := by
  rw [Runs.forall_initial_iff (Q := fun pre => (self.run pre).Fresh) h]
  refine Runs.every_iff_of_inv (I := fun pre => (self.run pre).Fresh) h
    (fun pre e _ hafter => hafter)
    (fun pre e hpre => ?_) events
  rw [run_concat]
  exact fresh_step_iff hpre e

/-! ## What is removed -/

/-- The entry that a message has removed: it is of another node, which the map has under the
address. -/
theorem removed_iff {x : KBucketEntry} :
    (self.receive now msg call).1 = some x ↔
      self.Reaches msg call ∧ x ∈ self.routingTable.allEntries ∧
      x.nodeId ≠ msg.id ∧ self.knownNodes.lookup msg.origin = some (msg.origin, x.nodeId) := by
  obtain ⟨hnot, heq⟩ | ⟨hreaches, known, himp, heq⟩ | ⟨-, himp, dht, heq, -⟩ :=
    self.receive_cases now msg call
  · rw [heq]
    exact ⟨(fun h => by cases h), fun h => absurd h.1 hnot⟩
  · rw [heq]
    dsimp only
    rw [RoutingTable.getEntry_eq_some_iff self.table_ok, impostor_eq_some himp]
    constructor
    · rintro ⟨hx, rfl⟩
      exact ⟨hreaches, hx, impostor_ne himp, rfl⟩
    · rintro ⟨-, hx, -, hknown⟩
      exact ⟨hx, (congrArg Prod.snd (Option.some.inj hknown)).symm⟩
  · rw [heq]
    refine ⟨(fun h => by cases h), fun ⟨_, hx, hne, hknown⟩ => ?_⟩
    exact absurd (impostor_eq_none himp hx hknown) hne

theorem Fresh.removed (h : self.Fresh) {x : KBucketEntry}
    (hx : (self.receive now msg call).1 = some x) :
    x.sockaddr = msg.origin := by
  obtain ⟨-, hmem, -, hknown⟩ := removed_iff.mp hx
  exact h msg.origin x hmem hknown

/-- A node that is not at an address under which the map has it: every other sender at that address
that `received` considers has it removed. -/
theorem removed_of_stale {x : KBucketEntry} (hx : x ∈ self.routingTable.allEntries)
    (hknown : self.knownNodes.lookup msg.origin = some (msg.origin, x.nodeId))
    (hne : x.nodeId ≠ msg.id) (hreaches : self.Reaches msg call) (now : UInt64) :
    (self.receive now msg call).1 = some x :=
  removed_iff.mpr ⟨hreaches, hx, hne, hknown⟩

/-- In every run after a start in which no event puts a node into the table that the map has under
another address, the entry that a message has removed has the address of the message. -/
theorem run_removed_origin (localId : Id) (addr : SocketAddress) (now : UInt64)
    (file : Option (List StoredEntry)) (events : List Event)
    (hno : Runs.Every
      (fun pre e => (((create localId addr).start now file).run pre).NoOldAddress e) events)
    (later : UInt64) (msg : Message) (call : Option AnsweredCall) (x : KBucketEntry)
    (hx : ((((create localId addr).start now file).run events).receive later msg call).1 = some x) :
    x.sockaddr = msg.origin := by
  have hfresh := (run_fresh_iff (start_fresh localId addr now file) events).mpr hno
  exact (hfresh events (List.prefix_refl events)).removed hx

/-- A ping of the node `MAX_ID` from one of its two addresses. -/
def movingPing (second : Bool) : Message :=
  { id := Id.MAX_ID
    origin := .inet ⟨[93, 184, 216, if second then 35 else 34], by simp⟩ 39001
    content := .pingRequest }

/-- The answer to a call, from the same address. -/
def movingReply (second : Bool) : Event :=
  .received 0 { movingPing second with content := .pingResponse } (some ⟨true, true, 0⟩)

/-- A ping of another node from the first of these addresses. -/
def nextTenant : Message := { movingPing false with id := Id.ofFn fun i => if i = 0 then 1 else 0 }

/-- The DHT that receives them. -/
def tenantHost : DHT := (create Id.zero (.inet ⟨[93, 184, 216, 36], by simp⟩ 39001)).start 0 none

/-- The node at the first address gets a new id. -/
theorem nextTenant_removes :
    ∃ x, ((tenantHost.run [movingReply false]).receive 0 nextTenant none).1 = some x ∧
      x.sockaddr = nextTenant.origin := by
  have hremoved :
      ((tenantHost.run [movingReply false]).receive 0 nextTenant none).1.isSome = true := by
    decide +kernel
  obtain ⟨x, hx⟩ := Option.isSome_iff_exists.mp hremoved
  refine ⟨x, hx, run_removed_origin _ _ _ _ [movingReply false] ?_ 0 nextTenant none x hx⟩
  rw [Runs.every_singleton]
  intro now entry _ _ a hlookup
  cases hlookup

/-- A node sends a request from the first address, answers a call from the second one and is put
into the table with it: the next sender at the first address has it removed. -/
theorem nextTenant_removes_moved :
    ∃ x, ((tenantHost.run [.received 0 (movingPing false) none, movingReply true]).receive
      0 nextTenant none).1 = some x ∧ x.sockaddr ≠ nextTenant.origin := by
  have hremoved :
      ((tenantHost.run [.received 0 (movingPing false) none, movingReply true]).receive 0 nextTenant
      none).1.map (·.sockaddr) = some (movingPing true).origin := by decide +kernel
  obtain ⟨x, hx, haddr⟩ := Option.map_eq_some_iff.mp hremoved
  refine ⟨x, hx, ?_⟩
  rw [haddr]
  decide

end DHT

end Boson
