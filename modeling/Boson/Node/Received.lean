import Boson.Node.Addresses
import Boson.Rpc.Lifecycle
import Boson.RoutingTable.Put

/-!
# A DHT and the senders of its messages (`DHT::received`)

`DHT.receive` is the part of `DHT::received` that changes the DHT. It also gives the entry that is
force-removed, the one that the warning names. Sending a ping to a new node is left to
`Node.received`: for the DHT it is `onSend`.

* `Node.received_receive`: the DHTs after `Node.received`.
* `Node.run_dht`: the DHTs of a node in a run are in states that a run of a DHT reaches.
-/

namespace Boson

open FoldM

namespace DHT

/-- The entry that `DHT::received` makes for the sender. -/
def senderEntry (now : UInt64) (msg : Message) (call : Option AnsweredCall) : KBucketEntry :=
  let entry := KBucketEntry.new now msg.id msg.origin msg.version.toInt
  match call with
  | some call => (entry.signalResponse now).mergeRequestTime call.sentTime
  | none => entry

/-- `DHT::received`: the entry that is force-removed, and the DHT after it. -/
def receive (self : DHT) (now : UInt64) (msg : Message) (call : Option AnsweredCall) :
    Option KBucketEntry × DHT :=
  if msg.origin.isBogon ≠ some false then (none, self)
  else if call.any fun call => !call.matchesAddress || !call.matchesId then (none, self)
  else
    let old := self.routingTable.getEntry msg.id
    if old.any fun old => old.sockaddr ≠ msg.origin then (none, self)
    else
      match self.impostor msg.origin msg.id with
      | some known =>
        (self.routingTable.getEntry known, (self.remove now known).setKnown msg.origin msg.id)
      | none =>
        let dht := self.setKnown msg.origin msg.id
        -- a new node that answers no call is sent a ping
        let dht := if call.isNone && old.isNone then dht.onSend now msg.id else dht
        (none, dht.put now (senderEntry now msg call))

/-- `DHT::received` gets as far as `knownNodes`. -/
structure Reaches (d : DHT) (msg : Message) (call : Option AnsweredCall) : Prop where
  unicast : msg.origin.isBogon = some false
  fits : ∀ c, call = some c → c.matchesAddress = true ∧ c.matchesId = true
  same : ∀ x ∈ d.routingTable.allEntries, x.nodeId = msg.id → x.sockaddr = msg.origin

/-- What happens to a DHT: it receives a message, an entry is put into its table, or other code
operates on the table. -/
inductive Event where
  | received (now : UInt64) (msg : Message) (call : Option AnsweredCall)
  | put (now : UInt64) (entry : KBucketEntry)
  | operate (now : UInt64) (op : TableOp)

/-- One event. -/
def step (self : DHT) : Event → DHT
  | .received now msg call => (self.receive now msg call).2
  | .put now entry => self.put now entry
  | .operate now op => self.operate now op

/-- A sequence of events. -/
def run (self : DHT) (events : List Event) : DHT := events.foldl step self

@[simp] theorem run_concat (self : DHT) (events : List Event) (e : Event) :
    self.run (events ++ [e]) = (self.run events).step e := by
  simp [run]

/-- The id under which the address is known is another one. -/
theorem impostor_ne {self : DHT} {addr : SocketAddress} {id known : Id}
    (h : self.impostor addr id = some known) :
    known ≠ id := by
  unfold impostor at h
  split at h
  · split_ifs at h with hne
    cases h
    exact hne.1
  · cases h

@[simp] theorem senderEntry_nodeId (now : UInt64) (msg : Message) (call : Option AnsweredCall) :
    (senderEntry now msg call).nodeId = msg.id := by
  cases call <;> rfl

@[simp] theorem senderEntry_sockaddr (now : UInt64) (msg : Message) (call : Option AnsweredCall) :
    (senderEntry now msg call).sockaddr = msg.origin := by
  cases call <;> rfl

/-- The table after `put` depends on the table before it only. -/
theorem put_setKnown_routingTable (self : DHT) (addr : SocketAddress) (id : Id) (now : UInt64)
    (entry : KBucketEntry) :
    ((self.setKnown addr id).put now entry).routingTable = (self.put now entry).routingTable :=
  Option.some.inj (((self.setKnown addr id).put_routingTable now entry).symm.trans
    (self.put_routingTable now entry))

/-- What `receive` does: nothing, or it removes the entry that the map has under the address, or it
puts an entry for the sender. -/
theorem receive_cases (self : DHT) (now : UInt64) (msg : Message) (call : Option AnsweredCall) :
    ¬ self.Reaches msg call ∧ self.receive now msg call = (none, self) ∨
      self.Reaches msg call ∧ (∃ known, self.impostor msg.origin msg.id = some known ∧
        self.receive now msg call = (self.routingTable.getEntry known,
          (self.remove now known).setKnown msg.origin msg.id)) ∨
      self.Reaches msg call ∧ self.impostor msg.origin msg.id = none ∧ ∃ dht,
        self.receive now msg call = (none, dht.put now (senderEntry now msg call)) ∧
          (dht = self.setKnown msg.origin msg.id ∨
            call = none ∧ dht = (self.setKnown msg.origin msg.id).onSend now msg.id) := by
  by_cases hbogon : msg.origin.isBogon ≠ some false
  · exact .inl ⟨fun h => hbogon h.unicast, by rw [receive, if_pos hbogon]⟩
  by_cases hcall : (call.any fun call => !call.matchesAddress || !call.matchesId) = true
  · refine .inl ⟨fun h => ?_, by rw [receive, if_neg hbogon, if_pos hcall]⟩
    obtain ⟨c, rfl, hc⟩ := (Option.any_eq_true _ _).mp hcall
    simp [h.fits c rfl] at hc
  by_cases hold :
    ((self.routingTable.getEntry msg.id).any fun old => old.sockaddr ≠ msg.origin) = true
  · refine .inl ⟨fun h => ?_, by rw [receive, if_neg hbogon, if_neg hcall]; exact if_pos hold⟩
    obtain ⟨x, hx, haddr⟩ := (Option.any_eq_true _ _).mp hold
    obtain ⟨hmem, hid⟩ := (RoutingTable.getEntry_eq_some_iff self.table_ok).mp hx
    simp [h.same x hmem hid] at haddr
  have hreaches : self.Reaches msg call := by
    refine ⟨not_not.mp hbogon, fun c hc => ?_, fun x hx hid => ?_⟩
    · simpa [hc] using hcall
    · rw [← hid, RoutingTable.getEntry_of_mem self.table_ok hx] at hold
      simpa using hold
  refine .inr ?_
  rw [receive, if_neg hbogon, if_neg hcall]
  dsimp only
  rw [if_neg hold]
  cases himp : self.impostor msg.origin msg.id with
  | some known => exact .inl ⟨hreaches, known, rfl, rfl⟩
  | none =>
    refine .inr ⟨hreaches, rfl, _, rfl, ?_⟩
    cases call with
    | some c => exact .inl (by simp)
    | none =>
      split_ifs
      · exact .inr ⟨rfl, rfl⟩
      · exact .inl rfl

/-! ## The tables of a run -/

theorem put_reachable {self : DHT} {localId : Id}
    (h : RoutingTable.Reachable localId self.routingTable) (now : UInt64) (entry : KBucketEntry) :
    RoutingTable.Reachable localId (self.put now entry).routingTable :=
  .step (.put now entry) h (self.put_routingTable now entry)

theorem operate_reachable {self : DHT} {localId : Id}
    (h : RoutingTable.Reachable localId self.routingTable)
    (now : UInt64) (op : TableOp) :
    RoutingTable.Reachable localId (self.operate now op).routingTable := by
  cases op with
  | onSend id =>
    unfold operate onSend
    split_ifs
    · exact .step (.onSend now id) h rfl
    · exact h
  | onTimeout id =>
    unfold operate onTimeout
    split_ifs
    · exact .step (.onTimeout now id) h rfl
    · exact h
  | remove id => exact .step (.remove now id) h rfl
  | maintenance bootstrapIds => exact .maintenance now bootstrapIds h

theorem step_reachable {self : DHT} {localId : Id}
    (h : RoutingTable.Reachable localId self.routingTable)
    (e : Event) : RoutingTable.Reachable localId (self.step e).routingTable := by
  cases e with
  | received now msg call =>
    rw [step]
    obtain ⟨-, heq⟩ | ⟨-, known, -, heq⟩ | ⟨-, -, dht, heq, hdht⟩ := self.receive_cases now msg call
    · rw [heq]
      exact h
    · rw [heq]
      exact operate_reachable h now (.remove known)
    · rw [heq]
      refine put_reachable ?_ now _
      obtain rfl | ⟨-, rfl⟩ := hdht
      · exact h
      · exact @operate_reachable (self.setKnown msg.origin msg.id) localId h now (.onSend msg.id)
  | put now entry => exact put_reachable h now entry
  | operate now op => exact operate_reachable h now op

/-- The routing table in a run of a DHT after its start. -/
theorem run_reachable (localId : Id) (addr : SocketAddress) (now : UInt64)
    (file : Option (List StoredEntry)) (events : List Event) :
    RoutingTable.Reachable localId (((create localId addr).start now file).run
      events).routingTable := by
  induction events using List.reverseRecOn with
  | nil =>
    have hrestore := start_routingTable (create localId addr) now file rfl
    cases file with
    | none =>
      rw [RoutingTable.restore, Option.some.injEq] at hrestore
      rw [run, List.foldl_nil, ← hrestore]
      exact .init
    | some nodes => exact .step (.load now _) .init hrestore
  | append_singleton events e ih =>
    rw [run_concat]
    exact step_reachable ih e

end DHT

namespace Node

variable {self after : Node} {type : Network} {dht : DHT} {msg : Message}
    {call : Option AnsweredCall}

@[simp] theorem getDHT_setDHT (self : Node) (dht : DHT) (type : Network) :
    (self.setDHT dht type).getDHT type = some dht := by
  cases type <;> rfl

theorem setDHT_of_getDHT (h : self.getDHT type = some dht) : self.setDHT dht type = self := by
  cases type with
  | ipv4 =>
    rw [getDHT] at h
    rw [setDHT, ← h]
  | ipv6 =>
    rw [getDHT] at h
    rw [setDHT, ← h]

/-- The DHTs after a change of one of them, which is made twice where a ping is sent in between. -/
theorem getDHT_setDHT_twice {mid : Node} {dht' : DHT}
    (hmid : ∀ t, mid.getDHT t = (self.setDHT dht' type).getDHT t) (t : Network) :
    (mid.setDHT dht type).getDHT t = (self.setDHT dht type).getDHT t := by
  cases type <;> cases t
  · rfl
  · exact hmid .ipv6
  · exact hmid .ipv4
  · rfl

theorem sendPing_dht {mid : Node} {dht' : DHT} {id : Id} {addr : SocketAddress}
    (h : self.sendPing type dht id addr = .ok (dht', mid)) :
    dht' = dht.onSend self.now id ∧ mid.now = self.now ∧
      ∀ t, mid.getDHT t = (self.setDHT dht' type).getDHT t := by
  unfold sendPing at h
  dsimp only at h
  split_ifs at h
  cases h
  refine ⟨rfl, congrArg UInt64.ofNat ?_, fun t => ?_⟩
  · exact (RPCServer.sendCall_grows addr false (RPCServer.exec_grows .done)).now
  · cases type <;> cases t <;> rfl

theorem enlist_receive {old : Option KBucketEntry}
    (h : self.enlist type dht msg call old = .ok after) (t : Network) :
    after.getDHT t =
      (self.setDHT (((if call.isNone && old.isNone then
          (dht.setKnown msg.origin msg.id).onSend self.now msg.id
        else dht.setKnown msg.origin msg.id).put self.now (DHT.senderEntry self.now msg call)))
          type).getDHT t := by
  unfold enlist at h
  dsimp only at h
  split at h
  · cases h
    rfl
  · obtain ⟨⟨dht', mid⟩, hping, h⟩ := bind_eq_ok_iff.mp h
    obtain ⟨rfl, hnow, hmid⟩ := sendPing_dht hping
    cases h
    rw [hnow]
    exact getDHT_setDHT_twice hmid t
  · cases h
    rfl

/-- The DHT of the family is the one that `DHT.receive` gives, and the other one stays. -/
theorem received_receive (hdht : self.getDHT type = some dht)
    (h : self.received type dht msg call = .ok after) (t : Network) :
    after.getDHT t = (self.setDHT (dht.receive self.now msg call).2 type).getDHT t := by
  have hsame : self.getDHT t = (self.setDHT dht type).getDHT t := by rw [setDHT_of_getDHT hdht]
  unfold received at h
  obtain ⟨bogon, hb, h⟩ := bind_eq_ok_iff.mp h
  unfold isBogon at hb
  split at hb
  · next b hbogon =>
    cases hb
    unfold DHT.receive
    dsimp only at h
    split_ifs at h with hbog hcall hold
    · cases h
      rw [if_pos (by rw [hbogon, hbog]; simp)]
      exact hsame
    · cases h
      rw [if_neg (by rw [hbogon, Bool.eq_false_iff.mpr hbog]; simp), if_pos hcall]
      exact hsame
    · cases h
      rw [if_neg (by rw [hbogon, Bool.eq_false_iff.mpr hbog]; simp), if_neg hcall]
      dsimp only
      rw [if_pos hold]
      exact hsame
    · rw [if_neg (by rw [hbogon, Bool.eq_false_iff.mpr hbog]; simp), if_neg hcall]
      dsimp only
      rw [if_neg hold]
      cases himp : dht.impostor msg.origin msg.id with
      | some known =>
        rw [himp] at h
        cases h
        rfl
      | none =>
        rw [himp] at h
        exact enlist_receive h t
  · cases hb

/-- A response to a call is received without a fault, if it comes from an address of one of the
families. -/
theorem received_ok {c : AnsweredCall} (hbogon : msg.origin.isBogon ≠ none) :
    ∃ after, self.received type dht msg (some c) = .ok after := by
  obtain ⟨b, hb⟩ := Option.ne_none_iff_exists'.mp hbogon
  simp only [received, isBogon, hb, enlist]
  cases b with
  | true => exact ⟨_, rfl⟩
  | false =>
    simp only [bind, Except.bind, Bool.false_eq_true, ↓reduceIte]
    split_ifs
    · exact ⟨_, rfl⟩
    · exact ⟨_, rfl⟩
    · split <;> exact ⟨_, rfl⟩

/-! ## The DHTs of a node -/

namespace EachDHT

variable {Q : Network → DHT → Prop} {C : Crypto} {R : RandomOrder} {P : Printer} {target : Nat → Id}
  {f : Foreign}

theorem received (h : EachDHT Q self) (hQ : ∀ t d e, Q t d → Q t (DHT.step d e))
    (hdht : self.getDHT type = some dht) (hres : self.received type dht msg call = .ok after) :
    EachDHT Q after := by
  intro t d hd
  rw [received_receive hdht hres t] at hd
  exact h.setDHT (hQ type dht (.received self.now msg call) (h type dht hdht)) t d hd

theorem handleMessage (h : EachDHT Q self) (hQ : ∀ t d e, Q t d → Q t (DHT.step d e))
    (hres : self.handleMessage C R msg call = .ok after) : EachDHT Q after := by
  unfold Node.handleMessage at hres
  dsimp only at hres
  split at hres
  · next dht hdht =>
    unfold onMessage at hres
    split_ifs at hres
    · cases hres
      exact h
    · cases hres
      exact h
    · obtain ⟨mid, hmid, hres⟩ := bind_eq_ok_iff.mp hres
      have hshell := onRequest_sameShell hmid
      refine received (h.congr hshell.dht4 hshell.dht6) hQ ?_ hres
      rw [← hdht]
      cases Network.of msg.origin with
      | ipv4 => exact hshell.dht4
      | ipv6 => exact hshell.dht6
  · cases hres

theorem handleReply (h : EachDHT Q self) (hQ : ∀ t d e, Q t d → Q t (DHT.step d e))
    (hres : self.handleReply C R P target msg f = .ok after) : EachDHT Q after := by
  have hop (t : Network) (d : DHT) (now : UInt64) (op : TableOp) (hd : Q t d) :
      Q t (d.operate now op) :=
    hQ t d (.operate now op) hd
  unfold Node.handleReply at hres
  split at hres
  · next txid c hlookup =>
    split_ifs at hres
    · dsimp only at hres
      split_ifs at hres
      exact handleMessage (operate (h.withServer _) hop f.tables) hQ hres
    · have hsent : EachDHT Q (self.sendMismatch P msg (self.server.call c).remote) :=
        h.congr rfl rfl
      dsimp only at hres
      split_ifs at hres
      cases hres
      exact operate (hsent.withServer _) hop f.tables
    · dsimp only at hres
      split_ifs at hres
      cases hres
      exact operate (h.withServer _) hop f.tables
  · split_ifs at hres
    · cases hres
      exact h.congr rfl rfl
    · exact h.handleMessage hQ hres
    · cases hres
      exact h

/-- What the events of a DHT keep, an event of the node keeps for all its DHTs. -/
theorem step (h : EachDHT Q self) (hQ : ∀ t d e, Q t d → Q t (DHT.step d e)) (e : NetworkEvent) :
    EachDHT Q (self.step C R P target e) := by
  have hop (t : Network) (d : DHT) (now : UInt64) (op : TableOp) (hd : Q t d) :
      Q t (d.operate now op) :=
    hQ t d (.operate now op) hd
  cases e with
  | message msg f =>
    unfold Node.step
    dsimp only
    split_ifs
    · exact h
    · cases hres : self.handlePacket C R P target msg f with
      | error fault => exact h.withServer _
      | ok after =>
        unfold Node.handlePacket at hres
        split_ifs at hres
        · exact handleMessage h.checkTxid hQ hres
        · exact handleReply h.checkTxid hQ hres
  | sendCall remote fails f => exact operate (h.withServer _) hop f.tables
  | fire job f => exact operate (h.withServer _) hop f.tables
  | tables ops => exact h.operate hop ops
  | advance millis => exact h.withServer _

theorem run (h : EachDHT Q self) (hQ : ∀ t d e, Q t d → Q t (DHT.step d e))
    (events : List NetworkEvent) :
    EachDHT Q (self.run C R P target events) := by
  induction events using List.reverseRecOn with
  | nil => exact h
  | append_singleton events e ih =>
    rw [Node.run, List.foldl_append]
    exact step ih hQ e

end EachDHT

/-- In every run of a node, each of its DHTs went through a run from its start. -/
theorem run_dht (C : Crypto) (R : RandomOrder) (P : Printer) (target : Nat → Id) (node : Node)
    (addr4 addr6 : Option SocketAddress) (file : Network → Option (List StoredEntry))
    (events : List NetworkEvent) :
    ((node.start addr4 addr6 file).run C R P target events).EachDHT fun type dht =>
      ∃ addr history,
        dht = DHT.run ((DHT.create node.id addr).start node.now (file type)) history := by
  refine EachDHT.run (fun type dht hdht => ?_) (fun type dht e hrun => ?_) events
  · cases type
    all_goals
      obtain ⟨addr, -, rfl⟩ := Option.map_eq_some_iff.mp hdht
      exact ⟨addr, [], rfl⟩
  · obtain ⟨addr, history, rfl⟩ := hrun
    exact ⟨addr, history ++ [e], (DHT.run_concat _ history e).symm⟩

end Node

end Boson
