import Boson.Node.Admission
import Boson.Node.Tokens
import Boson.RoutingTable.Persist

/-!
# Addresses in the routing table (`DHT::start`, `DHT::received`)

Two entries of one bucket have different addresses. For entries of different buckets it is
`knownNodes`, the map from addresses to ids, that tells when a known address comes with another id.
`load` fills the table and leaves the map empty.

* `DHT.InStep`: the entries of an address have one id, which is the one that the map has, if any.
* `DHT.Recognises`: the entries at the address of a sender are the sender's, or the map has them.
* `Node.run_oneEntryPerAddress`: no two entries have the same address, in a run from a start without
  a file, or from a file with different addresses if the node recognises the senders that it
  considers.
-/

namespace Boson

open FoldM

namespace DHT

/-- `DHT::DHT`. -/
def create (localId : Id) (addr : SocketAddress) : DHT where
  addr := addr
  running := false
  routingTable := RoutingTable.init localId
  table_ok := RoutingTable.init_inv localId

/-- `DHT::start`, with the content of the file of the routing table; `none` if there is no such file
or it is empty. The bootstrap nodes and the jobs that it sets up are not part of the model. -/
def start (self : DHT) (now : UInt64) (persistFile : Option (List StoredEntry)) : DHT :=
  if self.running then self
  else
    match h : self.routingTable.restore now persistFile with
    | some table =>
      { self with
        running := true
        routingTable := table
        table_ok := by
          obtain ⟨T, hT, hinv⟩ := RoutingTable.restore_inv self.table_ok now persistFile
          rw [h] at hT
          cases hT
          exact hinv }
    | none => { self with running := true }

/-- The routing table has an entry with this id and address. -/
def Has (self : DHT) (id : Id) (addr : SocketAddress) : Prop :=
  ∃ e ∈ self.routingTable.allEntries, e.nodeId = id ∧ e.sockaddr = addr

/-- The entries at the address of a node are its own, or known by the address. -/
def Recognises (self : DHT) (id : Id) (addr : SocketAddress) : Prop :=
  ∀ e ∈ self.routingTable.allEntries, e.sockaddr = addr →
    e.nodeId = id ∨ self.knownNodes.lookup addr = some (addr, e.nodeId)

/-- `DHT::received` gets as far as `knownNodes`: the message comes from another node, not from a
bogon address, and not from another address than that of the entry with its id. -/
structure Considers (d : DHT) (localId : Id) (msg : Message) : Prop where
  other : msg.id ≠ localId ∧ msg.origin ≠ d.addr
  unicast : msg.origin.isBogon = some false
  same : ∀ e ∈ d.routingTable.allEntries, e.nodeId = msg.id → e.sockaddr = msg.origin

/-- The entries of an address have one id, under which the address is known, if it is. It is if the
table was not loaded. -/
structure InStep (loaded : Prop) (d : DHT) : Prop where
  single : ∀ x ∈ d.routingTable.allEntries, ∀ y ∈ d.routingTable.allEntries,
    x.sockaddr = y.sockaddr → x.nodeId = y.nodeId
  known : ∀ x ∈ d.routingTable.allEntries, ∀ r, d.knownNodes.lookup x.sockaddr = some r →
    r.2 = x.nodeId
  found : ¬ loaded → ∀ x ∈ d.routingTable.allEntries, (d.knownNodes.lookup x.sockaddr).isSome = true

/-- A DHT that has no other entries and the same map. -/
structure Shrinks (d after : DHT) : Prop where
  all : after.routingTable.All d.Has
  known : after.knownNodes = d.knownNodes

variable {self after : DHT} {now : UInt64} {id : Id} {addr : SocketAddress} {loaded : Prop}

theorem all_has (self : DHT) : self.routingTable.All self.Has :=
  RoutingTable.all_iff.mpr fun e he => ⟨e, he, rfl, rfl⟩

theorem operate_shrinks (self : DHT) (now : UInt64) (op : TableOp) :
    self.Shrinks (self.operate now op) := by
  refine ⟨all_operate self.all_has op, ?_⟩
  cases op with
  | onSend id =>
    unfold operate onSend
    split_ifs <;> rfl
  | onTimeout id =>
    unfold operate onTimeout
    split_ifs <;> rfl
  | remove id => rfl
  | maintenance bootstrapIds => rfl

theorem InStep.shrinks (h : self.InStep loaded) (hs : self.Shrinks after) :
    after.InStep loaded where
  single x hx y hy hxy := by
    obtain ⟨x', hx', hxid, hxaddr⟩ := RoutingTable.all_iff.mp hs.all x hx
    obtain ⟨y', hy', hyid, hyaddr⟩ := RoutingTable.all_iff.mp hs.all y hy
    rw [← hxid, ← hyid]
    exact h.single x' hx' y' hy' (by rw [hxaddr, hyaddr, hxy])
  known x hx r hr := by
    obtain ⟨x', hx', hxid, hxaddr⟩ := RoutingTable.all_iff.mp hs.all x hx
    rw [hs.known, ← hxaddr] at hr
    rw [← hxid]
    exact h.known x' hx' r hr
  found hnew x hx := by
    obtain ⟨x', hx', -, hxaddr⟩ := RoutingTable.all_iff.mp hs.all x hx
    rw [hs.known, ← hxaddr]
    exact h.found hnew x' hx'

/-- Without a file, all senders are recognised. -/
theorem InStep.recognises (h : self.InStep loaded) (hnew : ¬ loaded) (id : Id)
    (addr : SocketAddress) :
    self.Recognises id addr := by
  rintro x hx rfl
  obtain ⟨⟨a, k⟩, hr⟩ := Option.isSome_iff_exists.mp (h.found hnew x hx)
  obtain rfl : a = x.sockaddr := Table.lookup_key hr
  obtain rfl : k = x.nodeId := h.known x hx _ hr
  exact .inr hr

theorem Recognises.shrinks (h : self.Recognises id addr) (hs : self.Shrinks after) :
    after.Recognises id addr := by
  intro x hx hxaddr
  obtain ⟨x', hx', hxid, hxaddr'⟩ := RoutingTable.all_iff.mp hs.all x hx
  rw [hs.known, ← hxid]
  exact h x' hx' (hxaddr'.trans hxaddr)

/-- The map gets a new id for an address: the entries that stay at the address have this id, and at
most one with it is new. -/
theorem InStep.setKnown (h : self.InStep loaded)
    (hall : after.routingTable.All fun i a => self.Has i a ∧ (a = addr → i = id) ∨
      i = id ∧ a = addr)
    (hknown : after.knownNodes = (self.setKnown addr id).knownNodes) : after.InStep loaded := by
  have hat (x : KBucketEntry) (hx : x ∈ after.routingTable.allEntries) (haddr : x.sockaddr = addr) :
      x.nodeId = id := by
    obtain ⟨-, hid⟩ | ⟨hid, -⟩ := RoutingTable.all_iff.mp hall x hx
    · exact hid haddr
    · exact hid
  have hold (x : KBucketEntry) (hx : x ∈ after.routingTable.allEntries)
      (haddr : x.sockaddr ≠ addr) :
      self.Has x.nodeId x.sockaddr := by
    obtain ⟨hhas, -⟩ | ⟨-, haddr'⟩ := RoutingTable.all_iff.mp hall x hx
    · exact hhas
    · exact absurd haddr' haddr
  refine ⟨fun x hx y hy hxy => ?_, fun x hx r hr => ?_, fun hnew x hx => ?_⟩
  · by_cases haddr : x.sockaddr = addr
    · rw [hat x hx haddr, hat y hy (hxy ▸ haddr)]
    · obtain ⟨x', hx', hxid, hxaddr⟩ := hold x hx haddr
      obtain ⟨y', hy', hyid, hyaddr⟩ := hold y hy (hxy ▸ haddr)
      rw [← hxid, ← hyid]
      exact h.single x' hx' y' hy' (by rw [hxaddr, hyaddr, hxy])
  · rw [hknown, DHT.lookup_setKnown] at hr
    split_ifs at hr with haddr
    · rw [← Option.some.inj hr, hat x hx haddr]
    · obtain ⟨x', hx', hxid, hxaddr⟩ := hold x hx haddr
      rw [← hxaddr] at hr
      rw [← hxid]
      exact h.known x' hx' r hr
  · rw [hknown, DHT.lookup_setKnown]
    split_ifs with haddr
    · rfl
    · obtain ⟨x', hx', -, hxaddr⟩ := hold x hx haddr
      rw [← hxaddr]
      exact h.found hnew x' hx'

theorem put_knownNodes (self : DHT) (now : UInt64) (entry : KBucketEntry) :
    (self.put now entry).knownNodes = self.knownNodes := by
  unfold put
  split <;> rfl

theorem onSend_knownNodes (self : DHT) (now : UInt64) (id : Id) :
    (self.onSend now id).knownNodes = self.knownNodes := by
  unfold onSend
  split_ifs <;> rfl

/-- The id under which the address is known, if it is another one. -/
theorem impostor_eq_some {known : Id} (h : self.impostor addr id = some known) :
    self.knownNodes.lookup addr = some (addr, known) := by
  unfold impostor at h
  split at h
  · next a k hlookup =>
    split_ifs at h
    cases h
    rw [hlookup, show a = addr from Table.lookup_key hlookup]
  · cases h

/-- No entry is known under the address by another id. -/
theorem impostor_eq_none (h : self.impostor addr id = none) {e : KBucketEntry}
    (he : e ∈ self.routingTable.allEntries)
    (hknown : self.knownNodes.lookup addr = some (addr, e.nodeId)) :
    e.nodeId = id := by
  by_contra hne
  have hentry := RoutingTable.getEntry_of_mem self.table_ok he
  simp [impostor, hknown, hne, hentry] at h

/-- An id that is not the one of its address is removed. -/
theorem InStep.remove (h : self.InStep loaded) {known : Id}
    (himp : self.impostor addr id = some known) :
    ((self.remove now known).setKnown addr id).InStep loaded := by
  refine h.setKnown ?_ rfl
  have hlookup := impostor_eq_some himp
  refine RoutingTable.all_iff.mpr fun x hx => .inl ?_
  have hhas : self.Has x.nodeId x.sockaddr :=
    RoutingTable.all_iff.mp (RoutingTable.All.remove self.all_has) x hx
  refine ⟨hhas, fun haddr => ?_⟩
  obtain ⟨x', hx', hxid, hxaddr⟩ := hhas
  have hgone : x.nodeId ≠ known :=
    RoutingTable.all_iff.mp (RoutingTable.remove_all self.table_ok) x hx
  have hid : known = x'.nodeId := h.known x' hx' _ (by rw [hxaddr, haddr]; exact hlookup)
  exact absurd (hid.trans hxid).symm hgone

end DHT

/-- No two entries have the same address. -/
def RoutingTable.OneEntryPerAddress (T : RoutingTable) : Prop :=
  T.allEntries.Pairwise fun x y => x.sockaddr ≠ y.sockaddr

/-- The entries at an address have one id, and an id has one entry. -/
theorem DHT.InStep.oneEntryPerAddress {loaded : Prop} {d : DHT} (h : d.InStep loaded) :
    d.routingTable.OneEntryPerAddress := by
  have hids : d.routingTable.allEntries.Pairwise fun x y => x.nodeId ≠ y.nodeId :=
    List.pairwise_map.mp d.table_ok.partition.nodup
  refine List.Pairwise.imp_of_mem (fun hx hy hne haddr => ?_) hids
  exact hne (h.single _ hx _ hy haddr)

namespace Node

/-- The part of `Node::start` that creates the DHTs of the configured addresses and starts them. -/
def start (self : Node) (addr4 addr6 : Option SocketAddress)
    (file : Network → Option (List StoredEntry)) :
    Node :=
  { self with
    dht4 := addr4.map fun addr => (DHT.create self.id addr).start self.now (file .ipv4)
    dht6 := addr6.map fun addr => (DHT.create self.id addr).start self.now (file .ipv6) }

/-- The routing tables have one entry per address. -/
def OneEntryPerAddress (self : Node) : Prop :=
  self.EachDHT fun _ dht => dht.routingTable.OneEntryPerAddress

/-- All DHTs are in step. -/
def InStep (loaded : Network → Prop) (self : Node) : Prop :=
  self.EachDHT fun type dht => dht.InStep (loaded type)

variable (C : Crypto) (R : RandomOrder) (target : Nat → Id) (loaded : Network → Prop)

/-- The node when its DHT gets the message, if it does: the answer to a call made to its sender,
after what other code does when the call ends, or an error that answers no call. -/
def hearsReply (self : Node) (msg : Message) (f : Foreign) : Option Node :=
  match self.server.calls.lookup msg.txid with
  | some (_, c) =>
    if (self.server.call c).remote = msg.origin ∧ target c = msg.id then
      let server :=
        { self.server with calls := self.server.calls.deleteWhere fun r => r.1 = msg.txid }
      let result := server.responsed c (packetOf msg) (RPCServer.exec f.handler)
      some ({ self with server := result.state }.operate f.tables)
    else none
  | none => if msg.getType = .err then some self else none

/-- The node when its DHT gets a message, if it does. -/
def hears (self : Node) (msg : Message) (f : Foreign) : Option Node :=
  if !self.server.rx then none
  else if msg.getType = .request then some (self.checkTxid msg)
  else (self.checkTxid msg).hearsReply target msg f

/-- The event is not a message that gets to `DHT::received` of a loaded DHT, from a sender that this
considers and does not recognise. It does not get there if the handler of the request throws. -/
def RecognisesSender (self : Node) (e : NetworkEvent) : Prop :=
  ∀ msg f, e = .message msg f → ∀ node, self.hears target msg f = some node →
    loaded (Network.of msg.origin) →
    ∀ dht, node.getDHT (Network.of msg.origin) = some dht → dht.Considers node.id msg →
      ∀ mid, node.onRequest C R (Network.of msg.origin) msg = .ok mid →
        dht.Recognises msg.id msg.origin

variable {C R target loaded} {self after : Node} {type : Network} {dht : DHT} {msg : Message}

/-! ## Messages -/

namespace InStep

theorem enlist (h : InStep loaded self) (hdht : dht.InStep (loaded type))
    (hat : ∀ x ∈ dht.routingTable.allEntries, x.sockaddr = msg.origin → x.nodeId = msg.id)
    {call : Option AnsweredCall} {old : Option KBucketEntry}
    (hres : self.enlist type dht msg call old = .ok after) : InStep loaded after := by
  -- the entries are old ones or the sender
  have hold : (dht.setKnown msg.origin msg.id).routingTable.All fun i a =>
      dht.Has i a ∧ (a = msg.origin → i = msg.id) ∨ i = msg.id ∧ a = msg.origin :=
    RoutingTable.all_iff.mpr fun x hx => .inl ⟨⟨x, hx, rfl, rfl⟩, hat x hx⟩
  have hsend (now : UInt64) :
      ((dht.setKnown msg.origin msg.id).onSend now msg.id).routingTable.All fun i a =>
      dht.Has i a ∧ (a = msg.origin → i = msg.id) ∨ i = msg.id ∧ a = msg.origin :=
    DHT.all_onSend hold msg.id
  unfold Node.enlist at hres
  dsimp only at hres
  split at hres
  · cases hres
    refine EachDHT.setDHT h (hdht.setKnown (DHT.all_put hold fun _ => .inr ⟨rfl, rfl⟩) ?_)
    exact DHT.put_knownNodes _ _ _
  · obtain ⟨⟨dht', mid⟩, hping, hres⟩ := bind_eq_ok_iff.mp hres
    unfold Node.sendPing at hping
    dsimp only at hping
    split_ifs at hping
    cases hping
    cases hres
    have hknown := DHT.onSend_knownNodes (dht.setKnown msg.origin msg.id) self.now msg.id
    refine EachDHT.setDHT
      (EachDHT.congr (EachDHT.setDHT h (hdht.setKnown (hsend self.now) hknown)) rfl rfl) ?_
    refine hdht.setKnown (DHT.all_put (hsend self.now) fun _ => .inr ⟨rfl, rfl⟩) ?_
    rw [DHT.put_knownNodes, hknown]
  · cases hres
    refine EachDHT.setDHT h (hdht.setKnown (DHT.all_put hold fun _ => .inr ⟨rfl, rfl⟩) ?_)
    exact DHT.put_knownNodes _ _ _

theorem received (h : InStep loaded self) (hdht : dht.InStep (loaded type))
    {call : Option AnsweredCall} (hrec : msg.origin.isBogon = some false →
      (∀ e ∈ dht.routingTable.allEntries, e.nodeId = msg.id → e.sockaddr = msg.origin) →
      (call = none ∨ Fits call) → loaded type → dht.Recognises msg.id msg.origin)
    (hres : self.received type dht msg call = .ok after) : InStep loaded after := by
  unfold Node.received at hres
  obtain ⟨bogon, hb, hres⟩ := bind_eq_ok_iff.mp hres
  dsimp only at hres
  split_ifs at hres with hbogon hcall hold
  · cases hres
    exact h
  · cases hres
    exact h
  · cases hres
    exact h
  · have hrec' : dht.Recognises msg.id msg.origin := by
      by_cases hloaded : loaded type
      · refine hrec ?_ (fun e he hid => ?_) ?_ hloaded
        · unfold Node.isBogon at hb
          split at hb
          · next b hbog =>
            cases hb
            rw [hbog, Bool.eq_false_iff.mpr hbogon]
          · cases hb
        · rw [← hid, RoutingTable.getEntry_of_mem dht.table_ok he] at hold
          simpa using hold
        · cases call with
          | none => exact .inl rfl
          | some c => exact .inr ⟨c, rfl, by simpa using hcall⟩
      · exact hdht.recognises hloaded _ _
    split at hres
    · next known himp =>
      cases hres
      exact EachDHT.setDHT h (hdht.remove himp)
    · next himp =>
      refine h.enlist hdht (fun x hx haddr => ?_) hres
      obtain hid | hknown := hrec' x hx haddr
      · exact hid
      · exact DHT.impostor_eq_none himp hx hknown

theorem handleMessage (h : InStep loaded self) {call : Option AnsweredCall}
    (hrec : (call = none ∨ Fits call) → loaded (Network.of msg.origin) →
      ∀ dht, self.getDHT (Network.of msg.origin) = some dht → dht.Considers self.id msg →
        ∀ mid, self.onRequest C R (Network.of msg.origin) msg = .ok mid →
          dht.Recognises msg.id msg.origin)
    (hres : self.handleMessage C R msg call = .ok after) : InStep loaded after := by
  unfold Node.handleMessage at hres
  dsimp only at hres
  split at hres
  · next dht hdht =>
    unfold onMessage at hres
    split_ifs at hres with hstopped hown
    · cases hres
      exact h
    · cases hres
      exact h
    · obtain ⟨mid, hmid, hres⟩ := bind_eq_ok_iff.mp hres
      have hshell := onRequest_sameShell hmid
      have hother : msg.id ≠ self.id ∧ msg.origin ≠ dht.addr := by simpa using hown
      exact received (EachDHT.congr h hshell.dht4 hshell.dht6) (h _ dht hdht)
        (fun hbogon hsame hcall hloaded => hrec hcall hloaded dht hdht ⟨hother, hbogon, hsame⟩
          mid hmid) hres
  · cases hres

theorem operate (h : InStep loaded self) (ops : List (Network × TableOp)) :
    InStep loaded (self.operate ops) :=
  EachDHT.operate h (fun _ dht now op hdht => hdht.shrinks (dht.operate_shrinks now op)) ops

variable {P : Printer} {f : Foreign}

theorem handleReply (h : InStep loaded self)
    (hrec : ∀ node, self.hearsReply target msg f = some node → loaded (Network.of msg.origin) →
      ∀ dht, node.getDHT (Network.of msg.origin) = some dht → dht.Considers node.id msg →
        ∀ mid, node.onRequest C R (Network.of msg.origin) msg = .ok mid →
          dht.Recognises msg.id msg.origin)
    (hres : self.handleReply C R P target msg f = .ok after) : InStep loaded after := by
  unfold Node.handleReply at hres
  unfold hearsReply at hrec
  split at hres
  · next txid c hlookup =>
    rw [hlookup] at hrec
    split_ifs at hres with hremote hmismatch
    · dsimp only at hres
      split_ifs at hres
      refine handleMessage (operate (EachDHT.withServer h _) f.tables) (fun hfits => ?_) hres
      obtain hnone | ⟨call, hcall, -, hid⟩ := hfits
      · cases hnone
      · cases hcall
        exact hrec _ (if_pos ⟨hremote, (of_decide_eq_true hid).symm⟩)
    · have hsent : InStep loaded (self.sendMismatch P msg (self.server.call c).remote) :=
        EachDHT.congr h rfl rfl
      dsimp only at hres
      split_ifs at hres
      cases hres
      exact operate (EachDHT.withServer hsent _) f.tables
    · dsimp only at hres
      split_ifs at hres
      cases hres
      exact operate (EachDHT.withServer h _) f.tables
  · next hlookup =>
    rw [hlookup] at hrec
    split_ifs at hres with hlate herr
    · cases hres
      exact EachDHT.congr h rfl rfl
    · exact h.handleMessage (fun _ => hrec self (if_pos herr)) hres
    · cases hres
      exact h

/-- One event keeps the DHTs in step, unless it is a message from a sender that is not
recognised. -/
theorem step (h : InStep loaded self) {e : NetworkEvent}
    (hrec : self.RecognisesSender C R target loaded e) :
    InStep loaded (self.step C R P target e) := by
  cases e with
  | message msg f =>
    unfold Node.step
    dsimp only
    split_ifs with hrx
    · exact h
    · rw [Bool.not_eq_true, Bool.not_eq_false'] at hrx
      cases hres : self.handlePacket C R P target msg f with
      | error fault => exact EachDHT.withServer h _
      | ok after =>
        unfold Node.handlePacket at hres
        have hrec := hrec msg f rfl
        rw [hears, if_neg (by simp [hrx])] at hrec
        split_ifs at hres with htype
        · rw [if_pos htype] at hrec
          exact handleMessage (EachDHT.checkTxid h) (fun _ => hrec _ rfl) hres
        · rw [if_neg htype] at hrec
          exact handleReply (EachDHT.checkTxid h) hrec hres
  | sendCall remote fails f => exact operate (EachDHT.withServer h _) f.tables
  | fire job f => exact operate (EachDHT.withServer h _) f.tables
  | tables ops => exact h.operate ops
  | advance millis => exact EachDHT.withServer h _

theorem run (h : InStep loaded self) {events : List NetworkEvent}
    (hrec : Runs.Every (fun pre e => (self.run C R P target pre).RecognisesSender C R target
      loaded e) events) :
    InStep loaded (self.run C R P target events) := by
  refine hrec.inv (I := fun pre => InStep loaded (self.run C R P target pre))
    h fun pre e hpre he => ?_
  rw [Node.run, List.foldl_append]
  exact step hpre he

end InStep

/-! ## The start -/

end Node

/-- The entries of a file have different addresses. -/
def DistinctAddresses (nodes : List StoredEntry) : Prop :=
  nodes.Pairwise fun x y => x.addr ≠ y.addr ∨ x.port ≠ y.port

theorem SocketAddress.ofBlob?_eq_some {ip : List UInt8} {port : UInt16} {a : SocketAddress}
    (h : ofBlob? ip port = some a) : a.inaddr = ip ∧ a.port = port := by
  unfold ofBlob? at h
  split at h
  · next ip4 hip4 =>
    cases h
    exact ⟨Bytes.data_of_ofList? hip4, rfl⟩
  · obtain ⟨ip6, hip6, rfl⟩ := Option.map_eq_some_iff.mp h
    exact ⟨Bytes.data_of_ofList? hip6, rfl⟩

namespace DHT

theorem start_routingTable (self : DHT) (now : UInt64) (file : Option (List StoredEntry))
    (h : self.running = false) :
    self.routingTable.restore now file = some (self.start now file).routingTable := by
  obtain ⟨T, hT, -⟩ := RoutingTable.restore_inv self.table_ok now file
  unfold start
  rw [if_neg (by simp [h])]
  split
  · next table htable => exact htable
  · next hnone =>
    rw [hT] at hnone
    cases hnone

/-- A start changes nothing else. -/
theorem start_shell (self : DHT) (now : UInt64) (file : Option (List StoredEntry)) :
    (self.start now file).running = true ∧ (self.start now file).addr = self.addr ∧
      (self.start now file).knownNodes = self.knownNodes := by
  unfold start
  split_ifs with hrunning
  · exact ⟨hrunning, rfl, rfl⟩
  · split <;> exact ⟨rfl, rfl, rfl⟩

/-- The entries after a start are those of the file. -/
theorem start_all (localId : Id) (addr : SocketAddress) (now : UInt64)
    (file : Option (List StoredEntry)) :
    ((create localId addr).start now file).routingTable.All fun i a =>
      ∃ nodes, file = some nodes ∧
        ∃ node ∈ nodes, node.id = i ∧ node.addr = a.inaddr ∧ node.port = a.port := by
  have hrestore : (RoutingTable.init localId).restore now file =
      some ((create localId addr).start now file).routingTable :=
    start_routingTable (create localId addr) now file rfl
  have hinit {P : Id → SocketAddress → Prop} : (RoutingTable.init localId).All P := by
    intro b hb
    rw [List.mem_singleton.mp hb]
    exact fun x hx => by cases hx
  cases file with
  | none =>
    rw [← Option.some.inj hrestore]
    exact hinit
  | some nodes =>
    refine RoutingTable.all_stable.load hinit (fun y hy _ => ⟨nodes, rfl, ?_⟩) hrestore
    obtain ⟨node, hnode, hjson⟩ := List.mem_map.mp hy
    obtain ⟨a, ha, rfl⟩ := Option.map_eq_some_iff.mp hjson
    obtain ⟨hip, hport⟩ := SocketAddress.ofBlob?_eq_some ha
    exact ⟨node, hnode, rfl, hip.symm, hport.symm⟩

/-- A file with different addresses leaves the DHT in step. -/
theorem start_inStep (localId : Id) (addr : SocketAddress) (now : UInt64)
    {file : Option (List StoredEntry)}
    (hfile : ∀ nodes, file = some nodes → DistinctAddresses nodes) :
    ((create localId addr).start now file).InStep (file.isSome = true) := by
  have hall := RoutingTable.all_iff.mp (start_all localId addr now file)
  refine ⟨fun x hx y hy hxy => ?_, fun x hx r hr => ?_, fun hnew x hx => ?_⟩
  · obtain ⟨nodes, rfl, n, hn, hxid, hxip, hxport⟩ := hall x hx
    obtain ⟨_, hnodes, n', hn', hyid, hyip, hyport⟩ := hall y hy
    cases hnodes
    have hdistinct : (nodes.map fun n => (n.addr, n.port)).Nodup := by
      rw [List.Nodup, List.pairwise_map]
      exact (hfile nodes rfl).imp fun {a b} hne heq => by simp_all
    have hsame : n = n' := List.inj_on_of_nodup_map hdistinct hn hn' (by
      rw [hxip, hxport, hyip, hyport, hxy])
    rw [← hxid, ← hyid, hsame]
  · rw [(start_shell (create localId addr) now file).2.2] at hr
    cases hr
  · obtain ⟨nodes, rfl, -⟩ := hall x hx
    exact absurd rfl hnew

end DHT

namespace Node

/-- A node after its start with files that have different addresses: in every run, as long as no DHT
with a loaded table receives a message of a sender that it does not recognise, no two entries of a
table have the same address. -/
theorem run_oneEntryPerAddress (C : Crypto) (R : RandomOrder) (P : Printer)
    (target : Nat → Id) (node : Node) (addr4 addr6 : Option SocketAddress)
    (file : Network → Option (List StoredEntry))
    (hfile : ∀ type nodes, file type = some nodes → DistinctAddresses nodes)
    (events : List NetworkEvent) (hrec : Runs.Every
      (fun pre e => ((node.start addr4 addr6 file).run C R P target pre).RecognisesSender C R target
        (fun type => (file type).isSome = true) e) events) :
    ((node.start addr4 addr6 file).run C R P target events).OneEntryPerAddress := by
  have hstart : InStep (fun type => (file type).isSome = true) (node.start addr4 addr6 file) := by
    intro type dht hdht
    cases type
    all_goals
      obtain ⟨addr, -, rfl⟩ := Option.map_eq_some_iff.mp hdht
      exact DHT.start_inStep node.id addr node.now (hfile _)
  exact fun type dht hdht => (hstart.run hrec type dht hdht).oneEntryPerAddress

/-- A node before its start. -/
def stoppedNode : Node := { inetNode with id := Id.MAX_ID }

/-- Its address. -/
def stoppedAddr : SocketAddress := .inet ⟨[198, 51, 100, 1], by simp⟩ 39001

/-- A printer of nothing. -/
def blankPrinter : Printer := ⟨fun _ => [], fun _ => []⟩

/-- A ping from the node of the one saved entry. -/
def savedPing : Message :=
  { id := (RoutingTable.reachableEntry 0 1).nodeId,
    origin := (RoutingTable.reachableEntry 0 1).sockaddr, txid := 1, content := .pingRequest }

/-- The node hears its ping and recognises it. -/
theorem savedPing_oneEntryPerAddress :
    ((stoppedNode.start (some stoppedAddr) none fun _ =>
        some [(RoutingTable.reachableEntry 0 1).toJson]).hears (fun _ => Id.zero) savedPing
          {}).isSome = true ∧
      ((stoppedNode.start (some stoppedAddr) none fun _ =>
        some [(RoutingTable.reachableEntry 0 1).toJson]).run
        targetCrypto storedOrder blankPrinter (fun _ => Id.zero)
          [.message savedPing {}]).OneEntryPerAddress := by
  refine ⟨rfl, ?_⟩
  refine run_oneEntryPerAddress targetCrypto storedOrder blankPrinter _ stoppedNode
    (some stoppedAddr) none _
    ?_ _ ?_
  · rintro type nodes ⟨⟩
    exact List.pairwise_singleton _ _
  · rw [Runs.every_singleton]
    rintro msg f ⟨⟩ node ⟨⟩ - dht ⟨⟩ - mid - x hx -
    obtain ⟨nodes, hnodes, node, hnode, hid, -⟩ :=
      RoutingTable.all_iff.mp (DHT.start_all _ _ _ _) x hx
    cases hnodes
    rw [← hid, List.mem_singleton.mp hnode]
    exact .inl rfl

/-! ## A new id at a loaded address -/

/-- Eight entries of the low half and one of the high half. -/
def savedEntries : List KBucketEntry :=
  ([1, 2, 3, 4, 5, 6, 7, 8] : List UInt8).map (RoutingTable.reachableEntry 0) ++
    [RoutingTable.reachableEntry 0x80 1]

/-- An answer from the address of the first entry, under an id of the high half. -/
def changedIdReply : Message :=
  { id := Id.ofFn fun i => if i = 0 then 0xc0 else 0,
    origin := (RoutingTable.reachableEntry 0 1).sockaddr, txid := 1, content := .pingResponse }

/-- The entry that is made for it. -/
def changedIdEntry : KBucketEntry :=
  { nodeId := changedIdReply.id, sockaddr := changedIdReply.origin, reachable := true }

/-- The node, after it sent a call to that address. -/
def callingNode (dht : DHT) : Node :=
  { stoppedNode with
    dht4 := some dht
    server := stoppedNode.server.step (.sendCall changedIdReply.origin false .done) }

/-- An answer to a call, from a node that is new and at no known address: it is put into the
table. -/
theorem received_answer {self : Node} {type : Network} {dht : DHT} {msg : Message}
    {call : AnsweredCall} (hbogon : msg.origin.isBogon = some false)
    (haddr : call.matchesAddress = true) (hid : call.matchesId = true)
    (hnone : dht.routingTable.getEntry msg.id = none)
    (himp : dht.impostor msg.origin msg.id = none) :
    self.received type dht msg (some call) =
      .ok (self.setDHT ((dht.setKnown msg.origin msg.id).put self.now
        (((KBucketEntry.new self.now msg.id msg.origin msg.version.toInt).signalResponse
          self.now).mergeRequestTime call.sentTime)) type) := by
  simp only [received, isBogon, hbogon, bind, Except.bind, Bool.false_eq_true, ↓reduceIte,
    Option.any_some, haddr, hid, Bool.not_true, Bool.or_false, hnone, Option.any_none, himp, enlist]
  rfl

/-- The answer, when the address is not known. -/
theorem step_changedIdReply {dht : DHT} (hrunning : dht.running = true)
    (haddr : dht.addr = stoppedAddr) (hknown : dht.knownNodes = Table.empty)
    (hnone : dht.routingTable.getEntry changedIdReply.id = none) :
    ((callingNode dht).step targetCrypto storedOrder blankPrinter (fun _ => changedIdReply.id)
        (.message changedIdReply {})).getDHT .ipv4 =
      some ((dht.setKnown changedIdReply.origin changedIdReply.id).put 0 changedIdEntry) := by
  have himp : dht.impostor changedIdReply.origin changedIdReply.id = none := by
    simp [DHT.impostor, hknown]
  have hother :
      ¬ (changedIdReply.id = (callingNode dht).id || changedIdReply.origin = dht.addr) = true := by
    rw [haddr]
    exact (by decide : ¬ (changedIdReply.id = stoppedNode.id ||
      changedIdReply.origin = stoppedAddr) = true)
  -- the packet is matched with the call, and then a response has no handler
  obtain ⟨server, hnow, hpacket⟩ : ∃ server : RPCServer, server.now = 0 ∧
      (callingNode dht).handlePacket targetCrypto storedOrder blankPrinter (fun _ =>
        changedIdReply.id)
          changedIdReply {} =
        onMessage targetCrypto storedOrder { callingNode dht with server := server } .ipv4 dht
          changedIdReply
          (some ((callingNode dht).answered (fun _ => changedIdReply.id) changedIdReply 0)) :=
    ⟨_, rfl, rfl⟩
  have hmessage :
      onMessage targetCrypto storedOrder { callingNode dht with server := server } .ipv4 dht
      changedIdReply
        (some ((callingNode dht).answered (fun _ => changedIdReply.id) changedIdReply 0)) =
      { callingNode dht with server := server }.received .ipv4 dht changedIdReply
        (some ((callingNode dht).answered (fun _ => changedIdReply.id) changedIdReply 0)) := by
    simp only [onMessage, hrunning, Bool.not_true, Bool.false_eq_true, ↓reduceIte]
    rw [if_neg hother]
    rfl
  rw [hmessage, received_answer (by decide) rfl rfl hnone himp] at hpacket
  unfold step
  simp only [hpacket]
  rw [show Node.now { callingNode dht with server := server } = 0 by rw [Node.now, hnow]; rfl]
  rfl

end Node

theorem DHT.put_routingTable (self : DHT) (now : UInt64) (entry : KBucketEntry) :
    self.routingTable.put now entry = some (self.put now entry).routingTable := by
  obtain ⟨T, hT, -⟩ := RoutingTable.put_inv now entry self.table_ok
  unfold DHT.put
  split
  · next table htable => exact htable
  · next hnone =>
    rw [hT] at hnone
    cases hnone

namespace Node

/-- The table of the saved entries, and an empty map: the new id gets in beside the entry with its
address. -/
theorem step_changedIdReply_shares {dht : DHT} (hrunning : dht.running = true)
    (haddr : dht.addr = stoppedAddr) (hknown : dht.knownNodes = Table.empty)
    (hscan : RoutingTable.scanAll 0 (RoutingTable.init Id.MAX_ID) savedEntries =
      some dht.routingTable) :
    ¬ ((callingNode dht).step targetCrypto storedOrder blankPrinter (fun _ => changedIdReply.id)
      (.message changedIdReply {})).OneEntryPerAddress := by
  have hnew : (RoutingTable.scanAll 0 (RoutingTable.init Id.MAX_ID) savedEntries).all
      (fun T => T.allEntries.all fun x => x.nodeId != changedIdReply.id) = true := by decide +kernel
  rw [hscan, Option.all_some, List.all_eq_true] at hnew
  have hnone : dht.routingTable.getEntry changedIdReply.id = none :=
    RoutingTable.getEntry_eq_none dht.table_ok fun x hx => by simpa using hnew x hx
  have hput : dht.routingTable.put 0 changedIdEntry =
      some ((dht.setKnown changedIdReply.origin changedIdReply.id).put 0
        changedIdEntry).routingTable :=
    DHT.put_routingTable (dht.setKnown changedIdReply.origin changedIdReply.id) 0 changedIdEntry
  have hshared :
      (RoutingTable.scanAll 0 (RoutingTable.init Id.MAX_ID) (savedEntries ++ [changedIdEntry])).all
      (fun T => decide (T.allEntries.Pairwise fun x y => x.sockaddr ≠ y.sockaddr)) = false := by
    decide +kernel
  have hall : RoutingTable.scanAll 0 (RoutingTable.init Id.MAX_ID)
      (savedEntries ++ [changedIdEntry]) =
      some ((dht.setKnown changedIdReply.origin changedIdReply.id).put 0
        changedIdEntry).routingTable := by
    rw [← hput, dht.table_ok.put_eq_scan, RoutingTable.scanAll, List.foldlM_append]
    rw [RoutingTable.scanAll] at hscan
    rw [hscan]
    simp
  rw [hall, Option.all_some, decide_eq_false_iff_not] at hshared
  exact fun hone => hshared (hone .ipv4 _ (step_changedIdReply hrunning haddr hknown hnone))

/-- The table is saved and loaded again, and a node answers under a new id from the address of one
of its entries: `knownNodes` is empty, and the new id belongs into another bucket. -/
theorem changedId_shares_address :
    ∃ T, (RoutingTable.init Id.MAX_ID).run (savedEntries.map (.put 0)) = some T ∧
      T.OneEntryPerAddress ∧
      ¬ ((stoppedNode.start (some stoppedAddr) none fun _ => T.save).run targetCrypto
        storedOrder blankPrinter (fun _ => changedIdReply.id)
        [.sendCall changedIdReply.origin false {},
          .message changedIdReply {}]).OneEntryPerAddress := by
  have hinit := RoutingTable.init_inv Id.MAX_ID
  obtain ⟨T, hrun, -⟩ := RoutingTable.run_inv hinit (savedEntries.map (.put 0))
  have hscan := hrun
  rw [hinit.run_puts] at hscan
  have hsaved : (RoutingTable.scanAll 0 (RoutingTable.init Id.MAX_ID) savedEntries).map
      (·.allEntries) =
      some savedEntries := by decide +kernel
  rw [hscan, Option.map_some, Option.some.injEq] at hsaved
  -- the file restores the table
  have hrestore := DHT.start_routingTable (DHT.create Id.MAX_ID stoppedAddr) 0 T.save rfl
  have hnodes : (savedEntries.map fun e => KBucketEntry.fromJson e.toJson) =
      savedEntries.map some := by
    decide +kernel
  rw [RoutingTable.restore_save, hsaved, hnodes] at hrestore
  obtain ⟨hrunning, haddr, hknown⟩ := DHT.start_shell (DHT.create Id.MAX_ID stoppedAddr) 0 T.save
  refine ⟨T, hrun, ?_, ?_⟩
  · rw [RoutingTable.OneEntryPerAddress, hsaved]
    decide +kernel
  · exact step_changedIdReply_shares hrunning haddr hknown
      ((hinit.load_entries 0 savedEntries).symm.trans hrestore)

end Node

end Boson
