import Boson.Lib.Runs
import Boson.Message.Print
import Boson.Node.Answers
import Boson.RoutingTable.Admission

/-!
# Admission to the routing table (`RPCServer::handlePacket`, `DHT::received`)

A node on the network: messages arrive, calls are sent and time out, and the routing tables are
maintained, in any order. The code of the tasks runs in between: `Foreign` says what it does to the
calls and to the routing tables. A call is made for one node and keeps it, so that the ids of these
nodes are a function of the calls: `target c` is `RPCCall::getTargetId` of the call `c`. The results
hold for every such function.

* `table_admission`: an entry gets into a routing table only by a message that answers an
  outstanding call to the node with that id and address.
-/

namespace Boson

open FoldM

/-- What other code does to a routing table. A refresh of a bucket only sends calls. -/
inductive TableOp where
  | onSend (id : Id)
  | onTimeout (id : Id)
  | remove (id : Id)
  | maintenance (bootstrapIds : List Id)

namespace DHT

/-- `DHT::onTimeout`, when the node is reachable. -/
def onTimeout (self : DHT) (now : UInt64) (id : Id) : DHT :=
  if self.running then
    { self with
      routingTable := self.routingTable.onTimeout now id
      table_ok := RoutingTable.onTimeout_inv self.table_ok }
  else self

/-- `routingTable.maintenance()`. -/
def maintenance (self : DHT) (now : UInt64) (bootstrapIds : List Id) : DHT :=
  { self with
    routingTable := self.routingTable.maintenance now bootstrapIds
    table_ok := RoutingTable.maintenance_inv self.table_ok }

/-- An operation on the routing table. -/
def operate (self : DHT) (now : UInt64) : TableOp → DHT
  | .onSend id => self.onSend now id
  | .onTimeout id => self.onTimeout now id
  | .remove id => self.remove now id
  | .maintenance bootstrapIds => self.maintenance now bootstrapIds

/-- The DHT with an empty routing table. -/
def emptied (self : DHT) : DHT :=
  { self with
    routingTable := RoutingTable.init self.routingTable.localId
    table_ok := RoutingTable.init_inv self.routingTable.localId }

end DHT

/-- What the code of tasks and jobs does while the server is in a step: the calls that it sends, and
what it does to the routing tables. -/
structure Foreign where
  handler : Script := .done
  tables : List (Network × TableOp) := []

namespace Node

variable (C : Crypto) (R : RandomOrder) (P : Printer) (target : Nat → Id)

/-- Operations on the routing tables. -/
def operate (self : Node) (ops : List (Network × TableOp)) : Node :=
  ops.foldl
    (fun node op =>
      match node.getDHT op.1 with
      | some dht => node.setDHT (dht.operate node.now op.2) op.1
      | none => node)
    self

/-- What `DHT::received` reads of the call `c`, which `msg` answers. -/
def answered (self : Node) (msg : Message) (c : Nat) : AnsweredCall where
  matchesAddress := msg.origin = (self.server.call c).remote
  matchesId := msg.id = target c
  sentTime := UInt64.ofNat (self.server.call c).sentTime

/-- What the server of calls reads of a message. -/
def packetOf (msg : Message) : Packet := ⟨msg.getType, msg.txid, msg.origin⟩

/-- `SocketAddress::toString`. -/
def addressText (addr : SocketAddress) : Text := P.host addr ++ lit (":" ++ toString addr.port)

/-- What a node is told whose response comes from another address than the request was sent to. -/
def mismatchText (remote origin : SocketAddress) : Text :=
  lit "A request was sent to " ++ addressText P remote ++
    lit " and a response with matching transaction id was received from " ++ addressText P origin ++
    lit " . Multihomed nodes should ensure that sockets are properly bound and responses are " ++
    lit "sent with the correct source socket address. See BEPs 32 and 45."

/-- `sendMessage` of the error for it. -/
def sendMismatch (self : Node) (msg : Message) (remote : SocketAddress) : Node :=
  { self with
    sent := self.sent ++ [{
      remoteId := msg.id
      remote := remote
      message :=
        { id := self.id, txid := msg.txid, version := self.version,
          content :=
            .errorMessage msg.getMethod PROTOCOL_ERROR (mismatchText P remote msg.origin) } }] }

/-- The part of `RPCServer::handlePacket` for a response or an error: it is matched with a call. -/
def handleReply (self : Node) (msg : Message) (f : Foreign) : Except Fault Node :=
  match self.server.calls.lookup msg.txid with
  | some (_, c) =>
    if (self.server.call c).remote = msg.origin then
      let call := self.answered target msg c
      let server :=
        { self.server with calls := self.server.calls.deleteWhere fun r => r.1 = msg.txid }
      let result := server.responsed c (packetOf msg) (RPCServer.exec f.handler)
      if result.threw then .error (.exception "a handler of the call")
      else ({ self with server := result.state }.operate f.tables).handleMessage C R msg (some call)
    else
      let self := if msg.getType = .response && self.server.dht6 then
          self.sendMismatch P msg (self.server.call c).remote
        else self
      let result := self.server.stall c (RPCServer.exec f.handler)
      if result.threw then .error (.exception "a handler of the call")
      else .ok ({ self with server := result.state }.operate f.tables)
  | none =>
    if msg.getType = .response && self.server.now - self.server.startTime > 2 * 60 * 1000 then
      .ok (self.sendError msg PROTOCOL_ERROR
        ("Received a response message whose transaction ID did not match a pending request " ++
          "or transaction expired"))
    else if msg.getType = .err then self.handleMessage C R msg none
    else .ok self

/-- `RPCServer::handlePacket` after the message is parsed. -/
def handlePacket (self : Node) (msg : Message) (f : Foreign) : Except Fault Node :=
  if msg.getType = .request then self.dispatch C R msg
  else (self.checkTxid msg).handleReply C R P target msg f

/-- What happens to a node on the network. -/
inductive NetworkEvent where
  | message (msg : Message) (f : Foreign)
  | sendCall (remote : SocketAddress) (fails : Bool) (f : Foreign)
  /-- A job that checks the timeout of a call. -/
  | fire (job : Nat) (f : Foreign)
  | tables (ops : List (Network × TableOp))
  | advance (millis : Nat)

/-- A step of the server of calls, with what other code does meanwhile. -/
def onServer (self : Node) (e : RPCServer.Event) (ops : List (Network × TableOp)) : Node :=
  { self with server := self.server.step e }.operate ops

/-- One event. An exception ends the receive loop. -/
def step (self : Node) : NetworkEvent → Node
  | .message msg f =>
    if !self.server.rx then self
    else match self.handlePacket C R P target msg f with
      | .ok node => node
      | .error _ => { self with server := { self.server with rx := false } }
  | .sendCall remote fails f => self.onServer (.sendCall remote fails f.handler) f.tables
  | .fire job f => self.onServer (.fire job f.handler) f.tables
  | .tables ops => self.operate ops
  | .advance millis => self.onServer (.advance millis) []

/-- A sequence of events. -/
def run (self : Node) (events : List NetworkEvent) : Node := events.foldl (step C R P target) self

/-- A node whose routing tables are empty. -/
def emptied (self : Node) : Node :=
  { self with dht4 := self.dht4.map (·.emptied), dht6 := self.dht6.map (·.emptied) }

/-- The routing table of a family has an entry with this id and address. -/
def Contact (self : Node) (type : Network) (id : Id) (addr : SocketAddress) : Prop :=
  ∃ dht, self.getDHT type = some dht ∧
    ∃ entry ∈ dht.routingTable.allEntries, entry.nodeId = id ∧ entry.sockaddr = addr

/-- The event is a message from the node `id` at `addr`, no request, that is matched to an
outstanding call, and the call was made for that id and sent to that address. -/
def Matches (self : Node) (e : NetworkEvent) (id : Id) (addr : SocketAddress) : Prop :=
  ∃ msg f c, e = .message msg f ∧ self.server.rx = true ∧ msg.getType ≠ .request ∧
    msg.id = id ∧ msg.origin = addr ∧ self.server.calls.lookup msg.txid = some (msg.txid, c) ∧
    target c = id ∧ (self.server.call c).remote = addr

end Node

/-! ## What the operations keep -/

namespace DHT

variable {P : Id → SocketAddress → Prop} {self : DHT} {now : UInt64}

section
variable {Q : KBucket → Prop} {Fit : KBucketEntry → Prop}

theorem each_put (s : RoutingTable.Stable Q Fit) (h : self.routingTable.Each Q)
    {entry : KBucketEntry}
    (he : Fit entry) : (self.put now entry).routingTable.Each Q := by
  unfold put
  split
  · next table htable => exact s.putTable h he htable
  · exact h

theorem each_operate (s : RoutingTable.Stable Q Fit) (h : self.routingTable.Each Q) (op : TableOp) :
    (self.operate now op).routingTable.Each Q := by
  cases op with
  | onSend id =>
    unfold operate onSend
    split_ifs
    · exact h.modifyAt _ fun _ hb => s.onSend hb now id
    · exact h
  | onTimeout id =>
    unfold operate onTimeout
    split_ifs
    · exact h.modifyAt _ fun _ hb => s.onTimeout hb now id
    · exact h
  | remove id => exact s.remove h
  | maintenance bootstrapIds => exact s.maintenance h

end

theorem all_put (h : self.routingTable.All P) {entry : KBucketEntry}
    (hnew : entry.reachable = true → P entry.nodeId entry.sockaddr) :
    (self.put now entry).routingTable.All P :=
  each_put RoutingTable.all_stable h hnew

theorem all_operate (h : self.routingTable.All P) (op : TableOp) :
    (self.operate now op).routingTable.All P :=
  each_operate RoutingTable.all_stable h op

theorem all_onSend (h : self.routingTable.All P) (id : Id) :
    (self.onSend now id).routingTable.All P :=
  all_operate h (.onSend id)

theorem all_emptied (self : DHT) : self.emptied.routingTable.All P := by
  intro b hb
  rw [List.mem_singleton.mp hb]
  exact fun e he => by cases he

end DHT

namespace Node

/-- The DHTs of the node have a property. -/
def EachDHT (Q : Network → DHT → Prop) (self : Node) : Prop :=
  ∀ type dht, self.getDHT type = some dht → Q type dht

/-- All entries of the routing tables have a property. -/
def AllIn (P : Network → Id → SocketAddress → Prop) (self : Node) : Prop :=
  ∀ type dht, self.getDHT type = some dht → dht.routingTable.All (P type)

variable {P : Network → Id → SocketAddress → Prop} {self after : Node} {type : Network} {dht : DHT}
  {msg : Message}

namespace EachDHT

variable {Q : Network → DHT → Prop}

theorem congr (h : EachDHT Q self) (h4 : after.dht4 = self.dht4) (h6 : after.dht6 = self.dht6) :
    EachDHT Q after := by
  intro type dht hdht
  refine h type dht ?_
  rw [← hdht]
  cases type with
  | ipv4 => exact h4.symm
  | ipv6 => exact h6.symm

theorem withServer (h : EachDHT Q self) (server : RPCServer) :
    EachDHT Q { self with server := server } :=
  h.congr rfl rfl

theorem setDHT (h : EachDHT Q self) (hdht : Q type dht) : EachDHT Q (self.setDHT dht type) := by
  intro type' dht' hdht'
  cases type <;> cases type'
  · cases hdht'
    exact hdht
  · exact h .ipv6 dht' hdht'
  · exact h .ipv4 dht' hdht'
  · cases hdht'
    exact hdht

theorem operate (h : EachDHT Q self)
    (hQ : ∀ type dht now op, Q type dht → Q type (DHT.operate dht now op))
    (ops : List (Network × TableOp)) :
    EachDHT Q (self.operate ops) := by
  induction ops generalizing self with
  | nil => exact h
  | cons op ops ih =>
    refine ih ?_
    dsimp only
    split
    · next dht hdht => exact h.setDHT (hQ op.1 dht _ op.2 (h op.1 dht hdht))
    · exact h

theorem checkTxid (h : EachDHT Q self) : EachDHT Q (self.checkTxid msg) := by
  unfold Node.checkTxid
  split_ifs
  · exact h.congr rfl rfl
  · exact h

end EachDHT

namespace AllIn

theorem congr (h : AllIn P self) (h4 : after.dht4 = self.dht4) (h6 : after.dht6 = self.dht6) :
    AllIn P after :=
  EachDHT.congr h h4 h6

theorem withServer (h : AllIn P self) (server : RPCServer) :
    AllIn P { self with server := server } :=
  h.congr rfl rfl

theorem setDHT (h : AllIn P self) (hdht : dht.routingTable.All (P type)) :
    AllIn P (self.setDHT dht type) :=
  EachDHT.setDHT h hdht

theorem operate (h : AllIn P self) (ops : List (Network × TableOp)) : AllIn P (self.operate ops) :=
  EachDHT.operate h (fun _ _ _ op hall => DHT.all_operate hall op) ops

theorem emptied (self : Node) : AllIn P self.emptied := by
  intro type dht hdht
  cases type
  all_goals
    obtain ⟨dht, -, rfl⟩ := Option.map_eq_some_iff.mp hdht
    exact DHT.all_emptied dht

end AllIn

/-! ## Messages -/

theorem RepliesIff.sameShell {Q : Prop} {result : Except Fault Node}
    (h : RepliesIff Q msg self result)
    (hres : result = .ok after) : SameShell self after := by
  subst hres
  by_cases hQ : Q
  · obtain ⟨_, hok, hreplied⟩ := h.replies hQ
    cases hok
    exact hreplied.toSameShell
  · obtain ⟨_, herr⟩ := h.fails hQ
    cases herr

theorem onAnnouncePeer_sameShell {C : Crypto} {q : AnnouncePeerRequest}
    (h : self.onAnnouncePeer C msg q = .ok after) : SameShell self after := by
  cases hb : msg.origin.isBogon with
  | none =>
    simp only [onAnnouncePeer, isBogon, hb] at h
    cases h
  | some b =>
    cases b with
    | false => exact (onAnnouncePeer_spec q hb).sameShell h
    | true =>
      simp only [onAnnouncePeer, isBogon, hb] at h
      cases h
      exact ⟨rfl, rfl, rfl, rfl⟩

variable {C : Crypto} {R : RandomOrder}

theorem onRequest_sameShell (h : self.onRequest C R type msg = .ok after) :
    SameShell self after := by
  unfold onRequest at h
  split at h
  · exact onPing_spec.sameShell h
  · exact (onFindNode_spec _).sameShell h
  · exact (onFindValue_spec _ _).sameShell h
  · exact (onStoreValue_spec _).sameShell h
  · exact (onFindPeers_spec _).sameShell h
  · exact onAnnouncePeer_sameShell h
  · cases h
    exact ⟨rfl, rfl, rfl, rfl⟩

theorem isBogon_eq_ok {addr : SocketAddress} {b : Bool} : isBogon addr = .ok b ↔
    addr.isBogon = some b := by
  unfold isBogon
  split
  · next h => rw [h, Except.ok.injEq, Option.some.injEq]
  · next h => simp [h]

/-- The call that a message answers, if there is one, fits the sender. -/
def Fits (call : Option AnsweredCall) : Prop :=
  ∃ c, call = some c ∧ c.matchesAddress = true ∧ c.matchesId = true

namespace AllIn

theorem sendPing (h : AllIn P self) (hdht : dht.routingTable.All (P type)) {id : Id}
    {addr : SocketAddress} {dht' : DHT}
    (hres : self.sendPing type dht id addr = .ok (dht', after)) :
    AllIn P after ∧ dht'.routingTable.All (P type) := by
  unfold Node.sendPing at hres
  dsimp only at hres
  split_ifs at hres
  cases hres
  have hsend : (dht.onSend self.now id).routingTable.All (P type) := DHT.all_onSend hdht id
  exact ⟨(h.setDHT hsend).congr rfl rfl, hsend⟩

/-- An entry that answers no call is not reachable, so that it does not get into the table. -/
theorem enlist (h : AllIn P self) (hdht : dht.routingTable.All (P type))
    {call : Option AnsweredCall} {old : Option KBucketEntry}
    (hnew : call.isSome = true → P type msg.id msg.origin)
    (hres : self.enlist type dht msg call old = .ok after) : AllIn P after := by
  have hknown : (dht.setKnown msg.origin msg.id).routingTable.All (P type) := hdht
  have hidle (now : UInt64) (version : Int) :
      (KBucketEntry.new now msg.id msg.origin version).reachable = true →
        P type msg.id msg.origin := nofun
  unfold Node.enlist at hres
  dsimp only at hres
  split at hres
  · cases hres
    exact h.setDHT (DHT.all_put hknown fun _ => hnew rfl)
  · obtain ⟨⟨dht', mid⟩, hping, hres⟩ := bind_eq_ok_iff.mp hres
    obtain ⟨hmid, hdht'⟩ := h.sendPing hknown hping
    cases hres
    exact hmid.setDHT (DHT.all_put hdht' (hidle _ _))
  · cases hres
    exact h.setDHT (DHT.all_put hknown (hidle _ _))

theorem received (h : AllIn P self) (hdht : dht.routingTable.All (P type))
    {call : Option AnsweredCall}
    (hnew : Fits call → msg.origin.isBogon = some false → P type msg.id msg.origin)
    (hres : self.received type dht msg call = .ok after) : AllIn P after := by
  unfold Node.received at hres
  obtain ⟨bogon, horigin, hres⟩ := bind_eq_ok_iff.mp hres
  dsimp only at hres
  split_ifs at hres with hbogon hcall
  · cases hres
    exact h
  · cases hres
    exact h
  · cases hres
    exact h
  · split at hres
    · cases hres
      exact h.setDHT (RoutingTable.All.remove hdht)
    · refine h.enlist hdht (fun hsome => hnew ?_ ?_) hres
      · obtain ⟨c, rfl⟩ := Option.isSome_iff_exists.mp hsome
        exact ⟨c, rfl, by simpa using hcall⟩
      · rw [(Bool.not_eq_true bogon).mp hbogon] at horigin
        exact isBogon_eq_ok.mp horigin

theorem handleMessage (h : AllIn P self) {call : Option AnsweredCall}
    (hnew : Fits call → msg.origin.isBogon = some false →
      P (Network.of msg.origin) msg.id msg.origin)
    (hres : self.handleMessage C R msg call = .ok after) : AllIn P after := by
  unfold Node.handleMessage at hres
  dsimp only at hres
  split at hres
  · next dht hdht =>
    unfold onMessage at hres
    split_ifs at hres
    · cases hres
      exact h
    · cases hres
      exact h
    · obtain ⟨mid, hmid, hres⟩ := bind_eq_ok_iff.mp hres
      have hshell := onRequest_sameShell hmid
      exact (h.congr hshell.dht4 hshell.dht6).received (h _ dht hdht) hnew hres
  · cases hres

variable {T : Printer} {target : Nat → Id} {f : Foreign}

theorem handleReply (h : AllIn P self)
    (hnew : ∀ c, self.server.calls.lookup msg.txid = some (msg.txid, c) →
      (self.server.call c).remote = msg.origin → target c = msg.id →
        msg.origin.isBogon = some false → P (Network.of msg.origin) msg.id msg.origin)
    (hres : self.handleReply C R T target msg f = .ok after) : AllIn P after := by
  unfold Node.handleReply at hres
  split at hres
  · next txid c hlookup =>
    obtain rfl : txid = msg.txid := (Table.lookup_eq_some_iff.mp hlookup).2
    split_ifs at hres with hremote hmismatch
    · dsimp only at hres
      split_ifs at hres
      refine ((h.withServer _).operate f.tables).handleMessage ?_ hres
      rintro ⟨call, hcall, -, hid⟩ hunicast
      cases hcall
      exact hnew c hlookup hremote (of_decide_eq_true hid).symm hunicast
    · have hsent : AllIn P (self.sendMismatch T msg (self.server.call c).remote) := h.congr rfl rfl
      dsimp only at hres
      split_ifs at hres
      cases hres
      exact (hsent.withServer _).operate f.tables
    · dsimp only at hres
      split_ifs at hres
      cases hres
      exact (h.withServer _).operate f.tables
  · split_ifs at hres
    · cases hres
      exact h.congr rfl rfl
    · exact h.handleMessage (fun ⟨_, hcall, _⟩ => by cases hcall) hres
    · cases hres
      exact h

/-- One event: an entry that is new is matched, and its address is no bogon address. -/
theorem step (h : AllIn P self) {e : NetworkEvent}
    (hnew : ∀ id addr, Matches target self e id addr → addr.isBogon = some false →
      P (Network.of addr) id addr) :
    AllIn P (self.step C R T target e) := by
  cases e with
  | message msg f =>
    unfold Node.step
    dsimp only
    split_ifs with hrx
    · exact h
    · rw [Bool.not_eq_true, Bool.not_eq_false'] at hrx
      cases hres : self.handlePacket C R T target msg f with
      | error fault => exact h.withServer _
      | ok after =>
        unfold Node.handlePacket at hres
        split_ifs at hres with htype
        · exact AllIn.handleMessage (EachDHT.checkTxid h) (fun ⟨_, hcall, _⟩ => by cases hcall) hres
        · have hserver : (self.checkTxid msg).server = self.server := by
            unfold Node.checkTxid
            split_ifs <;> rfl
          refine AllIn.handleReply (EachDHT.checkTxid h)
            (fun c hlookup hremote hid hunicast => hnew _ _ ?_ hunicast) hres
          rw [hserver] at hlookup hremote
          exact ⟨msg, f, c, rfl, hrx, htype, rfl, rfl, hlookup, hid, hremote⟩
  | sendCall remote fails f => exact (h.withServer _).operate f.tables
  | fire job f => exact (h.withServer _).operate f.tables
  | tables ops => exact h.operate ops
  | advance millis => exact h.withServer _

end AllIn

theorem allIn_iff : AllIn P self ↔ ∀ type id addr, self.Contact type id addr → P type id addr := by
  simp only [AllIn, RoutingTable.all_iff, Contact]
  constructor
  · rintro h type id addr ⟨dht, hdht, entry, hentry, rfl, rfl⟩
    exact h type dht hdht entry hentry
  · intro h type dht hdht entry hentry
    exact h type _ _ ⟨dht, hdht, entry, hentry, rfl, rfl⟩

/-- In every run from empty routing tables, in any order of messages, calls, timeouts and
maintenance: a step adds an entry only if it is a message from that id and address that is matched
to an outstanding call to them, and every entry was added by such a step. -/
theorem table_admission (C : Crypto) (R : RandomOrder) (T : Printer)
    (target : Nat → Id) (node : Node) (events : List NetworkEvent) :
    Runs.Every
        (fun pre e => ∀ type id addr,
          ((node.emptied.run C R T target pre).step C R T target e).Contact type id addr →
            (node.emptied.run C R T target pre).Contact type id addr ∨
              Matches target (node.emptied.run C R T target pre) e id addr)
        events ∧
      ∀ type id addr, (node.emptied.run C R T target events).Contact type id addr →
        ∃ pre e post, events = pre ++ e :: post ∧
          Matches target (node.emptied.run C R T target pre) e id addr := by
  -- an entry after a step was there before, or the step may add it
  have hstep (pre : List NetworkEvent) (e : NetworkEvent) (type : Network) (id : Id)
      (addr : SocketAddress)
      (h : ((node.emptied.run C R T target pre).step C R T target e).Contact type id addr) :
      (node.emptied.run C R T target pre).Contact type id addr ∨
        Matches target (node.emptied.run C R T target pre) e id addr := by
    have hbefore :
        AllIn (fun type id addr => (node.emptied.run C R T target pre).Contact type id addr ∨
        Matches target (node.emptied.run C R T target pre) e id addr)
          (node.emptied.run C R T target pre) :=
      allIn_iff.mpr fun type id addr h => .inl h
    exact allIn_iff.mp (hbefore.step fun id addr h _ => .inr h) type id addr h
  refine ⟨fun pre e _ _ => hstep pre e, fun type id addr h => ?_⟩
  refine Runs.exists_step (fun hnil => ?_) (fun pre e hafter => hstep pre e type id addr ?_) h
  · exact allIn_iff.mp (AllIn.emptied (P := fun _ _ _ => False) node) type id addr hnil
  · rwa [Node.run, List.foldl_append] at hafter

end Node

end Boson
