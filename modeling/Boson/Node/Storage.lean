import Boson.Node.FindPeer
import Boson.Node.Requests

/-!
# What reaches the storage (`src/core/node.cc`, `src/core/dht.cc`)

Rows are written on behalf of the user of a node, by requests of other nodes, and when a lookup of
`findValue` or `findPeer` ends. `InUse` is a node with the operations that are going on; its events
are all that happens to the storage, from these three sides and from the node's own maintenance.

`serve` is the part of the dispatch of a request that may write: what follows it, `DHT::received`,
only deals with the routing table (`dispatch_storage`).
-/

namespace Boson

/-- `LookupOption`. -/
inductive LookupOption where
  /-- Reserved. -/
  | «local»
  | arbitrary
  | optimistic
  | conservative
  deriving DecidableEq

/-- A value that was made from data. The constructors take no empty data; only the default
constructor makes a value without any. -/
abbrev Value.Filled := { v : Value // v.data ≠ [] }

/-- What both constructors make of the URL of a peer. -/
def PeerInfo.Normal (C : Crypto) (self : PeerInfo) : Prop :=
  ∀ url, self.alternativeURL = some url → ∃ text, url = C.utf8NFC text

theorem PeerInfo.Made.normal {C : Crypto}
    {peerId privateKey nodeId origin alternativeURL signature : List UInt8} {port : UInt16}
    {p : PeerInfo}
    (h : Made C peerId privateKey nodeId origin port alternativeURL signature p) : p.Normal C := by
  intro url hurl
  rw [h.alternativeURL] at hurl
  split_ifs at hurl
  exact ⟨alternativeURL, (Option.some.inj hurl).symm⟩

/-- The peers of a message come from their constructor. -/
def Content.Normal (C : Crypto) (self : Content) : Prop :=
  ∀ l peers, self = .findPeerResponse l peers → ∀ p ∈ peers, p.Normal C

/-! ## Operations of the storage -/

namespace Storage

variable {self : Storage} {C : Crypto} {now : Nat}

theorem filled_of_getValue {self : Storage} {id : Id} {v : Value}
    (h : self.values.getValue now id = .ok (some v)) : v.data ≠ [] := by
  unfold ValueTable.getValue at h
  split at h
  · next row _ =>
    cases hv : row.toValue with
    | error e =>
      rw [hv] at h
      cases h
    | ok w =>
      rw [hv] at h
      cases h
      exact Value.data_ne_nil_of_eq_ok hv
  · cases h

/-- `getValue`, which does not throw here. -/
def getValue (self : Storage) (now : Nat) (id : Id) : Option Value.Filled :=
  match h : self.values.getValue now id with
  | .ok (some v) => some ⟨v, filled_of_getValue h⟩
  | _ => none

/-- An operation on the values leaves rows that can be read. -/
theorem values_ok_step (self : Storage) (now : Nat) {op : ValueTable.Op}
    (hop : ∀ v seq p u, op = .putValue v seq p u → v.data ≠ []) :
    ∀ row ∈ (self.values.step C now op).rows, ∃ v, row.toValue = .ok v := by
  intro row hrow
  cases op with
  | putValue v seq p u =>
    obtain ⟨e, -, hput⟩ | ⟨old, an, -, hput⟩ :=
      ValueTable.putValue_cases C self.values now v seq p u
    · rw [ValueTable.step, hput] at hrow
      exact self.values_ok row hrow
    · rw [ValueTable.step, hput] at hrow
      have hread := ValueTable.toValue_ofValue (C := C) (hop v seq p u rfl) p now an
      obtain hold | rfl | ⟨row₀, -, rfl⟩ := Table.mem_upsert hrow
      · exact self.values_ok row hold
      · exact ⟨v, hread⟩
      · exact ⟨v, hread⟩
  | removeValue id => exact self.values_ok row (List.mem_of_mem_filter hrow)
  | updateValueLastAnnounce id =>
    obtain ⟨old, hold, rfl⟩ := List.mem_map.mp hrow
    obtain ⟨v, hv⟩ := self.values_ok old hold
    refine ⟨v, ?_⟩
    split_ifs
    · exact hv
    · exact hv
  | expire => exact self.values_ok row (List.mem_of_mem_filter hrow)

/-- An operation on the values. -/
def stepValues (self : Storage) (C : Crypto) (now : Nat) (op : ValueTable.Op)
    (hop : ∀ v seq p u, op = .putValue v seq p u → v.data ≠ []) : Storage :=
  { self with values := self.values.step C now op, values_ok := self.values_ok_step now hop }

/-- `putValue` of a value that has data. -/
def put (self : Storage) (C : Crypto) (now : Nat) (value : Value.Filled) (expectedSeq : Int32)
    (persistent updateLastAnnounce : Bool) : Storage :=
  self.stepValues C now (.putValue value.1 expectedSeq persistent updateLastAnnounce)
    fun _ _ _ _ h => by
    cases h
    exact value.2

theorem peers_ok_step (self : Storage) (now : Nat) (op : PeerTable.Op) :
    ∀ row ∈ (self.peers.step now op).rows, row.Readable := by
  intro row hrow
  obtain ⟨old, hold, rfl | rfl⟩ | ⟨peer, -, p, an, rfl⟩ := PeerTable.mem_step hrow
  · exact self.peers_ok _ hold
  · exact self.peers_ok old hold
  · exact PeerRow.readable_ofPeer peer p now an

/-- An operation on the peers. -/
def stepPeers (self : Storage) (now : Nat) (op : PeerTable.Op) : Storage :=
  { self with peers := self.peers.step now op, peers_ok := self.peers_ok_step now op }

end Storage

/-! ## Finding values -/

/-- The state of one `Node::findValue`: `valuePtr` and `completion`. -/
structure FindValue where
  numDHTs : Nat
  option : LookupOption
  value : Option Value.Filled
  completion : Nat := 0

namespace FindValue

/-- `Node::findValue` up to the lookups: with a value in the storage there may be nothing to look
for. -/
def start (numDHTs : Nat) (option : LookupOption) (localVal : Option Value.Filled) :
    Option FindValue :=
  if localVal.any fun v => option = .arbitrary || !v.1.isMutable then none
  else some { numDHTs := numDHTs, option := option, value := localVal }

/-- The completion handler of `Node::findValue`, up to `putValue`. -/
def collect (self : FindValue) (found : Option Value.Filled) : FindValue :=
  { self with
    completion := self.completion + 1
    value := match found with
      | none => self.value
      | some v =>
        if self.value.all fun old => !v.1.isMutable ||
          old.1.sequenceNumber < v.1.sequenceNumber then some v
        else self.value }

/-- The handler stores what was found so far. -/
def settles (self : FindValue) (found : Option Value.Filled) : Bool :=
  (self.option = .optimistic && found.isSome) || self.completion ≥ self.numDHTs

end FindValue

/-! ## A node in use -/

namespace Node

/-- `Node::numDHTs`. -/
def numDHTs (self : Node) : Nat := self.dht4.toList.length + self.dht6.toList.length

/-- `RPCServer::handlePacket` and `DHT::onMessage` for a request, up to the end of
`DHT::onRequest`. -/
def serve (self : Node) (C : Crypto) (R : RandomOrder) (msg : Message) : Except Fault Node :=
  match self.getDHT (Network.of msg.origin) with
  | none => .error .nullDereference
  | some dht =>
    if !dht.running || (msg.id = self.id || msg.origin = dht.addr) then .ok (self.checkTxid msg)
    else (self.checkTxid msg).onRequest C R (Network.of msg.origin) msg

end Node

/-- A node with the operations of its user. After an exception nothing is received any more. -/
structure InUse where
  node : Node
  rx : Bool := true
  findValues : List FindValue := []
  findPeers : List (Id × FindPeer) := []

/-- What happens to a node, for its storage. -/
inductive StorageEvent (C : Crypto) where
  /-- The routing tables, the calls and the clock change. -/
  | elsewhere (dht4 dht6 : Option DHT) (server : RPCServer)
  | request (msg : Message)
  | findValue (id : Id) (option : LookupOption)
  /-- A lookup of `findValue` ends. -/
  | foundValue (op : Nat) (found : Option Value.Filled)
  | storeValue (value : Value) (persistent : Bool)
  | removeValue (valueId : Id)
  /-- A part of `persistentAnnounce`. -/
  | updateValueLastAnnounce (valueId : Id)
  | findPeer (id : Id) (expected : Int) (option : LookupOption)
  /-- A lookup of `findPeer` ends. -/
  | foundPeers (op : Nat) (lookup : Lookup) (events : List (UInt64 × LookupTask.LookupEvent))
    (normal : ∀ t key r, (t, .call key (.responded r)) ∈ events → r.response.content.Normal C)
  | announcePeer (peer : PeerInfo) (persistent : Bool) (normal : peer.Normal C)
  | removePeer (peerId : Id)
  /-- A part of `persistentAnnounce`. -/
  | updatePeerLastAnnounce (peerId origin : Id)
  | expire

/-- The event is input from the network that may write peers. -/
def StorageEvent.fromNetwork {C : Crypto} : StorageEvent C → Bool
  | request _ | foundPeers .. => true
  | _ => false

namespace InUse

variable (C : Crypto) (R : RandomOrder)

/-- `currentTimeMillis()`. -/
def now (self : InUse) : Nat := self.node.server.now

/-- The storage changes. -/
def store (self : InUse) (storage : Storage) : InUse :=
  { self with node := { self.node with storage := storage } }

/-- The values change. -/
def onValues (self : InUse) (op : ValueTable.Op)
    (hop : ∀ v seq p u, op = .putValue v seq p u → v.data ≠ []) :
    InUse :=
  self.store (self.node.storage.stepValues C self.now op hop)

/-- The peers change. -/
def onPeers (self : InUse) (op : PeerTable.Op) : InUse :=
  self.store (self.node.storage.stepPeers self.now op)

/-- A request is served. -/
def request (self : InUse) (msg : Message) : InUse :=
  if !self.rx then self
  else match self.node.serve C R msg with
    | .ok node => { self with node := node }
    | .error _ => { self with rx := false }

/-- `Node::findValue`. -/
def findValue (self : InUse) (id : Id) (option : LookupOption) : InUse :=
  match FindValue.start self.node.numDHTs option (self.node.storage.getValue self.now id) with
  | none => self
  | some op => { self with findValues := self.findValues ++ [op] }

/-- A lookup of an operation `findValue` ends. What `putValue` throws is caught. -/
def foundValue (self : InUse) (op : Nat) (found : Option Value.Filled) : InUse :=
  match self.findValues[op]? with
  | none => self
  | some q =>
    let q := q.collect found
    let self := { self with findValues := self.findValues.set op q }
    match q.value with
    | some value =>
      if q.settles found then self.store (self.node.storage.put C self.now value (-1) false false)
      else self
    | none => self

/-- `Node::storeValue`, up to the lookups. -/
def storeValue (self : InUse) (value : Value) (persistent : Bool) : InUse :=
  if h : value.isValid C = true then
    self.store (self.node.storage.put C self.now ⟨value, Value.data_ne_nil_of_isValid h⟩ (-1)
      persistent true)
  else self

/-- `Node::findPeer`, up to the lookups. Without enough peers in the storage there is something to
wait for. -/
def findPeer (self : InUse) (id : Id) (expected : Int) (option : LookupOption) : InUse :=
  match self.node.storage.peers.getPeer C R self.now id expected with
  | .error _ => self
  | .ok stored =>
    let q := FindPeer.start self.node.numDHTs stored expected (option = .arbitrary)
    if q.promise.isSome then self else { self with findPeers := self.findPeers ++ [(id, q)] }

/-- The peers that a lookup of `DHT::findPeer` found. -/
def peersFound (id : Id) (lookup : Lookup) (events : List (UInt64 × LookupTask.LookupEvent)) :
    List PeerInfo :=
  FindPeer.lookedUp ({ lookup with kind := .peer, target := id, crypto := C }, events)

/-- A lookup of an operation `findPeer` ends. -/
def foundPeers (self : InUse) (op : Nat) (lookup : Lookup)
    (events : List (UInt64 × LookupTask.LookupEvent)) :
    InUse :=
  match self.findPeers[op]? with
  | none => self
  | some (id, q) =>
    let q := q.collect (peersFound C id lookup events)
    { self with findPeers := self.findPeers.set op (id, q.settle) }.onPeers (.putPeers q.results)

/-- `Node::announcePeer`, up to the lookups. -/
def announcePeer (self : InUse) (peer : PeerInfo) (persistent : Bool) : InUse :=
  if peer.origin = self.node.id ∧ peer.isValid C = true then
    self.onPeers (.putPeer peer persistent true)
  else self

/-- One event. -/
def step (self : InUse) : StorageEvent C → InUse
  | .elsewhere dht4 dht6 server =>
    { self with node := { self.node with dht4 := dht4, dht6 := dht6, server := server } }
  | .request msg => self.request C R msg
  | .findValue id option => self.findValue id option
  | .foundValue op found => self.foundValue C op found
  | .storeValue value persistent => self.storeValue C value persistent
  | .removeValue valueId => self.onValues C (.removeValue valueId) (by simp)
  | .updateValueLastAnnounce valueId => self.onValues C (.updateValueLastAnnounce valueId) (by simp)
  | .findPeer id expected option => self.findPeer C R id expected option
  | .foundPeers op lookup events _ => self.foundPeers C op lookup events
  | .announcePeer peer persistent _ => self.announcePeer C peer persistent
  | .removePeer peerId => self.onPeers (.removePeer peerId self.node.id)
  | .updatePeerLastAnnounce peerId origin => self.onPeers (.updatePeerLastAnnounce peerId origin)
  | .expire => (self.onValues C .expire (by simp)).onPeers .expire

/-- A sequence of events. -/
def run (self : InUse) (events : List (StorageEvent C)) : InUse :=
  events.foldl (fun s e => s.step C R e) self

end InUse

/-! ## What a request writes -/

namespace Node

variable {C : Crypto} {R : RandomOrder} {self after : Node} {type : Network} {msg : Message}

/-- The handler of an `ANNOUNCE_PEER` request gets as far as `putPeer`, with this peer. -/
structure TakesPeer (C : Crypto) (node : Node) (msg : Message) (q : AnnouncePeerRequest)
    (peer : PeerInfo) :
    Prop where
  origin : msg.origin.isBogon = some false
  token : (node.verifyToken C msg q.token q.peerId).1 = true
  getPeer : q.getPeer C msg.id = .ok peer

theorem onFindNode_storage {q : LookupRequest} (h : self.onFindNode C type msg q = .ok after) :
    after.storage = self.storage := by
  obtain ⟨r, -, h⟩ := FoldM.bind_eq_ok_iff.mp h
  split_ifs at h <;> cases h <;> rfl

theorem onFindValue_storage {q : LookupRequest} {seq : Int32}
    (h : self.onFindValue C type msg q seq = .ok after) : after.storage = self.storage := by
  obtain ⟨value, -, h⟩ := FoldM.bind_eq_ok_iff.mp h
  split at h
  · cases h
    rfl
  · obtain ⟨r, -, h⟩ := FoldM.bind_eq_ok_iff.mp h
    cases h
    rfl

theorem onFindPeers_storage {q : LookupRequest} (h : self.onFindPeers C R type msg q = .ok after) :
    after.storage = self.storage := by
  obtain ⟨peers, -, h⟩ := FoldM.bind_eq_ok_iff.mp h
  split_ifs at h
  · cases h
    rfl
  · obtain ⟨r, -, h⟩ := FoldM.bind_eq_ok_iff.mp h
    cases h
    rfl

theorem onStoreValue_storage {q : StoreValueRequest} (h : self.onStoreValue C msg q = .ok after) :
    after.storage = self.storage ∨ ∃ v, ∃ hv : v.isValid C = true,
      after.storage =
        (self.storage.putValue C self.server.now v hv q.expectedSequenceNumber).2 := by
  unfold onStoreValue at h
  cases hq : q.getValue with
  | error e =>
    rw [hq] at h
    cases h
  | ok v =>
    rw [hq] at h
    dsimp only [throwing, verifyToken] at h
    change (if (!_) = true then _ else _) = _ at h
    split_ifs at h with htoken hvalid
    · cases h
      exact .inl rfl
    · obtain ⟨_, -, h⟩ := FoldM.bind_eq_ok_iff.mp h
      cases h
      exact .inr ⟨v, hvalid, rfl⟩
    · cases h
      exact .inl rfl

theorem onAnnouncePeer_storage {q : AnnouncePeerRequest}
    (h : self.onAnnouncePeer C msg q = .ok after) :
    (after.storage = self.storage ∧ ∀ peer, ¬ TakesPeer C self msg q peer) ∨
      ∃ peer, TakesPeer C self msg q peer ∧
        after.storage = self.storage.putPeer self.server.now peer := by
  unfold onAnnouncePeer isBogon at h
  cases hbogon : msg.origin.isBogon with
  | none =>
    rw [hbogon] at h
    cases h
  | some bogon =>
    simp only [hbogon] at h
    cases bogon with
    | true =>
      cases h
      refine .inl ⟨rfl, fun peer hpeer => ?_⟩
      cases hbogon.symm.trans hpeer.origin
    | false =>
      dsimp only [verifyToken] at h
      change (if (!_) = true then _ else _) = _ at h
      split_ifs at h with htoken
      · cases h
        refine .inl ⟨rfl, fun peer hpeer => ?_⟩
        rw [Bool.not_eq_true'] at htoken
        cases htoken.symm.trans hpeer.token
      · obtain ⟨peer, hpeer, h⟩ := FoldM.bind_eq_ok_iff.mp h
        cases h
        rw [Bool.not_eq_true, Bool.not_eq_false'] at htoken
        refine .inr ⟨peer, ⟨hbogon, htoken, ?_⟩, rfl⟩
        cases hq : q.getPeer C msg.id with
        | error e =>
          rw [hq] at hpeer
          cases hpeer
        | ok p =>
          rw [hq] at hpeer
          cases hpeer
          rfl

/-- The request is an `ANNOUNCE_PEER` that gets as far as `putPeer`, with this peer. -/
def Announces (C : Crypto) (self : Node) (msg : Message) (peer : PeerInfo) : Prop :=
  ∃ q, msg.content = .announcePeerRequest q ∧ TakesPeer C self msg q peer

/-- What a request writes to the storage. -/
theorem onRequest_storage (h : self.onRequest C R type msg = .ok after) :
    (∃ peer, self.Announces C msg peer ∧
      after.storage = self.storage.putPeer self.server.now peer) ∨
      ((∀ peer, ¬ self.Announces C msg peer) ∧
        (after.storage = self.storage ∨ ∃ v, ∃ hv : v.isValid C = true, ∃ seq,
          after.storage = (self.storage.putValue C self.server.now v hv seq).2)) := by
  unfold onRequest at h
  cases hc : msg.content with
  | announcePeerRequest q =>
    simp only [hc] at h
    obtain ⟨hs, hno⟩ | ⟨peer, hpeer, hs⟩ := onAnnouncePeer_storage h
    · refine .inr ⟨?_, .inl hs⟩
      rintro peer ⟨q', hq', hpeer⟩
      cases hc.symm.trans hq'
      exact hno peer hpeer
    · exact .inl ⟨peer, ⟨q, hc, hpeer⟩, hs⟩
  | storeValueRequest q =>
    simp only [hc] at h
    refine .inr ⟨by simp [Announces, hc], ?_⟩
    obtain hs | ⟨v, hv, hs⟩ := onStoreValue_storage h
    · exact .inl hs
    · exact .inr ⟨v, hv, _, hs⟩
  | pingRequest =>
    simp only [hc] at h
    cases h
    exact .inr ⟨by simp [Announces, hc], .inl rfl⟩
  | findNodeRequest q =>
    simp only [hc] at h
    exact .inr ⟨by simp [Announces, hc], .inl (onFindNode_storage h)⟩
  | findValueRequest q seq =>
    simp only [hc] at h
    exact .inr ⟨by simp [Announces, hc], .inl (onFindValue_storage h)⟩
  | findPeerRequest q =>
    simp only [hc] at h
    exact .inr ⟨by simp [Announces, hc], .inl (onFindPeers_storage h)⟩
  | _ =>
    simp only [hc] at h
    cases h
    exact .inr ⟨by simp [Announces, hc], .inl rfl⟩

theorem onRequest_announces {peer : PeerInfo} (h : self.Announces C msg peer) :
    ∃ after, self.onRequest C R type msg = .ok after ∧
      after.storage = self.storage.putPeer self.server.now peer := by
  obtain ⟨q, hc, hpeer⟩ := h
  have htoken := hpeer.token
  unfold onRequest
  rw [hc]
  dsimp only
  unfold onAnnouncePeer isBogon
  rw [hpeer.origin, hpeer.getPeer]
  dsimp only [throwing]
  refine ⟨{ (self.verifyToken C msg q.token q.peerId).2 with
    storage := self.storage.putPeer self.server.now peer }.reply msg .announcePeerResponse, ?_, rfl⟩
  change (if (!(self.verifyToken C msg q.token q.peerId).1) = true then _ else _) = _
  rw [htoken]
  rfl

/-- The node is there for a message: it has a running DHT for it, and the message is not its own. -/
def Hears (self : Node) (msg : Message) : Prop :=
  ∃ dht, self.getDHT (Network.of msg.origin) = some dht ∧ dht.running = true ∧
    ¬ (msg.id = self.id ∨ msg.origin = dht.addr)

theorem checkTxid_cases (self : Node) (msg : Message) :
    ∃ sent, self.checkTxid msg = { self with sent := sent } := by
  unfold checkTxid
  split_ifs
  · exact ⟨_, rfl⟩
  · exact ⟨self.sent, rfl⟩

theorem serve_eq (h : self.Hears msg) :
    self.serve C R msg = (self.checkTxid msg).onRequest C R (Network.of msg.origin) msg := by
  obtain ⟨dht, hdht, hrunning, hother⟩ := h
  unfold serve
  rw [hdht]
  simp [hrunning, hother]

theorem serve_deaf (h : ¬ self.Hears msg) (hok : self.serve C R msg = .ok after) :
    after.storage = self.storage := by
  unfold serve at hok
  cases hdht : self.getDHT (Network.of msg.origin) with
  | none =>
    rw [hdht] at hok
    cases hok
  | some dht =>
    rw [hdht] at hok
    dsimp only at hok
    split_ifs at hok with hc
    · cases hok
      obtain ⟨sent, heq⟩ := checkTxid_cases self msg
      rw [heq]
    · refine absurd ⟨dht, hdht, ?_⟩ h
      simpa using hc

theorem announces_sent {sent : List Outgoing} {peer : PeerInfo} :
    ({ self with sent := sent } : Node).Announces C msg peer ↔ self.Announces C msg peer :=
  ⟨fun ⟨q, hc, h⟩ => ⟨q, hc, h.origin, h.token, h.getPeer⟩,
    fun ⟨q, hc, h⟩ => ⟨q, hc, h.origin, h.token, h.getPeer⟩⟩

/-- What a request writes to the storage of a node. -/
theorem serve_storage (h : self.serve C R msg = .ok after) :
    (∃ peer, self.Hears msg ∧ self.Announces C msg peer ∧
      after.storage = self.storage.putPeer self.server.now peer) ∨
    after.storage = self.storage ∨ ∃ v, ∃ hv : v.isValid C = true, ∃ seq,
      after.storage = (self.storage.putValue C self.server.now v hv seq).2 := by
  by_cases hears : self.Hears msg
  · rw [serve_eq hears] at h
    obtain ⟨sent, heq⟩ := checkTxid_cases self msg
    rw [heq] at h
    obtain ⟨peer, hpeer, hs⟩ | ⟨-, hs⟩ := onRequest_storage h
    · exact .inl ⟨peer, hears, announces_sent.mp hpeer, hs⟩
    · exact .inr hs
  · exact .inr (.inl (serve_deaf hears h))

theorem serve_announces {peer : PeerInfo} (hears : self.Hears msg) (h : self.Announces C msg peer) :
    ∃ after, self.serve C R msg = .ok after ∧
      after.storage = self.storage.putPeer self.server.now peer := by
  rw [serve_eq hears]
  obtain ⟨sent, heq⟩ := checkTxid_cases self msg
  rw [heq]
  exact onRequest_announces (announces_sent.mpr h)

theorem setDHT_storage (dht : DHT) : (self.setDHT dht type).storage = self.storage := by
  cases type <;> rfl

theorem enlist_storage {dht : DHT} {call : Option AnsweredCall} {old : Option KBucketEntry}
    (h : self.enlist type dht msg call old = .ok after) : after.storage = self.storage := by
  unfold enlist at h
  split at h
  · cases h
    exact setDHT_storage _
  · obtain ⟨⟨dht', mid⟩, hping, h⟩ := FoldM.bind_eq_ok_iff.mp h
    cases h
    unfold sendPing at hping
    dsimp only at hping
    split_ifs at hping
    cases hping
    exact (setDHT_storage _).trans (setDHT_storage _)
  · cases h
    exact setDHT_storage _

theorem received_storage {dht : DHT} {call : Option AnsweredCall}
    (h : self.received type dht msg call = .ok after) : after.storage = self.storage := by
  unfold received at h
  obtain ⟨bogon, -, h⟩ := FoldM.bind_eq_ok_iff.mp h
  split_ifs at h
  · cases h
    rfl
  · cases h
    rfl
  · dsimp only at h
    split at h
    · cases h
      rfl
    · split at h
      · cases h
        exact setDHT_storage _
      · exact enlist_storage h

/-- The dispatch of a request writes to the storage what `serve` does. -/
theorem dispatch_storage (h : self.dispatch C R msg = .ok after) :
    ∃ mid, self.serve C R msg = .ok mid ∧ after.storage = mid.storage := by
  unfold dispatch handleMessage at h
  obtain ⟨sent, heq⟩ := checkTxid_cases self msg
  have hdht : (self.checkTxid msg).getDHT (Network.of msg.origin) =
      self.getDHT (Network.of msg.origin) := by
    rw [heq]
    rfl
  have hid : (self.checkTxid msg).id = self.id := by rw [heq]
  unfold serve
  dsimp only at h
  rw [hdht] at h
  cases hd : self.getDHT (Network.of msg.origin) with
  | none =>
    rw [hd] at h
    cases h
  | some dht =>
    rw [hd] at h
    dsimp only at h ⊢
    unfold onMessage at h
    rw [hid] at h
    cases hr : dht.running with
    | false =>
      simp only [hr] at h
      cases h
      exact ⟨_, by simp, rfl⟩
    | true =>
      simp only [hr] at h
      by_cases hself : (decide (msg.id = self.id) || decide (msg.origin = dht.addr)) = true
      · rw [hself] at h ⊢
        cases h
        exact ⟨_, rfl, rfl⟩
      · rw [Bool.not_eq_true] at hself
        rw [hself] at h ⊢
        obtain ⟨mid, hmid, h⟩ := FoldM.bind_eq_ok_iff.mp h
        exact ⟨mid, hmid, received_storage h⟩

end Node

end Boson
