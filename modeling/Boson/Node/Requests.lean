import Boson.Node

/-!
# Requests (`DHT::onMessage`, the request handlers and `DHT::received`)

What a node does with a request, from the dispatch in `RPCServer::handlePacket` to the end of
`DHT::onMessage`: the reply to a transaction id of 0, the handler of the method, and then
`received`, which may put the sender into the routing table and send it a ping.

A handler belongs to the DHT of one address family but answers for both: `populateClosestNodes`
takes the other DHT from the node, whether there is one or not. A ping refresh of a bucket is only
queued, so that it does nothing here. `sendData` does not throw for the sender of a request: its
socket is open and its key was used to decrypt the request.
-/

namespace Boson

/-- `ErrorCode::ProtocolError`. -/
def PROTOCOL_ERROR : Int32 := 203

/-- `Network::of`. -/
def Network.of (addr : SocketAddress) : Network := if addr.family = .inet then .ipv4 else .ipv6

/-- What `DHT::received` reads of the call that a message answers. -/
structure AnsweredCall where
  matchesAddress : Bool
  matchesId : Bool
  sentTime : UInt64

namespace DHT

/-- `routingTable.put(entry)`. The loop of `put` ends for a table with its invariant. -/
def put (self : DHT) (now : UInt64) (entry : KBucketEntry) : DHT :=
  match h : self.routingTable.put now entry with
  | some table =>
    { self with
      routingTable := table
      table_ok := by
        obtain ⟨T, hT, hinv⟩ := RoutingTable.put_inv now entry self.table_ok
        rw [h] at hT
        cases hT
        exact hinv }
  | none => self

/-- `routingTable.remove(id)`. -/
def remove (self : DHT) (now : UInt64) (id : Id) : DHT :=
  { self with
    routingTable := self.routingTable.remove now id
    table_ok := RoutingTable.remove_inv self.table_ok }

/-- `DHT::onSend`. -/
def onSend (self : DHT) (now : UInt64) (id : Id) : DHT :=
  if self.running then
    { self with
      routingTable := self.routingTable.onSend now id
      table_ok := RoutingTable.onSend_inv self.table_ok }
  else self

/-- `knownNodes[addr] = id`. -/
def setKnown (self : DHT) (addr : SocketAddress) (id : Id) : DHT :=
  { self with knownNodes := self.knownNodes.upsert (addr, id) (fun r => (r.1, id)) fun _ => rfl }

/-- The map has the new id for the address. -/
theorem lookup_setKnown (self : DHT) (addr : SocketAddress) (id : Id) (a : SocketAddress) :
    (self.setKnown addr id).knownNodes.lookup a =
      if a = addr then some (addr, id) else self.knownNodes.lookup a := by
  rw [setKnown, Table.lookup_upsert]
  split_ifs
  · cases hr : self.knownNodes.lookup addr with
    | none => rfl
    | some r =>
      have hkey : r.1 = addr := Table.lookup_key hr
      simp [hkey]
  · rfl

/-- The id, other than `id`, of an entry of the table that the node knows under this address. -/
def impostor (self : DHT) (addr : SocketAddress) (id : Id) : Option Id :=
  match self.knownNodes.lookup addr with
  | some (_, known) =>
    if known ≠ id ∧ (self.routingTable.getEntry known).isSome then some known else none
  | none => none

end DHT

namespace Node

variable (C : Crypto) (R : RandomOrder)

/-- `currentTimeMillis()`. -/
def now (self : Node) : UInt64 := UInt64.ofNat self.server.now

/-- `Node::getDHT`. -/
def getDHT (self : Node) : Network → Option DHT
  | .ipv4 => self.dht4
  | .ipv6 => self.dht6

/-- The DHT of a family, changed. -/
def setDHT (self : Node) (dht : DHT) : Network → Node
  | .ipv4 => { self with dht4 := some dht }
  | .ipv6 => { self with dht6 := some dht }

/-- `RPCServer::sendMessage` of a reply to `msg`. -/
def reply (self : Node) (msg : Message) (content : Content) : Node :=
  { self with
    sent := self.sent ++ [{
      remoteId := msg.id
      remote := msg.origin
      message :=
        { id := self.id, txid := msg.txid, version := self.version, content := content } }] }

/-- `RPCServer::sendError`. -/
def sendError (self : Node) (msg : Message) (code : Int32) (err : String) : Node :=
  self.reply msg (.errorMessage msg.getMethod code (err.toList.map Char.toUInt8))

/-- A part of `DHT::populateClosestNodes`: the `count` closest nodes of one family. -/
def closestNodes (self : Node) (type family : Network) (target : Id) (count : Nat) :
    Except Fault (List NodeInfo) :=
  match self.getDHT family with
  | none => .error .nullDereference
  | some dht =>
    let view : DHTView :=
      { type := family, routingTable := dht.routingTable, bootstrapNodes := self.bootstrapNodes,
        origin := dht.addr }
    let closest : KClosestNodes := { target := target, maxEntries := count }
    .ok ((closest.fill view self.now (type = family)).entries.map (·.toNodeInfo))

/-- `DHT::populateClosestNodes`. -/
def populateClosestNodes (self : Node) (type : Network) (response : LookupResponse) (target : Id)
    (v4 v6 : Nat) : Except Fault LookupResponse := do
  let response ← if v4 > 0 then
      (fun nodes => { response with nodes4 := nodes }) <$> self.closestNodes type .ipv4 target v4
    else .ok response
  if v6 > 0 then
    (fun nodes => { response with nodes6 := nodes }) <$> self.closestNodes type .ipv6 target v6
  else .ok response

/-- `populateClosestNodes` for what a request wants. -/
def populateWanted (self : Node) (type : Network) (response : LookupResponse) (q : LookupRequest) :
    Except Fault LookupResponse :=
  self.populateClosestNodes type response q.target (if q.want4 then MAX_ENTRIES_PER_BUCKET else 0)
    (if q.want6 then MAX_ENTRIES_PER_BUCKET else 0)

/-- `tokenManager->generateToken`. -/
def generateToken (self : Node) (msg : Message) (target : Id) : Int32 × Node :=
  let (token, tokens) := self.tokenManager.generateToken C self.now msg.id msg.origin target
  (token, { self with tokenManager := tokens })

/-- `tokenManager->verifyToken`. -/
def verifyToken (self : Node) (msg : Message) (token : Int32) (target : Id) : Bool × Node :=
  let (ok, tokens) := self.tokenManager.verifyToken C self.now token msg.id msg.origin target
  (ok, { self with tokenManager := tokens })

/-- `DHT::onPing`. -/
def onPing (self : Node) (msg : Message) : Except Fault Node := .ok (self.reply msg .pingResponse)

/-- `DHT::onFindNode`. -/
def onFindNode (self : Node) (type : Network) (msg : Message) (q : LookupRequest) :
    Except Fault Node := do
  let response ← self.populateWanted type {} q
  if q.wantToken then
    let (token, self) := self.generateToken C msg q.target
    return self.reply msg (.findNodeResponse { response with token := token })
  else return self.reply msg (.findNodeResponse response)

/-- The stored value that answers a `FindValueRequest`. -/
def servedValue (sequenceNumber : Int32) (value : Option Value) : Option Value :=
  value.filter fun v => sequenceNumber < 0 || v.sequenceNumber < 0 ||
    sequenceNumber ≤ v.sequenceNumber

/-- `DHT::onFindValue`. -/
def onFindValue (self : Node) (type : Network) (msg : Message) (q : LookupRequest)
    (sequenceNumber : Int32) : Except Fault Node := do
  -- the token is for the id of this node, not for the target
  let (token, self) := self.generateToken C msg self.id
  let value ← throwing (self.storage.values.getValue self.server.now q.target)
  match servedValue sequenceNumber value with
  | some value =>
    return self.reply msg (.findValueResponse { token := token } (ValueFields.setValue {} value))
  | none =>
    let response ← self.populateWanted type { token := token } q
    return self.reply msg (.findValueResponse response {})

/-- `DHT::onStoreValue`. -/
def onStoreValue (self : Node) (msg : Message) (q : StoreValueRequest) : Except Fault Node := do
  let value ← throwing q.getValue
  let (ok, self) := self.verifyToken C msg q.token (value.getId C)
  if !ok then return self.sendError msg PROTOCOL_ERROR "Invalid token for STORE VALUE request"
  else if hvalue : value.isValid C = true then
    let (result, storage) :=
      self.storage.putValue C self.server.now value hvalue q.expectedSequenceNumber
    let _ ← throwing result
    return { self with storage := storage }.reply msg .storeValueResponse
  else return self.sendError msg PROTOCOL_ERROR "Invalid value"

/-- `DHT::onFindPeers`. -/
def onFindPeers (self : Node) (type : Network) (msg : Message) (q : LookupRequest) :
    Except Fault Node := do
  let (token, self) := self.generateToken C msg q.target
  let peers ← throwing (self.storage.peers.getPeer C R self.server.now q.target 8)
  if peers ≠ [] then return self.reply msg (.findPeerResponse { token := token } peers)
  else
    let response ← self.populateWanted type { token := token } q
    return self.reply msg (.findPeerResponse response [])

/-- `addr.isBogon()`, which throws for an address of neither family. -/
def isBogon (addr : SocketAddress) : Except Fault Bool :=
  match addr.isBogon with
  | some b => .ok b
  | none => .error (.exception "unsupported address family")

/-- `DHT::onAnnouncePeer`. -/
def onAnnouncePeer (self : Node) (msg : Message) (q : AnnouncePeerRequest) : Except Fault Node := do
  if ← isBogon msg.origin then return self
  else
    let (ok, self) := self.verifyToken C msg q.token q.peerId
    if !ok then return self.sendError msg PROTOCOL_ERROR "Invalid token for ANNOUNCE PEER request"
    else
      let peer ← throwing (q.getPeer C msg.id)
      return { self with storage := self.storage.putPeer self.server.now peer }.reply msg
        .announcePeerResponse

/-- `DHT::onRequest`. A message of another type has no handler here. -/
def onRequest (self : Node) (type : Network) (msg : Message) : Except Fault Node :=
  match msg.content with
  | .pingRequest => self.onPing msg
  | .findNodeRequest q => self.onFindNode C type msg q
  | .findValueRequest q sequenceNumber => self.onFindValue C type msg q sequenceNumber
  | .storeValueRequest q => self.onStoreValue C msg q
  | .findPeerRequest q => self.onFindPeers C R type msg q
  | .announcePeerRequest q => self.onAnnouncePeer C msg q
  | _ => .ok self

/-- The verification of a new node: `rpcServer->sendCall` of a ping. -/
def sendPing (self : Node) (type : Network) (dht : DHT) (id : Id) (addr : SocketAddress) :
    Except Fault (DHT × Node) :=
  let result := self.server.sendCall addr false (RPCServer.exec .done)
  if result.threw then .error (.exception "Transaction ID already exists")
  else
    let dht := dht.onSend self.now id
    .ok (dht, { self.setDHT dht type with
      server := result.state
      sent := self.sent ++ [{
        remoteId := id
        remote := addr
        message :=
          { id := self.id, txid := (self.server.newCall addr).takeTxid.1, version := self.version,
            content := .pingRequest } }] })

/-- The last part of `DHT::received`: the sender is known by its address, in place of another that
is no longer in the table, and put into the table. -/
def enlist (self : Node) (type : Network) (dht : DHT) (msg : Message) (call : Option AnsweredCall)
    (old : Option KBucketEntry) : Except Fault Node := do
  let dht := dht.setKnown msg.origin msg.id
  let entry := KBucketEntry.new self.now msg.id msg.origin msg.version.toInt
  match call, old with
  | some call, _ =>
    let entry := (entry.signalResponse self.now).mergeRequestTime call.sentTime
    return self.setDHT (dht.put self.now entry) type
  | none, none =>
    let (dht, self) ← self.sendPing type dht msg.id msg.origin
    return self.setDHT (dht.put self.now entry) type
  | none, some _ => return self.setDHT (dht.put self.now entry) type

/-- `DHT::received`. -/
def received (self : Node) (type : Network) (dht : DHT) (msg : Message)
    (call : Option AnsweredCall) :
    Except Fault Node := do
  if ← isBogon msg.origin then return self
  else if call.any fun call => !call.matchesAddress || !call.matchesId then return self
  else
    let old := dht.routingTable.getEntry msg.id
    if old.any fun old => old.sockaddr ≠ msg.origin then return self
    else
      match dht.impostor msg.origin msg.id with
      | some known =>
        -- the node changed its id, or another one uses its address
        return self.setDHT ((dht.remove self.now known).setKnown msg.origin msg.id) type
      | none => self.enlist type dht msg call old

/-- `DHT::onMessage`. -/
def onMessage (self : Node) (type : Network) (dht : DHT) (msg : Message)
    (call : Option AnsweredCall) :
    Except Fault Node := do
  if !dht.running then return self
  else if msg.id = self.id || msg.origin = dht.addr then return self
  else
    let self ← self.onRequest C R type msg
    self.received type dht msg call

/-- `RPCServer::handleMessage`. -/
def handleMessage (self : Node) (msg : Message) (call : Option AnsweredCall) : Except Fault Node :=
  let type := Network.of msg.origin
  match self.getDHT type with
  | some dht => self.onMessage C R type dht msg call
  | none => .error .nullDereference

/-- The reply to a transaction id of 0. The message is handled as well. -/
def checkTxid (self : Node) (msg : Message) : Node :=
  if msg.getType ≠ .err ∧ msg.txid = 0 then
    self.sendError msg PROTOCOL_ERROR
      "Received a message with an invalid transaction id, expected a non-zero transaction id"
  else self

/-- The dispatch of a request in `RPCServer::handlePacket`. -/
def dispatch (self : Node) (msg : Message) : Except Fault Node :=
  (self.checkTxid msg).handleMessage C R msg none

end Node

end Boson
