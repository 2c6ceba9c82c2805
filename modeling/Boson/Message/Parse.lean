import Boson.Message.Json

/-!
# Reading messages (`Message::parse` and the `parse` of its subclasses)

The subclasses read the fields of one object, each in a loop that knows its own keys. `parseField`
is the body of that loop and `bodyKey` what the subclass wants before it; `Content.parse` is the
rest, which they share.

A field that is absent is left at its default, and no subclass checks afterwards which fields were
there. Where reading a field is fatal (a row of a node with too few items is read past its end, a
nonce of the wrong size fails an assertion) is said in `Boson.Message.Schema`.
-/

namespace Boson

open FoldM

/-! ## Keys (`message_key.cc`) -/

/-- A key that is written in ASCII. -/
def asciiKey (s : List Char) : Text := s.map Char.toUInt8

def KEY_TYPE : Text := asciiKey ['y']
def KEY_TXID : Text := asciiKey ['t']
def KEY_VERSION : Text := asciiKey ['v']
def KEY_REQUEST : Text := asciiKey ['q']
def KEY_RESPONSE : Text := asciiKey ['r']
def KEY_ERROR : Text := asciiKey ['e']
def KEY_REQ_TARGET : Text := asciiKey ['t']
def KEY_REQ_WANT : Text := asciiKey ['w']
def KEY_REQ_PORT : Text := asciiKey ['p']
def KEY_REQ_TOKEN : Text := asciiKey ['t', 'o', 'k']
def KEY_REQ_PUBLICKEY : Text := asciiKey ['k']
def KEY_REQ_RECIPIENT : Text := asciiKey ['r', 'e', 'c']
def KEY_REQ_NONCE : Text := asciiKey ['n']
def KEY_REQ_SIGNATURE : Text := asciiKey ['s', 'i', 'g']
def KEY_REQ_CAS : Text := asciiKey ['c', 'a', 's']
def KEY_REQ_SEQ : Text := asciiKey ['s', 'e', 'q']
def KEY_REQ_PROXY_ID : Text := asciiKey ['x']
def KEY_REQ_ALT : Text := asciiKey ['a', 'l', 't']
def KEY_RES_NODES4 : Text := asciiKey ['n', '4']
def KEY_RES_NODES6 : Text := asciiKey ['n', '6']
def KEY_RES_TOKEN : Text := asciiKey ['t', 'o', 'k']
def KEY_RES_PEERS : Text := asciiKey ['p']
def KEY_RES_VALUE : Text := asciiKey ['v']
def KEY_ERR_CODE : Text := asciiKey ['c']
def KEY_ERR_MESSAGE : Text := asciiKey ['m']

/-! ## The fields of the subclasses -/

/-- `LookupRequest::setWant`. -/
def LookupRequest.setWant (self : LookupRequest) (want : Int32) : LookupRequest :=
  { self with
    want4 := want &&& 0x01 != 0
    want6 := want &&& 0x02 != 0
    wantToken := want &&& 0x04 != 0 }

/-- A field of a `LookupRequest`; `none` for a key that it leaves to its subclass. -/
def LookupRequest.parseField (self : LookupRequest) (key : Text) (value : Json) :
    Option (Except Fault LookupRequest) :=
  if key = KEY_REQ_TARGET then some ((fun target => { self with target := target }) <$> value.getId)
  else if key = KEY_REQ_WANT then some (self.setWant <$> value.getInt)
  else none

/-- `LookupResponse::parseNodes`. -/
def parseNodes (value : Json) (nodes : List NodeInfo) : Except Fault (List NodeInfo) :=
  match value with
  | .arr rows => rows.foldlM (fun nodes row => (nodes ++ [·]) <$> row.getNodeInfo) nodes
  | _ => .error (.exception "Invalid response nodes message")

/-- A field of a `LookupResponse`; `none` for a key that it leaves to its subclass. -/
def LookupResponse.parseField (self : LookupResponse) (key : Text) (value : Json) :
    Option (Except Fault LookupResponse) :=
  if key = KEY_RES_NODES4 then
    some ((fun nodes => { self with nodes4 := nodes }) <$> parseNodes value self.nodes4)
  else if key = KEY_RES_NODES6 then
    some ((fun nodes => { self with nodes6 := nodes }) <$> parseNodes value self.nodes6)
  else if key = KEY_RES_TOKEN then
    some ((fun token => { self with token := token }) <$> value.getInt)
  else none

/-- A field of a value; `seqOf` is how the subclass reads a sequence number. -/
def ValueFields.parseField (B : Build) (seqOf : Json → Except Fault Int32) (self : ValueFields)
    (key : Text) (value : Json) : Option (Except Fault ValueFields) :=
  if key = KEY_REQ_PUBLICKEY then
    some ((fun id => { self with publicKey := some id }) <$> value.getId)
  else if key = KEY_REQ_RECIPIENT then
    some ((fun id => { self with recipient := some id }) <$> value.getId)
  else if key = KEY_REQ_NONCE then
    some ((fun nonce => { self with nonce := some nonce }) <$> value.getNonce B)
  else if key = KEY_REQ_SIGNATURE then
    some ((fun b => { self with signature := some b }) <$> value.getBinary)
  else if key = KEY_REQ_SEQ then
    some ((fun seq => { self with sequenceNumber := seq }) <$> seqOf value)
  else if key = KEY_RES_VALUE then some ((fun b => { self with value := b }) <$> value.getBinary)
  else none

/-- `object.get<uint16_t>()`, as an `int`. -/
def getSeq16 (value : Json) : Except Fault Int32 :=
  (fun n => Int32.ofNat n.toNat) <$> value.getUInt16

/-- The body of the loop of `StoreValueRequest::parse`. -/
def StoreValueRequest.parseField (B : Build) (self : StoreValueRequest) (key : Text)
    (value : Json) :
    Except Fault StoreValueRequest :=
  match self.toValueFields.parseField B getSeq16 key value with
  | some v => (fun v => { self with toValueFields := v }) <$> v
  | none =>
    if key = KEY_REQ_CAS then
      (fun seq => { self with expectedSequenceNumber := seq }) <$> value.getInt
    else if key = KEY_REQ_TOKEN then (fun token => { self with token := token }) <$> value.getInt
    else .error (.exception "Unknown field")

/-- The body of the loop of `AnnouncePeerRequest::parse`. -/
def AnnouncePeerRequest.parseField (self : AnnouncePeerRequest) (key : Text) (value : Json) :
    Except Fault AnnouncePeerRequest :=
  if key = KEY_REQ_TARGET then (fun id => { self with peerId := id }) <$> value.getId
  else if key = KEY_REQ_PROXY_ID then (fun id => { self with nodeId := some id }) <$> value.getId
  else if key = KEY_REQ_PORT then (fun port => { self with port := port }) <$> value.getUInt16
  else if key = KEY_REQ_ALT then (fun s => { self with alternativeURL := s }) <$> value.getString
  else if key = KEY_REQ_SIGNATURE then (fun b => { self with signature := b }) <$> value.getBinary
  else if key = KEY_REQ_TOKEN then (fun token => { self with token := token }) <$> value.getInt
  else .error (.exception "Invalid message with unkown key")

/-- A value that may be `null`, which is read as empty. -/
def orEmpty (get : Json → Except Fault (List UInt8)) : Json → Except Fault (List UInt8)
  | .null => .ok []
  | j => get j

/-- A row of a peer, in `FindPeerResponse::_parse`. -/
def getPeerInfo (C : Crypto) (peerId : List UInt8) (items : List Json) : Except Fault PeerInfo := do
  let id ← (← Json.itemAt items 0).getBinary
  let origin ← orEmpty Json.getBinary (← Json.itemAt items 1)
  let port ← (← Json.itemAt items 2).getUInt16
  let alt ← orEmpty Json.getString (← Json.itemAt items 3)
  let sig ← (← Json.itemAt items 4).getBinary
  throwing (PeerInfo.of C peerId [] id origin port alt sig)

/-- The body of the loop of `FindPeerResponse::_parse`: an item that is no array is the id of the
peers after it. -/
def parsePeer (C : Crypto) (acc : List UInt8 × List PeerInfo) (item : Json) :
    Except Fault (List UInt8 × List PeerInfo) :=
  match item with
  | .arr items => (fun peer => (acc.1, acc.2 ++ [peer])) <$> getPeerInfo C acc.1 items
  | j => (fun peerId => (peerId, acc.2)) <$> j.getBinary

/-- `FindPeerResponse::_parse`. -/
def parsePeers (C : Crypto) (peers : List PeerInfo) (key : Text) (value : Json) :
    Except Fault (List PeerInfo) :=
  match value with
  | .arr items =>
    if key = KEY_RES_PEERS then Prod.snd <$> items.foldlM (parsePeer C) ([], peers)
    else .error (.exception "invalid find peer response message")
  | _ => .error (.exception "Invalid response peers message")

namespace Content

/-- The key of the object that the subclass reads, and the error if there is something else; `none`
for a subclass that reads nothing. -/
def bodyKey : Content → Option (Text × String)
  | pingRequest | pingResponse | announcePeerResponse | storeValueResponse => none
  | errorMessage .. => some (KEY_ERROR, "Invalid request message")
  | findNodeRequest _ | findPeerRequest _ | findValueRequest .. | storeValueRequest _ =>
    some (KEY_REQUEST, "Invalid request message")
  | announcePeerRequest _ => some (KEY_REQUEST, "Invalid 3reqeust message")
  | findNodeResponse _ | findPeerResponse .. | findValueResponse .. =>
    some (KEY_RESPONSE, "Invalid lookup response message")

/-- The body of the loop over the fields. -/
def parseField (C : Crypto) (B : Build) (self : Content) (key : Text) (value : Json) :
    Except Fault Content :=
  match self with
  | errorMessage method code message =>
    if key = KEY_ERR_CODE then (errorMessage method · message) <$> value.getInt
    else if key = KEY_ERR_MESSAGE then errorMessage method code <$> value.getString
    else .error (.exception "Invalid request message")
  | findNodeRequest q => findNodeRequest <$> (q.parseField key value).getD (.ok q)
  | findPeerRequest q => findPeerRequest <$> (q.parseField key value).getD (.ok q)
  | findValueRequest q seq =>
    match q.parseField key value with
    | some r => (findValueRequest · seq) <$> r
    | none =>
      if key = KEY_REQ_SEQ then findValueRequest q <$> value.getInt
      else .error (.exception "Unknown field")
  | announcePeerRequest q => announcePeerRequest <$> q.parseField key value
  | storeValueRequest q => storeValueRequest <$> q.parseField B key value
  | findNodeResponse r => findNodeResponse <$> (r.parseField key value).getD (.ok r)
  | findPeerResponse r peers =>
    match r.parseField key value with
    | some r => (findPeerResponse · peers) <$> r
    | none => findPeerResponse r <$> parsePeers C peers key value
  | findValueResponse r v =>
    match r.parseField key value with
    | some r => (findValueResponse · v) <$> r
    | none => findValueResponse r <$> (v.parseField B Json.getInt key value).getD
        (.error (.exception "Unknown field"))
  | c => .ok c

/-- `parse(fieldName, object)` of the subclass. -/
def parse (C : Crypto) (B : Build) (self : Content) (fieldName : Text) (object : Json) :
    Except Fault Content :=
  match self.bodyKey with
  | none => .ok self
  | some (key, error) =>
    if fieldName ≠ key then .error (.exception error)
    else match object with
      | .obj fields => fields.foldlM (fun c f => c.parseField C B f.1 f.2) self
      | _ => .error (.exception error)

end Content

/-- What a new `AnnouncePeerRequest` has in its fields `token` and `port`, which have no
initialiser. -/
structure Stray where
  token : Int32
  port : UInt16

/-- `Message::Method::valueOf`. -/
def Method.valueOf (value : UInt8) : Except Fault Method :=
  match (value &&& 0x1f).toNat with
  | 0 => .ok .unknown
  | 1 => .ok .ping
  | 2 => .ok .findNode
  | 3 => .ok .announcePeer
  | 4 => .ok .findPeer
  | 5 => .ok .storeValue
  | 6 => .ok .findValue
  | _ => .error (.exception "Invalid message method")

/-- `Message::Type::valueOf`. -/
def MessageType.valueOf (value : UInt8) : Except Fault MessageType :=
  match (value &&& 0xe0).toNat with
  | 0x00 => .ok .err
  | 0x20 => .ok .request
  | 0x40 => .ok .response
  | _ => .error (.exception "Invalid message type")

/-- `Message::Method::createRequest`. -/
def Method.createRequest (stray : Stray) : Method → Except Fault Content
  | ping => .ok .pingRequest
  | findNode => .ok (.findNodeRequest {})
  | announcePeer => .ok (.announcePeerRequest { token := stray.token, port := stray.port })
  | findPeer => .ok (.findPeerRequest {})
  | storeValue => .ok (.storeValueRequest {})
  | findValue => .ok (.findValueRequest {} (-1))
  | unknown => .error (.exception "Invalid request method: 0")

/-- `Message::Method::createResponse`. -/
def Method.createResponse : Method → Except Fault Content
  | ping => .ok .pingResponse
  | findNode => .ok (.findNodeResponse {})
  | announcePeer => .ok .announcePeerResponse
  | findPeer => .ok (.findPeerResponse {} [])
  | storeValue => .ok .storeValueResponse
  | findValue => .ok (.findValueResponse {} {})
  | unknown => .error (.exception "Invalid response method: 0")

namespace Message

/-- `Message::createMessage`. -/
def createMessage (stray : Stray) (messageType : UInt8) : Except Fault Content := do
  let type ← MessageType.valueOf messageType
  let method ← Method.valueOf messageType
  match type with
  | .request => method.createRequest stray
  | .response => method.createResponse
  | .err => .ok (.errorMessage method 0 [])

/-- The body of the loop of `Message::parse`. -/
def parseField (C : Crypto) (B : Build) (self : Message) (field : Text × Json) :
    Except Fault Message :=
  if field.1 = KEY_TXID then (fun txid => { self with txid := txid }) <$> field.2.getInt
  else if field.1 = KEY_VERSION then (fun v => { self with version := v }) <$> field.2.getInt
  else if field.1 = KEY_REQUEST ∨ field.1 = KEY_RESPONSE ∨ field.1 = KEY_ERROR then
    (fun c => { self with content := c }) <$> self.content.parse C B field.1 field.2
  else .ok self

/-- The start of `Message::parse`: the type is read and a message is made. -/
def create (stray : Stray) (fields : List (Text × Json)) : Except Fault Message :=
  match fields.find? (·.1 = KEY_TYPE) with
  | none => .error (.exception "Invalid message: missing type field")
  | some (_, type) => do
    let messageType ← type.getNumber
    (fun c => { content := c }) <$> createMessage stray (UInt8.ofInt messageType)

/-- `Message::parse`, after the CBOR decoder. -/
def parse (C : Crypto) (B : Build) (stray : Stray) (root : Json) : Except Fault Message :=
  match root with
  | .obj fields => do
    let message ← create stray fields
    fields.foldlM (parseField C B) message
  | _ => .error (.exception "Invalid message: not a CBOR object")

end Message

end Boson
