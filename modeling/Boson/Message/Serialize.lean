import Boson.Message.Print
import Mathlib.Data.List.Sort

/-!
# Writing messages (`Message::serialize` and the `serializeInternal` of its subclasses)

A message is written as a JSON object, which the CBOR encoder then turns into bytes. The fields of
an object are listed here in the order in which the source writes them, with `none` for a field that
it leaves out; `Json.object` brings them into the order in which a loop over the object meets them.

An optional field that is written without a check throws if it has no value (`valueOr`).
-/

namespace Boson

open FoldM

/-- `nlohmann::json::object`, which is a `std::map`: the fields that are written, in the order of
their keys. No key is written twice. -/
def Json.object (fields : List (Text × Option Json)) : Json :=
  .obj ((fields.insertionSort fun a b => a.1 ≤ b.1).filterMap fun f => f.2.map (f.1, ·))

/-- `to_json(json, Id)`. -/
def Id.toJson (self : Id) : Json := .bin self.bytes

/-- `to_json(json, NodeInfo)`. -/
def NodeInfo.toJson (self : NodeInfo) : Json :=
  .arr [self.nodeId.toJson, .bin self.sockaddr.inaddr, .int self.sockaddr.port.toNat]

/-- A sequence number is written if it is not negative. -/
def seqField (sequenceNumber : Int32) : Option Json :=
  if sequenceNumber ≥ 0 then some (.int sequenceNumber.toInt) else none

/-- The fields that `LookupRequest::serializeInternal` writes. -/
def LookupRequest.fields (self : LookupRequest) : List (Text × Option Json) :=
  [(KEY_REQ_TARGET, some self.target.toJson),
    (KEY_REQ_WANT, some (.int self.getWant))]

/-- `LookupResponse::serializeNodes`, for a list that is not empty. -/
def serializeNodes (nodes : List NodeInfo) : Option Json :=
  if nodes ≠ [] then some (.arr (nodes.map (·.toJson))) else none

/-- The fields that `LookupResponse::serializeInternal` writes. -/
def LookupResponse.fields (self : LookupResponse) : List (Text × Option Json) :=
  [(KEY_RES_NODES4, serializeNodes self.nodes4),
    (KEY_RES_NODES6, serializeNodes self.nodes6),
    (KEY_RES_TOKEN, if self.token ≠ 0 then some (.int self.token.toInt) else none)]

/-- The row of a peer in `FindPeerResponse::_serialize`. -/
def PeerInfo.toRow (self : PeerInfo) : Json :=
  .arr
    [self.nodeId.toJson,
      if self.isDelegated then self.origin.toJson else .null,
      .int self.port.toNat,
      (self.alternativeURL.map .str).getD .null,
      .bin self.signature]

/-- `FindPeerResponse::_serialize`: the id of the first peer stands for that of all. -/
def serializePeers : List PeerInfo → Option Json
  | [] => none
  | peer :: peers => some (.arr (peer.publicKey.toJson :: (peer :: peers).map (·.toRow)))

/-- `FindValueResponse::_serialize`. -/
def ValueFields.fields (self : ValueFields) : Except Fault (List (Text × Option Json)) :=
  let value := (KEY_RES_VALUE, if self.value ≠ [] then some (.bin self.value) else none)
  match self.publicKey with
  | none => .ok [value]
  | some publicKey => do
    let nonce ← valueOr self.nonce
    let signature ← valueOr self.signature
    return [
      (KEY_REQ_PUBLICKEY, some publicKey.toJson),
      (KEY_REQ_RECIPIENT, self.recipient.map (·.toJson)),
      (KEY_REQ_NONCE, some (.bin nonce.data)),
      (KEY_REQ_SEQ, seqField self.sequenceNumber),
      (KEY_REQ_SIGNATURE, some (.bin signature)),
      value]

/-- The fields that `StoreValueRequest::serializeInternal` writes. -/
def StoreValueRequest.fields (self : StoreValueRequest) :
    Except Fault (List (Text × Option Json)) :=
  let token := (KEY_REQ_TOKEN, some (.int self.token.toInt))
  let value := (KEY_RES_VALUE, some (.bin self.value))
  match self.publicKey with
  | none => .ok [token, value]
  | some publicKey => do
    let nonce ← valueOr self.nonce
    let signature ← valueOr self.signature
    return [
      token,
      (KEY_REQ_PUBLICKEY, some publicKey.toJson),
      (KEY_REQ_RECIPIENT, self.recipient.map (·.toJson)),
      (KEY_REQ_NONCE, some (.bin nonce.data)),
      (KEY_REQ_SIGNATURE, some (.bin signature)),
      (KEY_REQ_SEQ, seqField self.sequenceNumber),
      (KEY_REQ_CAS, seqField self.expectedSequenceNumber),
      value]

/-- The fields that `AnnouncePeerRequest::serializeInternal` writes. -/
def AnnouncePeerRequest.fields (self : AnnouncePeerRequest) : List (Text × Option Json) :=
  [(KEY_REQ_TOKEN, some (.int self.token.toInt)),
    (KEY_REQ_TARGET, some self.peerId.toJson),
    (KEY_REQ_PORT, some (.int self.port.toNat)),
    (KEY_REQ_SIGNATURE, some (.bin self.signature)),
    (KEY_REQ_PROXY_ID, self.nodeId.map (·.toJson)),
    (KEY_REQ_ALT, if self.alternativeURL ≠ [] then some (.str self.alternativeURL) else none)]

/-- The object that the subclass writes; `none` for a subclass that writes nothing. -/
def Content.serialize : Content → Except Fault (Option Json)
  | pingRequest | pingResponse | announcePeerResponse | storeValueResponse => .ok none
  | errorMessage _ code message =>
    .ok (some (.object [(KEY_ERR_CODE, some (.int code.toInt)),
      (KEY_ERR_MESSAGE, some (.str message))]))
  | findNodeRequest q | findPeerRequest q => .ok (some (.object q.fields))
  | findValueRequest q sequenceNumber =>
    .ok (some (.object (q.fields ++ [(KEY_REQ_SEQ, seqField sequenceNumber)])))
  | announcePeerRequest q => .ok (some (.object q.fields))
  | storeValueRequest q => (fun fields => some (.object fields)) <$> q.fields
  | findNodeResponse r => .ok (some (.object r.fields))
  | findPeerResponse r peers =>
    .ok (some (.object (r.fields ++ [(KEY_RES_PEERS, serializePeers peers)])))
  | findValueResponse r v => (fun fields => some (.object (r.fields ++ fields))) <$> v.fields

/-- `Message::Type`, as a number. -/
def MessageType.value : MessageType → UInt8
  | err => 0x00
  | request => 0x20
  | response => 0x40

/-- `Message::Method`, as a number. -/
def Method.value : Method → UInt8
  | unknown => 0x00
  | ping => 0x01
  | findNode => 0x02
  | announcePeer => 0x03
  | findPeer => 0x04
  | storeValue => 0x05
  | findValue => 0x06

/-- `Message::getKeyString`. -/
def MessageType.keyString : MessageType → Text
  | err => KEY_ERROR
  | request => KEY_REQUEST
  | response => KEY_RESPONSE

/-- `Message::serialize`, before the CBOR encoder. -/
def Message.serialize (self : Message) : Except Fault Json := do
  let body ← self.content.serialize
  return .object
    [(KEY_TYPE, some (.int (self.getType.value ||| self.getMethod.value).toNat)),
      (KEY_TXID, some (.int self.txid.toInt)),
      (KEY_VERSION, some (.int self.version.toInt)),
      (self.getType.keyString, body)]

/-- `AnnouncePeerRequest::setPeer`. -/
def AnnouncePeerRequest.setPeer (self : AnnouncePeerRequest) (peer : PeerInfo) :
    AnnouncePeerRequest :=
  { self with
    peerId := peer.publicKey
    nodeId := if peer.isDelegated then some peer.nodeId else self.nodeId
    port := peer.port
    alternativeURL := peer.alternativeURL.getD self.alternativeURL
    signature := peer.signature }

/-- `AnnouncePeerRequest(peer, token)`. -/
def AnnouncePeerRequest.ofPeer (stray : Stray) (peer : PeerInfo) (token : Int32) :
    AnnouncePeerRequest :=
  { ({ token := stray.token, port := stray.port } : AnnouncePeerRequest).setPeer
    peer with token := token }

/-- What the public interface makes of the fields of a value: `setValue`, any number of times. -/
inductive ValueFields.Built : ValueFields → Prop where
  | new : Built {}
  | setValue {v : ValueFields} (h : Built v) (value : Value) : Built (v.setValue value)

/-- What the constructors and the setters make of a message. The fields of a value are set together;
all other fields may have any value. -/
def Content.Built : Content → Prop
  | storeValueRequest q => q.toValueFields.Built
  | findValueResponse _ v => v.Built
  | _ => True

end Boson
