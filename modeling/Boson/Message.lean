import Boson.KBucket
import Boson.PeerInfo

/-!
# Messages (`src/core/messages/`)

The thirteen kinds of messages with their fields. `Content` has one constructor for each subclass of
`Message`, so the type and the method of a message (`getType`, `getMethod`) are those of its
subclass.

An absent optional field is `none`; the numbers that stand for an absent field are those of the
source (`-1` for a sequence number).
-/

namespace Boson

/-- `Message::Type`. -/
inductive MessageType where
  | err
  | request
  | response
  deriving DecidableEq, Repr

/-- `Message::Method`. -/
inductive Method where
  | unknown
  | ping
  | findNode
  | announcePeer
  | findPeer
  | storeValue
  | findValue
  deriving DecidableEq, Repr

/-- `LookupRequest`. -/
structure LookupRequest where
  target : Id := Id.zero
  want4 : Bool := false
  want6 : Bool := false
  wantToken : Bool := false
  deriving DecidableEq

/-- `LookupResponse`. -/
structure LookupResponse where
  nodes4 : List NodeInfo := []
  nodes6 : List NodeInfo := []
  token : Int32 := 0
  deriving DecidableEq

/-- `LookupResponse::getNodes`. -/
def LookupResponse.getNodes (self : LookupResponse) : Network → List NodeInfo
  | .ipv4 => self.nodes4
  | .ipv6 => self.nodes6

/-- The fields of a value in a message, as `StoreValueRequest` and `FindValueResponse` have them. -/
structure ValueFields where
  publicKey : Option Id := none
  recipient : Option Id := none
  nonce : Option Nonce := none
  signature : Option (List UInt8) := none
  sequenceNumber : Int32 := -1
  value : List UInt8 := []
  deriving DecidableEq

namespace ValueFields

/-- `StoreValueRequest::setValue` and `FindValueResponse::setValue`. -/
def setValue (self : ValueFields) (value : Value) : ValueFields :=
  if value.isMutable then
    { publicKey := value.publicKey
      nonce := value.nonce
      signature := value.signature
      sequenceNumber := value.sequenceNumber
      recipient := if value.isEncrypted then value.recipient else self.recipient
      value := value.data }
  else { self with value := value.data }

/-- `StoreValueRequest::getValue` and `FindValueResponse::getValue`. -/
def getValue (self : ValueFields) : Except String Value :=
  Value.of (Value.blobOf (self.publicKey.map (·.bytes))) []
    (Value.blobOf (self.recipient.map (·.bytes)))
    (Value.blobOf (self.nonce.map (·.data))) self.sequenceNumber
      (Value.blobOf self.signature) self.value

/-- `FindValueResponse::hasValue`. -/
def hasValue (self : ValueFields) : Bool := self.value ≠ []

end ValueFields

/-- `AnnouncePeerRequest`. -/
structure AnnouncePeerRequest where
  token : Int32
  peerId : Id := Id.zero
  nodeId : Option Id := none
  port : UInt16
  alternativeURL : List UInt8 := []
  signature : List UInt8 := []
  deriving DecidableEq

/-- `AnnouncePeerRequest::getPeer`, for a request of the node `id`. -/
def AnnouncePeerRequest.getPeer (self : AnnouncePeerRequest) (C : Crypto) (id : Id) :
    Except String PeerInfo :=
  PeerInfo.of C self.peerId.bytes [] (self.nodeId.getD id).bytes id.bytes self.port
    self.alternativeURL
    self.signature

/-- `StoreValueRequest`. -/
structure StoreValueRequest extends ValueFields where
  token : Int32 := 0
  expectedSequenceNumber : Int32 := -1
  deriving DecidableEq

/-- The subclasses of `Message`. -/
inductive Content where
  | errorMessage (method : Method) (code : Int32) (message : List UInt8)
  | pingRequest
  | pingResponse
  | findNodeRequest (q : LookupRequest)
  | findNodeResponse (r : LookupResponse)
  | announcePeerRequest (q : AnnouncePeerRequest)
  | announcePeerResponse
  | findPeerRequest (q : LookupRequest)
  | findPeerResponse (r : LookupResponse) (peers : List PeerInfo)
  | storeValueRequest (q : StoreValueRequest)
  | storeValueResponse
  | findValueRequest (q : LookupRequest) (sequenceNumber : Int32)
  | findValueResponse (r : LookupResponse) (v : ValueFields)
  deriving DecidableEq

/-- `Message`, as the receiver sees it: the sender's id and address come from the packet. -/
structure Message where
  id : Id := Id.zero
  origin : SocketAddress := .empty
  txid : Int32 := 0
  version : Int32 := 0
  content : Content
  deriving DecidableEq

namespace Message

/-- `Message::getType`. -/
def getType (self : Message) : MessageType :=
  match self.content with
  | .errorMessage .. => .err
  | .pingRequest | .findNodeRequest _ | .announcePeerRequest _ | .findPeerRequest _
  | .storeValueRequest _ | .findValueRequest .. => .request
  | .pingResponse | .findNodeResponse _ | .announcePeerResponse | .findPeerResponse ..
  | .storeValueResponse | .findValueResponse .. => .response

/-- `Message::getMethod`. -/
def getMethod (self : Message) : Method :=
  match self.content with
  | .errorMessage method .. => method
  | .pingRequest | .pingResponse => .ping
  | .findNodeRequest _ | .findNodeResponse _ => .findNode
  | .announcePeerRequest _ | .announcePeerResponse => .announcePeer
  | .findPeerRequest _ | .findPeerResponse .. => .findPeer
  | .storeValueRequest _ | .storeValueResponse => .storeValue
  | .findValueRequest .. | .findValueResponse .. => .findValue

/-- The `LookupResponse` part of a message, for the three subclasses that have one. -/
def lookupResponse? (self : Message) : Option LookupResponse :=
  match self.content with
  | .findNodeResponse r | .findPeerResponse r _ | .findValueResponse r _ => some r
  | _ => none

end Message

end Boson
