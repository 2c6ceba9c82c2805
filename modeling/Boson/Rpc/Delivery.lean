import Boson.Crypto.Contexts
import Boson.Message.Cbor
import Boson.Message.RoundTrip
import Boson.Rpc.Receive
import Boson.Rpc.SendQueue

/-!
# From node to node (`RPCServer::sendData`, `RPCServer::handlePacket`)

A message is written as JSON, encoded in CBOR, encrypted with the context for the receiver and put
behind the id of the sender. The receiver takes the id off, decrypts with its context for the
sender, decodes and parses.

* `Sender.delivered`: the receiver gets the message that was sent, as far as it is carried, under
  the sender's id.
-/

namespace Boson

namespace Keys

variable {S : NaCl}

/-- What `sendData` calls, after operations on the crypto cache of the node. -/
def encoder (self : Keys S) (ops : List (LoadingCache.Op Id Nat)) (now : Nat) : Encoder where
  toCbor json := json.toCbor.getD []
  encrypt := self.encrypt ops now

/-- What `handlePacket` calls, after operations on the crypto cache of the node. -/
def wire (self : Keys S) (ops : List (LoadingCache.Op Id Nat)) (now : Nat)
    (fromCbor : List UInt8 → Option Json) : Wire where
  decrypt := self.decrypt ops now
  fromCbor := fromCbor

end Keys

namespace Message

/-- The decoder gives back what the encoder made of the message. -/
def Decodes (self : Message) (fromCbor : List UInt8 → Option Json) : Prop :=
  ∀ json bytes, self.serialize = .ok json → json.toCbor = some bytes → fromCbor bytes = some json

/-- What the constructors and setters make of a message, that the code can print, and whose nodes
and peers it can read again. -/
structure Sound (C : Crypto) (B : Build) (m : Message) : Prop where
  built : m.content.Built
  peers : PeersAgree C m.content.peers
  nodes : ∀ n ∈ m.content.nodes, n.sockaddr.isValid = true
  printable : m.content.printable B

end Message

/-- What is carried of a content that can be printed can be printed. -/
theorem Content.Carried.printable {B : Build} {c read : Content} (h : c.Carried read)
    (hc : c.printable B) :
    read.printable B := by
  cases c with
  | storeValueRequest q =>
    obtain ⟨seq, -, rfl⟩ := h
    exact hc
  | findValueResponse r v =>
    obtain rfl := h
    exact hc
  | announcePeerRequest q =>
    obtain rfl := h
    exact hc
  | _ =>
    obtain rfl := h
    trivial

namespace Node

variable {C : Crypto} {B : Build} {P : Printer} {self : Node} {buf : List UInt8}
    {origin : SocketAddress}

/-- A message that can be printed is taken, with the id of its sender and the address it comes
from. -/
theorem accept_ok (self : Node) (buf : List UInt8) (sender : Id) (origin : SocketAddress)
    {msg : Message} (hprint : msg.content.printable B) :
    ∃ after, self.accept B P buf sender origin msg =
        .ok (.message { msg with id := sender, origin := origin }, after) ∧
      after.server.calls = self.server.calls ∧ after.dht4 = self.dht4 ∧ after.dht6 = self.dht6 ∧
      after.storage = self.storage := by
  obtain ⟨stats, hstats⟩ :=
    (self.stats.onReceivedBytes (UInt32.ofNat buf.length)).onReceivedMessage_ok msg
  obtain ⟨text, htext⟩ :=
    (toString_ok_iff (P := P) { msg with id := sender, origin := origin }).mpr hprint
  refine ⟨{ self with receivedMessages := self.receivedMessages + 1, stats := stats }, ?_, rfl,
    rfl, rfl, rfl⟩
  simp [accept, hstats, htext, Bind.bind, Except.bind, pure, Except.pure]

end Node

namespace Sender

variable {S : NaCl} {self : Sender} {msg : Addressed} {W : Encoder} {fd : Int32}
    {buffer : List UInt8}

/-- A packet is the id of its sender and what the message is encrypted to. -/
theorem packet_eq_ok (h : self.packet W msg = .ok (fd, buffer)) :
    ∃ json cipher, msg.toMessage.serialize = .ok json ∧
      W.encrypt msg.remoteId (W.toCbor json) = some cipher ∧
      buffer = msg.id.bytes ++ cipher := by
  obtain ⟨hvalid, hsocket, ⟨json, hjson, cipher, hcipher⟩⟩ := packet_ok_iff.mp ⟨_, h⟩
  obtain ⟨fd', hfd, hopen⟩ := hsocket
  refine ⟨json, cipher, hjson, hcipher, ?_⟩
  simp [packet, hvalid, hfd, hopen, hjson, hcipher, Bind.bind, Except.bind, pure, Except.pure,
    Functor.map, Except.map] at h
  exact h.2.symm

/-- What a node hands to `sendto` for another one, that one takes as the message that was sent,
under the id of the sender and as far as it is carried; its calls, routing tables and storage stay
as they were. The same message gives the same packet at any time. The crypto caches of both may have
gone through anything. -/
theorem delivered (hS : S.Lawful) (alice bob : Keys S) (opsA opsB : List (LoadingCache.Op Id Nat))
    (t t' : Nat) (fromCbor : List UInt8 → Option Json) (C : Crypto) (B : Build) (P : Printer)
    (stray : Stray) (sender : Sender) (msg : Addressed) (hid : msg.id = alice.id)
    (hremote : msg.remoteId = bob.id) (hmsg : msg.toMessage.Sound C B)
    (hcbor : msg.toMessage.Decodes fromCbor) (fd : Int32) (buffer : List UInt8)
    (hpacket : sender.packet (alice.encoder opsA t) msg = .ok (fd, buffer)) (receiver : Node)
    (origin : SocketAddress) :
    (∃ read after, receiver.receive (bob.wire opsB t' fromCbor) C B P stray buffer origin =
        .ok (.message
          { id := alice.id, origin, txid := msg.txid, version := msg.version, content := read },
          after) ∧
      msg.content.Carried read ∧ after.server.calls = receiver.server.calls ∧
        after.dht4 = receiver.dht4 ∧
      after.dht6 = receiver.dht6 ∧ after.storage = receiver.storage) ∧
    ∀ opsA' later, sender.packet (alice.encoder opsA' later) msg = .ok (fd, buffer) := by
  obtain ⟨json, cipher, hjson, hcipher, rfl⟩ := packet_eq_ok hpacket
  rw [hremote] at hcipher
  constructor
  · obtain ⟨bytes, hbytes⟩ := Message.encodes_serialize hjson
    obtain ⟨read, hread, hcarried, -⟩ :=
      parse_serialize C B stray msg.toMessage hmsg.built hmsg.peers hmsg.nodes
    have hparse : Message.parse C B stray json =
        .ok { txid := msg.txid, version := msg.version, content := read } := by
      rw [hjson] at hread
      exact hread
    have hplain : bob.decrypt opsB t' alice.id cipher = some bytes := by
      refine Keys.decrypt_encrypt hS opsA opsB t t' ?_
      rw [← hcipher]
      simp [Keys.encoder, hbytes]
    let taken : Message := { txid := msg.txid, version := msg.version, content := read }
    have hprint : taken.content.printable B := hcarried.printable hmsg.printable
    obtain ⟨after, hafter, hsame⟩ :=
      receiver.accept_ok (P := P) (msg.id.bytes ++ cipher) alice.id origin hprint
    refine ⟨read, after, ?_, hcarried, hsame⟩
    have hsender : senderOf (msg.id.bytes ++ cipher) = .ok alice.id := by
      simp [senderOf, hid, ID_BYTES, alice.id.size_eq]
    rw [Node.receive_of_sender hsender, Node.receiveFrom]
    have hdrop : (msg.id.bytes ++ cipher).drop ID_BYTES = cipher := by
      simp [ID_BYTES, msg.id.size_eq]
    simp only [Keys.wire, hdrop, hplain, Wire.parse, hcbor json bytes hjson hbytes, hparse]
    exact hafter
  · intro opsA' later
    rw [← hpacket]
    have hsame : alice.encoder opsA' later = alice.encoder opsA t := by
      simp only [Keys.encoder, Encoder.mk.injEq, true_and]
      funext recipient plain
      simp only [Keys.encrypt, CryptoCache.get_run]
    rw [hsame]

end Sender

/-- A request for the nodes around an id. -/
def findNodeMessage : Addressed where
  id := (clearKeys 1).id
  txid := 7
  version := 3
  content := .findNodeRequest { target := Id.zero, want4 := true }
  remoteId := (clearKeys 2).id
  remoteAddr := .inet ⟨[203, 0, 113, 7], rfl⟩ 39001

/-- Its JSON. -/
def findNodeJson : Json :=
  .obj [(KEY_REQUEST, .obj [(KEY_REQ_TARGET, Id.zero.toJson), (KEY_REQ_WANT, .int 1)]),
    (KEY_TXID, .int 7), (KEY_VERSION, .int 3), (KEY_TYPE, .int 0x22)]

theorem serialize_findNodeMessage : findNodeMessage.toMessage.serialize = .ok findNodeJson := rfl

/-- The receiver has used its context for the sender before, and lost it to a sweep. -/
theorem Sender.delivered_findNode :
    let W := (clearKeys 2).wire [.get (clearKeys 1).id 5, .handleExpiration 2000000] 2000001
      fun bytes => if findNodeJson.toCbor = some bytes then some findNodeJson else none
    ∃ fd buffer, ({ sock4 := 3, sock6 := -1 } : Sender).packet ((clearKeys 1).encoder [] 0)
        findNodeMessage = .ok (fd, buffer) ∧
      ∃ after, Node.bareNode.receive W ⟨fun _ => Id.zero, fun _ _ _ => false, fun s => s⟩ ⟨true⟩
          ⟨Id.bytes, SocketAddress.raw⟩ ⟨0, 0⟩ buffer (.inet ⟨[203, 0, 113, 9], rfl⟩ 39001) =
        .ok (.message { findNodeMessage.toMessage with
          origin := .inet ⟨[203, 0, 113, 9], rfl⟩ 39001 }, after) := by
  intro W
  have hsome : (({ sock4 := 3, sock6 := -1 } : Sender).packet ((clearKeys 1).encoder [] 0)
      findNodeMessage).toOption.isSome = true := by decide
  obtain ⟨⟨fd, buffer⟩, hpacket⟩ := Option.isSome_iff_exists.mp hsome
  rw [toOption_eq_some_iff] at hpacket
  refine ⟨fd, buffer, hpacket, ?_⟩
  have hmsg :
      findNodeMessage.toMessage.Sound ⟨fun _ => Id.zero, fun _ _ _ => false, fun s => s⟩ ⟨true⟩ :=
    ⟨trivial, ⟨by simp [findNodeMessage, Content.peers], by simp [findNodeMessage, Content.peers]⟩,
      by simp [findNodeMessage, Content.nodes], trivial⟩
  have hcbor : findNodeMessage.toMessage.Decodes
      fun bytes => if findNodeJson.toCbor = some bytes then some findNodeJson else none := by
    intro json bytes hjson hbytes
    rw [serialize_findNodeMessage] at hjson
    cases hjson
    simp [hbytes]
  obtain ⟨⟨read, after, hafter, hcarried, -⟩, -⟩ :=
    Sender.delivered lawful_clearNaCl (clearKeys 1) (clearKeys 2) []
    [.get (clearKeys 1).id 5, .handleExpiration 2000000] 0 2000001 _ _ _
      ⟨Id.bytes, SocketAddress.raw⟩ ⟨0, 0⟩ _
    findNodeMessage rfl rfl hmsg hcbor fd buffer hpacket Node.bareNode
      (.inet ⟨[203, 0, 113, 9], rfl⟩ 39001)
  obtain rfl := hcarried
  exact ⟨after, hafter⟩


end Boson
