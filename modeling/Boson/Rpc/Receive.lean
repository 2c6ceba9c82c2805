import Boson.Message.Print
import Boson.Node

/-!
# Receiving packets (`RPCServer::handlePacket`)

`receive` is the part of `handlePacket` before the dispatch. What it takes from elsewhere are the
decryption and the CBOR decoder (`Wire`); both may fail with an exception. `Message::parse` runs
inside of a `try`, the extraction of the sender's id and the debug output do not.

* `receive_clean_iff`: the packets that are dropped or give a message. All others are read past
  their end, fail an assertion, or throw out of `handlePacket`.
-/

namespace Boson

open FoldM

/-- What `handlePacket` calls: `node.decrypt` and `json::from_cbor`. `none` is an exception. -/
structure Wire where
  decrypt : Id → List UInt8 → Option (List UInt8)
  fromCbor : List UInt8 → Option Json

/-- What becomes of a packet. -/
inductive Received where
  | dropped
  | message (msg : Message)

/-- `Id sender({buf, ID_BYTES})`. -/
def senderOf (buf : List UInt8) : Except Fault Id :=
  match Id.ofBlob? (buf.take ID_BYTES) with
  | some id => .ok id
  | none => .error .outOfBounds

/-- `Message::parse`. -/
def Wire.parse (W : Wire) (C : Crypto) (B : Build) (stray : Stray) (plain : List UInt8) :
    Except Fault Message :=
  match W.fromCbor plain with
  | some root => Message.parse C B stray root
  | none => .error (.exception "parse error")

namespace Node

variable (W : Wire) (C : Crypto) (B : Build) (P : Printer) (stray : Stray)

/-- A packet is dropped. -/
def drop (self : Node) (buf : List UInt8) : Received × Node :=
  (.dropped, { self with stats := self.stats.onDroppedPacket (UInt32.ofNat buf.length) })

/-- `RPCServer::handlePacket` after the message is parsed and before it is dispatched. -/
def accept (self : Node) (buf : List UInt8) (sender : Id) (origin : SocketAddress) (msg : Message) :
    Except Fault (Received × Node) := do
  let stats ← (self.stats.onReceivedBytes (UInt32.ofNat buf.length)).onReceivedMessage msg
  let self := { self with receivedMessages := self.receivedMessages + 1, stats := stats }
  let msg := { msg with id := sender, origin := origin }
  -- the arguments of `log->debug` are evaluated whatever the log level is
  let _ ← msg.toString P B
  return (.message msg, self)

/-- `RPCServer::handlePacket` with the sender known. -/
def receiveFrom (self : Node) (buf : List UInt8) (sender : Id) (origin : SocketAddress) :
    Except Fault (Received × Node) :=
  match W.decrypt sender (buf.drop ID_BYTES) with
  | none => .ok (self.drop buf)
  | some plain =>
    match W.parse C B stray plain with
    | .error (.exception _) => .ok (self.drop buf)
    | .error fault => .error fault
    | .ok msg => self.accept B P buf sender origin msg

/-- `RPCServer::handlePacket` before the dispatch. -/
def receive (self : Node) (buf : List UInt8) (origin : SocketAddress) :
    Except Fault (Received × Node) := do
  let sender ← senderOf buf
  self.receiveFrom W C B P stray buf sender origin

/-- The packet is dropped or gives a message; the calls, the routing tables and the storage are as
they were. -/
def Clean (self : Node) (result : Except Fault (Received × Node)) : Prop :=
  ∃ received after, result = .ok (received, after) ∧ after.server.calls = self.server.calls ∧
    after.dht4 = self.dht4 ∧ after.dht6 = self.dht6 ∧ after.storage = self.storage

/-- A JSON that spoils its packet: the first field that does not fit is one whose reading is fatal,
or every field fits and the message cannot be printed. -/
def Spoils (B : Build) (stray : Stray) (root : Json) : Prop :=
  Message.parseFlaw B stray root = some .fatal ∨
    Message.parseFlaw B stray root = none ∧ ¬ Message.PrintableJson B stray root

variable {W C B P stray} {self : Node} {buf : List UInt8} {origin : SocketAddress} {sender : Id}

theorem senderOf_ok : (∃ sender, senderOf buf = .ok sender) ↔ ID_BYTES ≤ buf.length := by
  unfold senderOf Id.ofBlob?
  by_cases h : ID_BYTES ≤ buf.length
  · simp [h]
  · simp [h]

theorem bytes_of_senderOf (h : senderOf buf = .ok sender) : sender.bytes = buf.take ID_BYTES := by
  unfold senderOf Id.ofBlob? at h
  split_ifs at h
  cases h
  rfl

theorem receive_of_sender (h : senderOf buf = .ok sender) :
    self.receive W C B P stray buf origin = self.receiveFrom W C B P stray buf sender origin := by
  rw [receive, h]
  rfl

theorem clean_drop : self.Clean (.ok (self.drop buf)) := ⟨_, _, rfl, rfl, rfl, rfl, rfl⟩

theorem not_clean_error (fault : Fault) : ¬ self.Clean (.error fault) := by
  rintro ⟨r, after, h, -⟩
  cases h

theorem clean_accept (msg : Message) :
    self.Clean (self.accept B P buf sender origin msg) ↔ msg.content.printable B := by
  obtain ⟨stats, hstats⟩ :=
    (self.stats.onReceivedBytes (UInt32.ofNat buf.length)).onReceivedMessage_ok msg
  have hprint := toString_ok_iff (P := P) (B := B) { msg with id := sender, origin := origin }
  rw [← hprint]
  cases htext : Message.toString P B { msg with id := sender, origin := origin } with
  | error fault =>
    have haccept : self.accept B P buf sender origin msg = .error fault := by
      simp [accept, hstats, htext, Bind.bind, Except.bind]
    rw [haccept]
    exact iff_of_false (not_clean_error fault) (by simp)
  | ok text =>
    refine iff_of_true ?_ ⟨text, rfl⟩
    simp [Clean, accept, hstats, htext, Bind.bind, Except.bind, pure, Except.pure]

/-- With the sender known, a packet is kept, dropped or fatal as its JSON says. -/
theorem clean_receiveFrom :
    self.Clean (self.receiveFrom W C B P stray buf sender origin) ↔
      ∀ plain, W.decrypt sender (buf.drop ID_BYTES) = some plain →
        ∀ root, W.fromCbor plain = some root → ¬ Spoils B stray root := by
  unfold receiveFrom Wire.parse
  cases W.decrypt sender (buf.drop ID_BYTES) with
  | none => simp [clean_drop]
  | some plain =>
    simp only [Option.some.injEq, forall_eq']
    cases W.fromCbor plain with
    | none => simp [clean_drop]
    | some root =>
      have hflaw := Message.flaw_parse C B stray root
      simp only [Option.some.injEq, forall_eq', Spoils]
      cases hp : Message.parse C B stray root with
      | ok msg =>
        rw [hp] at hflaw
        simp only [← hflaw, failsAs_ok, reduceCtorEq, true_and, false_or, not_not]
        exact (clean_accept msg).trans (Message.parse_printable hp)
      | error fault =>
        rw [hp] at hflaw
        cases fault with
        | exception what => simp [← hflaw, Fault.flaw, clean_drop]
        | _ => simp [← hflaw, Fault.flaw, not_clean_error]

/-- A packet is dropped or gives a message exactly if it is long enough for the sender's id and its
JSON, if it comes to that, does not spoil it. -/
theorem receive_clean_iff (W : Wire) (C : Crypto) (B : Build) (P : Printer)
    (stray : Stray) (self : Node) (buf : List UInt8) (origin : SocketAddress) :
    self.Clean (self.receive W C B P stray buf origin) ↔
      ID_BYTES ≤ buf.length ∧ ∀ sender, Id.bytes sender = buf.take ID_BYTES →
        ∀ plain, W.decrypt sender (buf.drop ID_BYTES) = some plain →
        ∀ root, W.fromCbor plain = some root → ¬ Spoils B stray root := by
  by_cases hlen : ID_BYTES ≤ buf.length
  · obtain ⟨sender, hsender⟩ := senderOf_ok.mpr hlen
    have hbytes := bytes_of_senderOf hsender
    have huniq (s : Id) : s.bytes = buf.take ID_BYTES ↔ s = sender := by
      rw [← hbytes]
      cases s
      cases sender
      simp
    rw [receive_of_sender hsender]
    simp only [huniq, hlen, true_and, forall_eq]
    exact clean_receiveFrom
  · refine iff_of_false ?_ fun h => hlen h.1
    cases hsender : senderOf buf with
    | error fault =>
      rw [receive, hsender]
      exact not_clean_error fault
    | ok sender => exact absurd (senderOf_ok.mp ⟨sender, hsender⟩) hlen

/-- The JSON of a `STORE_VALUE` request with an owner and without a nonce. -/
def noNonce : Json :=
  .obj [(KEY_REQUEST, .obj [(KEY_REQ_PUBLICKEY, .bin (List.replicate 32 7)),
    (KEY_RES_VALUE, .bin [1])]), (KEY_TXID, .int 1), (KEY_TYPE, .int 0x25)]

/-- The same in CBOR. -/
def noNonceCbor : List UInt8 :=
  [0xa3, 0x61, 0x71, 0xa2, 0x61, 0x6b, 0x58, 0x20] ++ List.replicate 32 7 ++
    [0x61, 0x76, 0x41, 0x01, 0x61, 0x74, 0x01, 0x61, 0x79, 0x18, 0x25]

/-- A packet that is decrypted to it. -/
def noNonceWire : Wire where
  decrypt _ _ := some noNonceCbor
  fromCbor plain := if plain = noNonceCbor then some noNonce else none

/-- A node without a DHT. -/
def bareNode : Node where
  id := Id.zero
  tokenManager := { previousTimestamp := 0, sessionSecret := ⟨List.replicate 32 0, by simp⟩ }
  server := RPCServer.init 0 false 1

theorem spoils_noNonce (B : Build) : Spoils B ⟨0, 0⟩ noNonce := by
  refine .inr ⟨rfl, fun h => ?_⟩
  have howner := (h _ rfl).1 rfl
  cases howner.1

/-- The printing of a `STORE_VALUE` request with an owner and without a nonce throws out of
`handlePacket`. The packet has the id of its sender, the nonce and the tag of the encryption, and
the CBOR. -/
theorem not_clean_noNonce :
    ¬ bareNode.Clean (bareNode.receive noNonceWire
      ⟨fun _ => Id.zero, fun _ _ _ => false, fun s => s⟩ ⟨false⟩
      ⟨Id.bytes, SocketAddress.raw⟩ ⟨0, 0⟩ (List.replicate 32 5 ++ List.replicate (24 + 16 + 51) 9)
      (.inet ⟨[203, 0, 113, 7], rfl⟩ 39001)) := by
  have hsender : senderOf (List.replicate 32 5 ++ List.replicate (24 + 16 + 51) 9) =
      .ok ⟨List.replicate 32 5, rfl⟩ := rfl
  rw [receive_of_sender hsender, clean_receiveFrom]
  exact fun h => h noNonceCbor rfl noNonce (by simp [noNonceWire]) (spoils_noNonce _)

end Node

end Boson
