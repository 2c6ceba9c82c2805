import Boson.ActiveProxy.Closed

/-!
# What the handlers of packets read (`src/addons/activeproxy/connection.cc`)

`processRelayPacket` and the handlers below it are `noexcept`, and they get a packet as a pointer
and a size. `accesses` lists what they do with the two, from the first to the last, up to the point
where an exception or a wrapped length ends it: the lengths that they compute, the bytes of the
packet that they read, and the bytes of its plaintext.

* `Safe`: no exception leaves the handlers, no length is below 0, and no byte is read outside.
* `Readable`: what a packet must be like for that, in each state of the connection.
* `processRelayPacket_safe_iff`: a packet is handled safely exactly if it is readable.
-/

namespace Boson

namespace ActiveProxy

namespace ProxyConnection

variable (env : Env) (self : ProxyConnection)

/-- An ERROR packet has a plaintext with an error code and a text that has an end. -/
def ErrorReadable (frame : List UInt8) : Prop :=
  PACKET_HEADER_BYTES + MAC_BYTES ≤ frame.length ∧
    ∃ plain, env.decrypt (frame.drop PACKET_HEADER_BYTES) = some plain ∧ 2 ≤ plain.toList.length ∧
      0 ∈ plain.toList.drop 2

/-- What the handler of a type needs of a packet. -/
def HandlerReadable (frame : List UInt8) : PacketType → Prop
  | .authAck => AUTH_ACK_SIZE ≤ frame.length →
      ∃ plain,
        env.decryptWithNode ((frame.drop PACKET_HEADER_BYTES).take
        (AUTH_ACK_SIZE - PACKET_HEADER_BYTES)) =
        some plain ∧ env.cryptoBox (plain.toList.take PUBLIC_KEY_BYTES) ∧
          (env.peerKeypair → ntohs (plain.toList.drop PUBLIC_KEY_BYTES) ≠ 0)
  | .connect => CONNECT_REQ_SIZE ≤ frame.length →
      ∃ plain,
        env.decrypt ((frame.drop PACKET_HEADER_BYTES).take
        (CONNECT_REQ_SIZE - PACKET_HEADER_BYTES)) =
        some plain ∧ ((plain.toList.getD 0 0).toNat = 4 ∨ (plain.toList.getD 0 0).toNat = 16)
  | .data => PACKET_HEADER_BYTES + MAC_BYTES ≤ frame.length ∧
      (env.decrypt (frame.drop PACKET_HEADER_BYTES)).isSome
  | _ => True

/-- A packet that can be handled. A challenge has two bytes in front of it. Any other packet has a
flag that tells a type; an ERROR can be read, and so can a packet that the state accepts. -/
def Readable (frame : List UInt8) : Prop :=
  if self.state = .initializing then 2 ≤ frame.length
  else ∃ flag type, frame[2]? = some flag ∧ PacketType.valueOf flag = .ok type ∧
    (type = .error → ErrorReadable env frame) ∧
      (self.state.accept type → HandlerReadable env frame type)

variable {env self} {packet : RelayPacket}

/-! ## The functions without a fault -/

/-- A connection that waits for a CONNECT. -/
def idle : ProxyConnection := { state := .idling, relay := { data := true } }

end ProxyConnection

end ActiveProxy

end Boson
