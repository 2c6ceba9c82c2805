import Boson.Message.Json

/-!
# Counters (`src/core/rpcstatistics.*`)

The counters of packets. The arrays have their sizes in their types; an access is checked
against the size of its array, as the source does not do.

What is received and what is sent is counted in two parts, `RPCStatistics` and `SentStatistics`;
`ServerStatistics` is the class with both, the samples of the traffic and the counters of timeouts.
-/

namespace Boson

/-- `Method::ordinal`. -/
def Method.ordinal : Method → Nat
  | unknown => 0
  | ping => 1
  | findNode => 2
  | announcePeer => 3
  | findPeer => 4
  | storeValue => 5
  | findValue => 6

/-- `Type::ordinal`. -/
def MessageType.ordinal : MessageType → Nat
  | err => 0
  | request => 1
  | response => 2

/-- `METHOD_TOTAL`. -/
abbrev METHOD_TOTAL : Nat := 7

/-- `TYPE_TOTAL`. -/
abbrev TYPE_TOTAL : Nat := 3

/-- `array[i]`, changed. -/
def modifyAt {α : Type} {n : Nat} (array : Vector α n) (i : Nat) (f : α → Except Fault α) :
    Except Fault (Vector α n) :=
  if h : i < n then (array.set i ·) <$> f array[i] else .error .outOfBounds

/-- `counters[method.ordinal()][type.ordinal()]++`, as `onReceivedMessage` and `onSentMessage`
do. -/
def countMessage (counters : Vector (Vector UInt32 TYPE_TOTAL) METHOD_TOTAL) (msg : Message) :
    Except Fault (Vector (Vector UInt32 TYPE_TOTAL) METHOD_TOTAL) :=
  modifyAt counters msg.getMethod.ordinal fun row =>
    modifyAt row msg.getType.ordinal fun n => .ok (n + 1)

theorem modifyAt_ok {α : Type} {n : Nat} (array : Vector α n) {i : Nat} (hi : i < n)
    {f : α → Except Fault α} (hf : ∀ a, ∃ a', f a = .ok a') : ∃ array',
      modifyAt array i f = .ok array' := by
  obtain ⟨a, ha⟩ := hf array[i]
  refine ⟨array.set i a, ?_⟩
  simp only [modifyAt, dif_pos hi, ha]
  rfl

/-- The counter of a message is inside its array. -/
theorem countMessage_ok (counters : Vector (Vector UInt32 TYPE_TOTAL) METHOD_TOTAL)
    (msg : Message) :
    ∃ after, countMessage counters msg = .ok after := by
  have hmethod : msg.getMethod.ordinal < METHOD_TOTAL := by cases msg.getMethod <;> decide
  have htype : msg.getType.ordinal < TYPE_TOTAL := by cases msg.getType <;> decide
  exact modifyAt_ok counters hmethod fun row => modifyAt_ok row htype fun n => ⟨n + 1, rfl⟩

/-- `RPCStatistics`, the part that counts what is received. -/
structure RPCStatistics where
  receivedBytes : UInt32 := 0
  lastReceivedBytes : UInt32 := 0
  receivedMessages : Vector (Vector UInt32 TYPE_TOTAL) METHOD_TOTAL :=
    Vector.replicate METHOD_TOTAL (Vector.replicate TYPE_TOTAL 0)
  droppedPackets : UInt32 := 0
  droppedBytes : UInt32 := 0

namespace RPCStatistics

/-- `RPCStatistics::onReceivedBytes`. -/
def onReceivedBytes (self : RPCStatistics) (bytes : UInt32) : RPCStatistics :=
  { self with
    lastReceivedBytes := self.lastReceivedBytes + bytes
    receivedBytes := self.receivedBytes + bytes }

/-- `RPCStatistics::onDroppedPacket`. -/
def onDroppedPacket (self : RPCStatistics) (bytes : UInt32) : RPCStatistics :=
  { self with
    droppedPackets := self.droppedPackets + 1
    droppedBytes := self.droppedBytes + bytes }

/-- `RPCStatistics::onReceivedMessage`. -/
def onReceivedMessage (self : RPCStatistics) (msg : Message) : Except Fault RPCStatistics :=
  (fun counters => { self with receivedMessages := counters }) <$>
    modifyAt self.receivedMessages msg.getMethod.ordinal fun row =>
      modifyAt row msg.getType.ordinal fun n => .ok (n + 1)

/-- The counter of a received message is inside its array. -/
theorem onReceivedMessage_ok (self : RPCStatistics) (msg : Message) :
    ∃ stats, self.onReceivedMessage msg = .ok stats := by
  obtain ⟨counters, h⟩ := countMessage_ok self.receivedMessages msg
  refine ⟨{ self with receivedMessages := counters }, ?_⟩
  rw [countMessage] at h
  rw [onReceivedMessage, h]
  rfl

end RPCStatistics

/-- `RPCStatistics`, the part that counts what is sent. -/
structure SentStatistics where
  sentBytes : UInt32 := 0
  lastSentBytes : UInt32 := 0
  sentMessages : Vector (Vector UInt32 TYPE_TOTAL) METHOD_TOTAL :=
    Vector.replicate METHOD_TOTAL (Vector.replicate TYPE_TOTAL 0)

/-- `RPCStatistics::onSentBytes`. -/
def SentStatistics.onSentBytes (self : SentStatistics) (bytes : UInt32) : SentStatistics :=
  { self with
    lastSentBytes := self.lastSentBytes + bytes
    sentBytes := self.sentBytes + bytes }

/-- `RPCStatistics::onSentMessage`. -/
def SentStatistics.onSentMessage (self : SentStatistics) (msg : Message) :
    Except Fault SentStatistics :=
  (fun counters => { self with sentMessages := counters }) <$> countMessage self.sentMessages msg

/-- `RPCStatistics`, as a whole. -/
structure ServerStatistics extends RPCStatistics, SentStatistics where
  lastReceivedTimestamp : UInt64 := 0
  lastSentTimestamp : UInt64 := 0
  receivedBytesPerSec : UInt32 := 0
  sentBytesPerSec : UInt32 := 0
  /-- The array has one element for each type, and is indexed by methods. -/
  timeoutMessages : Vector UInt32 TYPE_TOTAL := Vector.replicate TYPE_TOTAL 0

end Boson
