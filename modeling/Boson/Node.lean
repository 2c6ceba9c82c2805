import Boson.KClosestNodes
import Boson.Lib.FoldM
import Boson.PeerStorage
import Boson.Rpc.Server
import Boson.Rpc.Statistics
import Boson.TokenManager
import Boson.ValueStorage

/-!
# The node (`src/core/node.cc`, `src/core/dht.cc`)

A node has a DHT for each address family that it is configured for, one storage and one token
manager. What the storage holds can be read back, and the buckets of a routing table partition the
ids: both are part of the types.

`sent` records what the node hands to its sockets.
-/

namespace Boson

/-- The storage: its two tables, whose rows can be read. -/
structure Storage where
  values : ValueTable := Table.empty
  peers : PeerTable := Table.empty
  values_ok : ∀ row ∈ values.rows, ∃ v, row.toValue = .ok v
  peers_ok : ∀ row ∈ peers.rows, row.Readable

namespace Storage

/-- A new storage. -/
def empty : Storage where
  values_ok := by simp [Table.empty]
  peers_ok := by simp [Table.empty]

/-- `getValue` of a storage does not throw. -/
theorem getValue_ok (self : Storage) (now : Nat) (valueId : Id) :
    ∃ v, self.values.getValue now valueId = .ok v := by
  unfold ValueTable.getValue
  split
  · next row hrow =>
    obtain ⟨hlookup, -⟩ := Option.filter_eq_some_iff.mp hrow
    obtain ⟨v, hv⟩ := self.values_ok row (Table.lookup_eq_some_iff.mp hlookup).1
    exact ⟨some v, by rw [hv]; rfl⟩
  · exact ⟨none, rfl⟩

theorem values_ok_put (self : Storage) {C : Crypto} {v : Value}
    (hv : v.isValid C = true) (now : Nat) (expectedSeq : Int32) (persistent announced : Bool) :
    ∀ row ∈ (self.values.putValue C now v expectedSeq persistent announced).2.rows,
      ∃ v, row.toValue = .ok v := by
  intro row hrow
  obtain ⟨e, -, hput⟩ | ⟨old, an, -, hput⟩ :=
    ValueTable.putValue_cases C self.values now v expectedSeq persistent announced
  · rw [hput] at hrow
    exact self.values_ok row hrow
  · rw [hput] at hrow
    have hread := ValueTable.toValue_ofValue (C := C) (v := v) (Value.data_ne_nil_of_isValid hv)
      persistent now an
    obtain hold | rfl | ⟨row₀, -, rfl⟩ := Table.mem_upsert hrow
    · exact self.values_ok row hold
    · exact ⟨v, hread⟩
    · exact ⟨v, hread⟩

theorem peers_ok_put (self : Storage) (now : Nat) (peer : PeerInfo) (persistent announced : Bool) :
    ∀ row ∈ (self.peers.putPeer now peer persistent announced).rows, row.Readable := by
  intro row hrow
  have hnew := PeerRow.readable_ofPeer peer persistent now (if announced then now else 0)
  obtain hold | rfl | ⟨row₀, -, rfl⟩ := Table.mem_upsert hrow
  · exact self.peers_ok row hold
  · exact hnew
  · exact hnew

/-- `putValue` of a value that was checked. -/
def putValue (self : Storage) (C : Crypto) (now : Nat) (value : Value)
    (hvalue : value.isValid C = true) (expectedSeq : Int32) : Except String Unit × Storage :=
  ((self.values.putValue C now value expectedSeq false false).1.map fun _ => (),
    { self with
      values := (self.values.putValue C now value expectedSeq false false).2
      values_ok := self.values_ok_put hvalue now expectedSeq false false })

/-- `putPeer`. -/
def putPeer (self : Storage) (now : Nat) (peer : PeerInfo) : Storage :=
  { self with
    peers := self.peers.putPeer now peer false false
    peers_ok := self.peers_ok_put now peer false false }

/-- `getPeer` of a storage does not throw, and finds something exactly if there is something. -/
theorem getPeer_ok (self : Storage) (C : Crypto) (R : RandomOrder) (now : Nat) (peerId : Id) :
    ∃ peers, self.peers.getPeer C R now peerId 8 = .ok peers ∧
      (peers = [] ↔ self.peers.liveRows now peerId = []) := by
  have hperm := R.perm (self.peers.liveRows now peerId)
  have hread : ∀ row ∈ (R.order (self.peers.liveRows now peerId)).take 8, ∃ p,
      row.toPeer C = .ok p := by
    intro row hrow
    have hmem := hperm.mem_iff.mp (List.mem_of_mem_take hrow)
    exact PeerRow.toPeer_of_readable C (self.peers_ok row (List.mem_of_mem_filter hmem))
  obtain ⟨peers, hpeers, hlen⟩ := FoldM.mapM_ok hread
  refine ⟨peers, hpeers, ?_⟩
  rw [← List.length_eq_zero_iff, hlen, List.length_take, hperm.length_eq, ← List.length_eq_zero_iff]
  omega

end Storage

/-- `DHT`, without its tasks. -/
structure DHT where
  addr : SocketAddress
  running : Bool := true
  routingTable : RoutingTable
  knownNodes : Table (Prod.fst : SocketAddress × Id → SocketAddress) := Table.empty
  table_ok : RoutingTable.Inv routingTable

/-- A message on its way out. -/
structure Outgoing where
  remoteId : Id
  remote : SocketAddress
  message : Message

/-- A response or an error. -/
def Outgoing.isReply (self : Outgoing) : Bool := self.message.getType ≠ .request

/-- `Node`, with its `RPCServer`. -/
structure Node where
  id : Id
  /-- `Version::build(NODE_SHORT_NAME, NODE_VERSION)`. -/
  version : Int32 := 0
  bootstrapNodes : List NodeInfo := []
  dht4 : Option DHT := none
  dht6 : Option DHT := none
  storage : Storage := Storage.empty
  tokenManager : TokenManager
  server : RPCServer
  receivedMessages : UInt64 := 0
  stats : RPCStatistics := {}
  sent : List Outgoing := []

end Boson
