import Boson.PeerInfo
import Boson.Lib.Table

/-!
# The table of peers (`src/core/sqlite_storage.cc`)

`PeerRow` is a row of the table `peers`, whose key is the peer with its node and its origin.
`ORDER BY RANDOM()` is some permutation of the rows (`RandomOrder`).
-/

namespace Boson

/-- `Constants::MAX_PEER_AGE`, in milliseconds. -/
def MAX_PEER_AGE : Nat := 120 * 60 * 1000

/-- A row of the table `peers`. -/
structure PeerRow where
  id : Id
  nodeId : Id
  origin : Id
  persistent : Bool
  privateKey : Option (List UInt8)
  port : UInt16
  alternativeURL : Option (List UInt8)
  signature : List UInt8
  timestamp : Int
  announced : Int
  deriving DecidableEq

namespace PeerRow

/-- The primary key. -/
def key (self : PeerRow) : Id × Id × Id := (self.id, self.nodeId, self.origin)

/-- The row that `putPeer` binds to the statement. A text ends at its first zero byte. -/
def ofPeer (peer : PeerInfo) (persistent : Bool) (timestamp announced : Int) : PeerRow where
  id := peer.publicKey
  nodeId := peer.nodeId
  origin := peer.origin
  persistent := persistent
  privateKey := peer.privateKey.map (·.data)
  port := peer.port
  alternativeURL := peer.alternativeURL.map (·.takeWhile (· ≠ 0))
  signature := peer.signature
  timestamp := timestamp
  announced := announced

/-- The peer of a row, as `getPeer` reads it. -/
def toPeer (C : Crypto) (self : PeerRow) : Except String PeerInfo :=
  PeerInfo.of C self.id.bytes (self.privateKey.getD []) self.nodeId.bytes
    self.origin.bytes self.port
    (self.alternativeURL.getD []) self.signature

/-- The peer of a row, as `getPersistentPeers` reads it: the column `origin` is left out. -/
def toPersistentPeer (C : Crypto) (self : PeerRow) : Except String PeerInfo :=
  PeerInfo.of C self.id.bytes (self.privateKey.getD []) self.nodeId.bytes [] self.port
    (self.alternativeURL.getD []) self.signature

/-- The row is young enough for `getPeer`. -/
def isLive (self : PeerRow) (now : Nat) : Bool := (now : Int) - MAX_PEER_AGE ≤ self.timestamp

/-- A row that can be read. -/
def Readable (self : PeerRow) : Prop :=
  self.port ≠ 0 ∧ self.signature.length = SIGNATURE_BYTES ∧ ∀ sk, self.privateKey = some sk →
    sk.length = 64

theorem readable_ofPeer (peer : PeerInfo) (persistent : Bool) (timestamp announced : Int) :
    (ofPeer peer persistent timestamp announced).Readable := by
  refine ⟨peer.port_ok, peer.signature_ok, fun sk h => ?_⟩
  obtain ⟨key, -, rfl⟩ := Option.map_eq_some_iff.mp h
  exact key.size_eq

theorem privateKey_of_readable {row : PeerRow} (h : row.Readable) :
    ¬ (row.privateKey.getD [] ≠ [] ∧ (row.privateKey.getD []).length ≠ 64) := by
  cases hk : row.privateKey with
  | none => simp
  | some sk => simp [h.2.2 sk hk]

theorem toPeer_of_readable (C : Crypto) {row : PeerRow} (h : row.Readable) :
    ∃ peer, row.toPeer C = .ok peer := by
  simp only [toPeer, PeerInfo.of, Id.ofBlob?_bytes, privateKey_of_readable h]
  simp [h.1, h.2.1]

theorem toPersistentPeer_of_readable (C : Crypto) {row : PeerRow} (h : row.Readable) :
    ∃ peer, row.toPersistentPeer C = .ok peer := by
  simp only [toPersistentPeer, PeerInfo.of, Id.ofBlob?_bytes, privateKey_of_readable h]
  simp [h.1, h.2.1]

end PeerRow

/-- The table `peers`. -/
abbrev PeerTable := Table PeerRow.key

/-- The order that `RANDOM()` gives the rows of a query. -/
structure RandomOrder where
  order : List PeerRow → List PeerRow
  perm : ∀ rows, (order rows).Perm rows

namespace PeerTable

/-- The rows that `SELECT_PEER` finds. -/
def liveRows (self : PeerTable) (now : Nat) (peerId : Id) : List PeerRow :=
  self.rows.filter fun r => r.id = peerId && r.isLive now

/-- `SqliteStorage::getPeer(peerId, maxPeers)`. -/
def getPeer (self : PeerTable) (C : Crypto) (R : RandomOrder) (now : Nat) (peerId : Id)
    (maxPeers : Int) :
    Except String (List PeerInfo) :=
  let maxPeers := if maxPeers ≤ 0 then 0x7fffffff else maxPeers.toNat
  ((R.order (self.liveRows now peerId)).take maxPeers).mapM (·.toPeer C)

/-- The rows that `SELECT_PEER_WITH_SRC` finds. -/
def srcRows (self : PeerTable) (now : Nat) (peerId origin : Id) : List PeerRow :=
  self.rows.filter fun r => r.id = peerId && r.origin = origin && r.isLive now

/-- `SqliteStorage::getPeer(peerId, origin)`: the first row, in an order that the statement leaves
open. -/
def getPeerOf (self : PeerTable) (C : Crypto) (R : RandomOrder) (now : Nat) (peerId origin : Id) :
    Except String (Option PeerInfo) :=
  match (R.order (self.srcRows now peerId origin)).head? with
  | some row => (row.toPeer C).map some
  | none => .ok none

/-- The rows that `GET_PERSISTENT_PEERS` finds. The bound goes to the statement as an `int64_t`. -/
def persistentRows (self : PeerTable) (lastAnnounceBefore : Int) : List PeerRow :=
  self.rows.filter fun r => r.persistent && decide (r.announced ≤ lastAnnounceBefore)

/-- `SqliteStorage::getPersistentPeers`. -/
def getPersistentPeers (self : PeerTable) (C : Crypto) (lastAnnounceBefore : Int) :
    Except String (List PeerInfo) :=
  (self.persistentRows lastAnnounceBefore).mapM (·.toPersistentPeer C)

/-- `UPSERT_PEER`. -/
def upsertPeer (self : PeerTable) (row : PeerRow) : PeerTable :=
  self.upsert row (fun old => { row with id := old.id, nodeId := old.nodeId, origin := old.origin })
    fun _ => rfl

/-- `SqliteStorage::putPeer`. -/
def putPeer (self : PeerTable) (now : Nat) (peer : PeerInfo)
    (persistent updateLastAnnounce : Bool) :
    PeerTable :=
  self.upsertPeer (PeerRow.ofPeer peer persistent now (if updateLastAnnounce then now else 0))

/-- `SqliteStorage::putPeer` of a vector. -/
def putPeers (self : PeerTable) (now : Nat) (peers : List PeerInfo) : PeerTable :=
  peers.foldl (fun T peer => T.putPeer now peer false false) self

/-- `SqliteStorage::removePeer`. -/
def removePeer (self : PeerTable) (peerId origin : Id) : PeerTable :=
  self.deleteWhere fun r => r.id = peerId && r.origin = origin

/-- `SqliteStorage::updatePeerLastAnnounce`. -/
def updatePeerLastAnnounce (self : PeerTable) (now : Nat) (peerId origin : Id) : PeerTable :=
  self.updateWhere (fun r => r.id = peerId && r.origin = origin)
    (fun r => { r with timestamp := now, announced := now }) fun _ => rfl

/-- `SqliteStorage::expire`, for the peers. -/
def expire (self : PeerTable) (now : Nat) : PeerTable :=
  self.deleteWhere fun r => !r.persistent && decide (r.timestamp < (now : Int) - MAX_PEER_AGE)

/-- An operation on the table. -/
inductive Op where
  | putPeer (peer : PeerInfo) (persistent updateLastAnnounce : Bool)
  | putPeers (peers : List PeerInfo)
  | removePeer (peerId origin : Id)
  | updatePeerLastAnnounce (peerId origin : Id)
  | expire

/-- One operation at the time `now`. -/
def step (self : PeerTable) (now : Nat) : Op → PeerTable
  | .putPeer peer persistent updateLastAnnounce =>
    self.putPeer now peer persistent updateLastAnnounce
  | .putPeers peers => self.putPeers now peers
  | .removePeer peerId origin => self.removePeer peerId origin
  | .updatePeerLastAnnounce peerId origin => self.updatePeerLastAnnounce now peerId origin
  | .expire => self.expire now

/-- The peers that an operation writes. -/
def Op.peers : Op → List PeerInfo
  | .putPeer peer _ _ => [peer]
  | .putPeers peers => peers
  | _ => []

/-! ## The rows after an operation -/

variable {T : PeerTable} {now : Nat} {row : PeerRow}

theorem lookup_upsertPeer (T : PeerTable) (row : PeerRow) (k : Id × Id × Id) :
    (T.upsertPeer row).lookup k = if k = row.key then some row else T.lookup k := by
  refine (Table.lookup_upsert T row
    (fun old => { row with id := old.id, nodeId := old.nodeId, origin := old.origin }) _ k).trans ?_
  cases hold : T.lookup row.key with
  | none => rfl
  | some old =>
    have hkey := Table.lookup_key hold
    simp only [PeerRow.key, Prod.mk.injEq] at hkey
    simp only [Option.elim_some, hkey]

/-- The rows after a put are the row of the peer and old rows. -/
theorem mem_putPeer {peer : PeerInfo} {persistent updateLastAnnounce : Bool}
    (h : row ∈ (T.putPeer now peer persistent updateLastAnnounce).rows) :
    row ∈ T.rows ∨ row = PeerRow.ofPeer peer persistent now
      (if updateLastAnnounce then now else 0) := by
  rw [Table.mem_rows_iff, putPeer, lookup_upsertPeer] at h
  by_cases hkey : row.key =
      (PeerRow.ofPeer peer persistent now (if updateLastAnnounce then now else 0)).key
  · rw [if_pos hkey] at h
    exact .inr (Option.some.inj h).symm
  · rw [if_neg hkey] at h
    exact .inl (Table.mem_rows_iff.mpr h)

theorem ofPeer_mem_putPeer (T : PeerTable) (now : Nat) (peer : PeerInfo)
    (persistent updateLastAnnounce : Bool) :
    PeerRow.ofPeer peer persistent now (if updateLastAnnounce then now else 0) ∈
      (T.putPeer now peer persistent updateLastAnnounce).rows := by
  rw [Table.mem_rows_iff, putPeer, lookup_upsertPeer]
  exact if_pos rfl

/-- The rows after a put of several peers are rows of these and old rows. -/
theorem mem_putPeers {peers : List PeerInfo} (h : row ∈ (T.putPeers now peers).rows) :
    row ∈ T.rows ∨ ∃ peer ∈ peers, row = PeerRow.ofPeer peer false now 0 := by
  induction peers generalizing T with
  | nil => exact .inl h
  | cons peer peers ih =>
    obtain hmem | ⟨p, hp, hrow⟩ := ih h
    · obtain hold | hnew := mem_putPeer hmem
      · exact .inl hold
      · exact .inr ⟨peer, List.mem_cons_self, hnew⟩
    · exact .inr ⟨p, List.mem_cons_of_mem _ hp, hrow⟩

/-- The rows after an operation are old rows, but for their times, and rows of the peers that it
writes. -/
theorem mem_step {op : Op} (h : row ∈ (T.step now op).rows) :
    (∃ old ∈ T.rows, row = old ∨ row = { old with timestamp := now, announced := now }) ∨
      ∃ peer ∈ op.peers, ∃ persistent announced,
        row = PeerRow.ofPeer peer persistent now announced := by
  cases op with
  | putPeer peer persistent updateLastAnnounce =>
    obtain hold | hnew := mem_putPeer h
    · exact .inl ⟨row, hold, .inl rfl⟩
    · exact .inr ⟨peer, List.mem_singleton.mpr rfl, _, _, hnew⟩
  | putPeers peers =>
    obtain hold | ⟨peer, hpeer, hnew⟩ := mem_putPeers h
    · exact .inl ⟨row, hold, .inl rfl⟩
    · exact .inr ⟨peer, hpeer, _, _, hnew⟩
  | removePeer peerId origin => exact .inl ⟨row, List.mem_of_mem_filter h, .inl rfl⟩
  | updatePeerLastAnnounce peerId origin =>
    obtain ⟨old, hold, rfl⟩ := List.mem_map.mp h
    refine .inl ⟨old, hold, ?_⟩
    split_ifs
    · exact .inr rfl
    · exact .inl rfl
  | expire => exact .inl ⟨row, List.mem_of_mem_filter h, .inl rfl⟩

end PeerTable

end Boson
