import Boson.Lib.Framing
import Boson.Lib.Runs
import Boson.SocketAddress
import Mathlib.Algebra.Ring.Int.Defs
import Mathlib.Algebra.Ring.Nat
import Mathlib.Data.List.GetD

/-!
# The packets of a relay connection (`src/addons/activeproxy/connection.cc`, `packettype.h`)

A packet begins with its size, two bytes in network order, and a flag that tells its type.
`onRelayRead` gets what the relay server sends in pieces, as they come, and hands the packets to
`processRelayPacket`. What is left over stays in `stickyBuffer` until the next read. Nothing that
`processRelayPacket` does has an effect on the reader, so it is a parameter here.

The sizes of the sticky buffer are cast to `int` and compared with a `size_t`: `intOf` and `sizeOf`
are these conversions. A difference that does not fit an `int` is left out; it takes a sticky buffer
of 2^31 bytes.

* `onRelayRead_frames`: frames are handed on as they were sent, wherever the reads cut them.
* `onRelayRead_progress_iff`: a read ends, and leaves the connection closed or a sticky buffer that
  later reads can get out of, exactly if no header in the read declares the size 0 and no header
  that the reads cut declares less than 3, unless a packet before it closed the connection.
-/

namespace Boson

namespace ActiveProxy

/-- `PacketType`. -/
inductive PacketType where
  | auth
  | authAck
  | attach
  | attachAck
  | ping
  | pingAck
  | connect
  | connectAck
  | disconnect
  | disconnectAck
  | data
  | error
  deriving DecidableEq

/-- `PacketType::valueOf`. -/
def PacketType.valueOf (value : UInt8) : Except String PacketType :=
  let ack := value &&& 0x80 ≠ 0
  let type := value &&& 0x7F
  match (type >>> 4).toNat with
  | 0 =>
    if type ≤ 0x07 then .ok (if ack then .authAck else .auth)
    else .ok (if ack then .attachAck else .attach)
  | 1 => .ok (if ack then .pingAck else .ping)
  | 2 => .ok (if ack then .connectAck else .connect)
  | 3 => .ok (if ack then .disconnectAck else .disconnect)
  | 4 | 5 | 6 => if ack then .error "Should never happen: invalid flag" else .ok .data
  | 7 => if ack then .error "Should never happen: invalid flag" else .ok .error
  | _ => .error "Should never happen: invalid flag"

def PACKET_HEADER_BYTES : Nat := 3

/-- `ntohs(*(uint16_t*)ptr)`. -/
def ntohs (ptr : List UInt8) : Nat := 256 * (ptr.getD 0 0).toNat + (ptr.getD 1 0).toNat

/-- What `sendRelayPacket` writes: the size, cut to 16 bits, the flag, the payload and the random
padding. -/
def relayPacket (type : PacketType) (flag : UInt8) (payload padding : List UInt8) : List UInt8 :=
  let padding := if type = .auth ∨ type = .data ∨ type = .error then [] else padding
  SocketAddress.be16 (UInt16.ofNat (PACKET_HEADER_BYTES + payload.length + padding.length)) ++
    flag ::
    (payload ++ padding)

/-- What `processRelayPacket` gets: the memory from the packet on, and the size of the packet. -/
structure RelayPacket where
  memory : List UInt8
  size : Nat
  deriving DecidableEq

/-- The bytes of the packet. -/
def RelayPacket.bytes (self : RelayPacket) : List UInt8 := self.memory.take self.size

/-- A `size_t` as an `int`. -/
def intOf (n : Nat) : Int := Int.bmod n (2 ^ 32)

/-- An `int` as a `size_t`. -/
def sizeOf (i : Int) : Nat := (i % 2 ^ 64).toNat

/-- The part of a `ProxyConnection` that `onRelayRead` works on. -/
structure Reader (σ : Type) where
  connection : σ
  stickyBuffer : List UInt8 := []
  deriving DecidableEq

namespace Reader

variable {σ : Type} (process : σ → RelayPacket → σ)

/-- The loop of `onRelayRead` over the bytes that remain. -/
def readLoop : Nat → Reader σ → List UInt8 → Option (Reader σ)
  | 0, _, _ => none
  | fuel + 1, self, data =>
    if data.length = 0 then some self
    else if data.length < PACKET_HEADER_BYTES then
      some { self with stickyBuffer := self.stickyBuffer ++ data }
    else if data.length < ntohs data then some
      { self with stickyBuffer := self.stickyBuffer ++ data }
    else
      readLoop fuel { self with connection := process self.connection ⟨data, ntohs data⟩ }
        (data.drop (ntohs data))

/-- The end of `onRelayRead`. An iteration of the loop takes a byte at least, or it is repeated as
it is: `none` is a loop that does not end (`readLoop_none`). -/
def readRest (self : Reader σ) (data : List UInt8) : Option (Reader σ) :=
  readLoop process (data.length + 1) self data

/-- The part of `onRelayRead` that completes the packet in the sticky buffer, whose header is
there. -/
def readPacket (self : Reader σ) (data : List UInt8) : Option (Reader σ) :=
  let rs := (ntohs self.stickyBuffer : Int) - intOf self.stickyBuffer.length
  if data.length < sizeOf rs then some { self with stickyBuffer := self.stickyBuffer ++ data }
  else
    let packet := self.stickyBuffer ++ data.take (sizeOf rs)
    readRest process
      { connection := process self.connection ⟨packet, packet.length⟩
        stickyBuffer := [] }
      (data.drop (sizeOf rs))

/-- `ProxyConnection::onRelayRead`. -/
def onRelayRead (self : Reader σ) (data : List UInt8) : Option (Reader σ) :=
  if self.stickyBuffer.length > 0 then
    if self.stickyBuffer.length < PACKET_HEADER_BYTES then
      let rs := PACKET_HEADER_BYTES - self.stickyBuffer.length
      if data.length < rs then some { self with stickyBuffer := self.stickyBuffer ++ data }
      else readPacket process { self with stickyBuffer := self.stickyBuffer ++ data.take rs }
        (data.drop rs)
    else readPacket process self data
  else readRest process self data

/-- The reads, one after the other. -/
def readAll (self : Reader σ) (reads : List (List UInt8)) : Option (Reader σ) :=
  reads.foldlM (onRelayRead process) self

/-! ## Sizes -/

theorem intOf_of_lt {n : Nat} (h : n < 2 ^ 31) : intOf n = n := by
  unfold intOf
  exact Int.bmod_eq_of_le (by omega) (by omega)

theorem sizeOf_natCast {n : Nat} (h : n < 2 ^ 64) : sizeOf (n : Int) = n := by
  unfold sizeOf
  omega

theorem ntohs_lt (x : List UInt8) : ntohs x < 65536 := by
  have h0 := (x.getD 0 0).toNat_lt
  have h1 := (x.getD 1 0).toNat_lt
  unfold ntohs
  omega

theorem ntohs_append {x : List UInt8} (h : 2 ≤ x.length) (y : List UInt8) :
    ntohs (x ++ y) = ntohs x := by
  unfold ntohs
  rw [List.getD_append _ _ _ _ (by omega), List.getD_append _ _ _ _ (by omega)]

theorem headerBytes_eq : PACKET_HEADER_BYTES = 3 := rfl

/-- The size of a packet, once its header is there. No packet is shorter than its header. -/
def relayFraming : Framing UInt8 where
  size x :=
    if PACKET_HEADER_BYTES ≤ x.length ∧ PACKET_HEADER_BYTES ≤ ntohs x then some (ntohs x) else none
  size_append := by
    intro x n h y
    split_ifs at h with hx
    rw [headerBytes_eq] at hx
    rw [ntohs_append (by omega), if_pos, h]
    rw [List.length_append, headerBytes_eq]
    omega
  size_pos := by
    intro x n h
    split_ifs at h with hx
    cases h
    rw [headerBytes_eq] at hx
    omega

/-- The beginning of a packet, as far as it tells. -/
def Opens (x : List UInt8) : Prop := x.length < 2 ∨ PACKET_HEADER_BYTES ≤ ntohs x

variable {x y data : List UInt8}

/-- A rest that does not open a packet stays, whatever comes after it. -/
theorem cut_of_not_opens (h : ¬ Opens x) (y : List UInt8) : relayFraming.cut (x ++ y) = none := by
  rw [Opens, headerBytes_eq] at h
  refine Framing.cut_eq_none_iff.mpr fun n hn => ?_
  change (if _ then some _ else none) = some n at hn
  rw [ntohs_append (by omega), headerBytes_eq, if_neg (by omega)] at hn
  cases hn

/-- What opens packets does so up to any place. -/
theorem opens_of_append (h : Opens (relayFraming.deframe (x ++ y)).2) :
    Opens (relayFraming.deframe x).2 := by
  by_contra hno
  rw [Framing.deframe_append, Framing.deframe_of_none (cut_of_not_opens hno y)] at h
  rw [Opens, headerBytes_eq] at hno
  rw [Opens, headerBytes_eq, List.length_append, ntohs_append (by omega)] at h
  omega

/-! ## Frames -/

/-- `processRelayPacket`, as far as it uses the bytes of its packet only. -/
def onBytes (f : σ → List UInt8 → σ) (c : σ) (packet : RelayPacket) : σ := f c packet.bytes

variable {f : σ → List UInt8 → σ} {c : σ} {sticky : List UInt8}

/-- Without a whole packet in the bytes, or where the first one ends. -/
theorem cut_cases (hlen : PACKET_HEADER_BYTES ≤ x.length) (h : PACKET_HEADER_BYTES ≤ ntohs x) :
    relayFraming.cut x = if x.length < ntohs x then
      none else some (x.take (ntohs x), x.drop (ntohs x)) := by
  have hsize : relayFraming.size x = some (ntohs x) := if_pos ⟨hlen, h⟩
  split_ifs with hn
  · refine Framing.cut_eq_none_iff.mpr fun n hn' => ?_
    cases hsize.symm.trans hn'
    exact hn
  · exact Framing.cut_eq_some_iff.mpr ⟨_, hsize, by omega, rfl, rfl⟩

theorem cut_of_short (h : x.length < PACKET_HEADER_BYTES) : relayFraming.cut x = none := by
  refine Framing.cut_eq_none_iff.mpr fun n hn => ?_
  change (if _ then some _ else none) = some n at hn
  rw [if_neg (by omega)] at hn
  cases hn

/-- Bytes that open packets, with a header. -/
theorem header_of_opens (h : Opens (relayFraming.deframe x).2) (hlen : 2 ≤ x.length) :
    PACKET_HEADER_BYTES ≤ ntohs x := by
  by_contra hno
  have hcut := cut_of_not_opens (x := x) (by rw [Opens]; omega) []
  rw [List.append_nil] at hcut
  rw [Framing.deframe_of_none hcut] at h
  change x.length < 2 ∨ PACKET_HEADER_BYTES ≤ ntohs x at h
  omega

/-- The loop takes the packets off the bytes. -/
theorem readLoop_eq {fuel : Nat} (hfuel : data.length < fuel)
    (h : Opens (relayFraming.deframe data).2) :
    readLoop (onBytes f) fuel ⟨c, []⟩ data =
      some ⟨(relayFraming.deframe data).1.foldl f c, (relayFraming.deframe data).2⟩ := by
  induction fuel generalizing c data with
  | zero => omega
  | succ fuel ih =>
    rw [readLoop]
    split_ifs with h0 hshort hpart
    · rw [List.length_eq_zero_iff.mp h0, Framing.deframe_of_none (cut_of_short (by decide))]
      rfl
    · rw [Framing.deframe_of_none (cut_of_short hshort)]
      rfl
    · have hcut :=
        cut_cases (x := data) (by omega)
          (header_of_opens h (by rw [headerBytes_eq] at hshort; omega))
      rw [if_pos hpart] at hcut
      rw [Framing.deframe_of_none hcut]
      rfl
    · have hhead := header_of_opens h (by rw [headerBytes_eq] at hshort; omega)
      have hcut := cut_cases (x := data) (by omega) hhead
      rw [if_neg hpart] at hcut
      rw [Framing.deframe_of_some hcut] at h ⊢
      refine ih ?_ h
      rw [List.length_drop]
      rw [headerBytes_eq] at hhead
      omega

/-- What is missing of the packet in the sticky buffer. -/
theorem sizeOf_missing (hle : sticky.length ≤ ntohs sticky) :
    sizeOf ((ntohs sticky : Int) - intOf sticky.length) = ntohs sticky - sticky.length := by
  have hlt := ntohs_lt sticky
  rw [intOf_of_lt (by omega), ← Int.ofNat_sub hle]
  exact sizeOf_natCast (by omega)

/-- What comes after that packet. -/
theorem drop_ntohs (hle : sticky.length ≤ ntohs sticky) (data : List UInt8) :
    (sticky ++ data).drop (ntohs sticky) = data.drop (ntohs sticky - sticky.length) := by
  rw [List.drop_append, List.drop_of_length_le hle, List.nil_append]

/-- A read that completes the header in the sticky buffer. -/
theorem complete_header (sticky data : List UInt8) (hshort : sticky.length < PACKET_HEADER_BYTES)
    (hread : PACKET_HEADER_BYTES ≤ sticky.length + data.length) :
    sticky ++ data = (sticky ++ data.take (PACKET_HEADER_BYTES - sticky.length)) ++
        data.drop (PACKET_HEADER_BYTES - sticky.length) ∧
      (sticky ++ data.take (PACKET_HEADER_BYTES - sticky.length)).length = PACKET_HEADER_BYTES := by
  constructor
  · rw [List.append_assoc, List.take_append_drop]
  · rw [List.length_append, List.length_take]
    omega

/-- The packet in the sticky buffer is completed. -/
theorem readPacket_eq (hlen : PACKET_HEADER_BYTES ≤ sticky.length)
    (hsticky : sticky.length = PACKET_HEADER_BYTES ∨ sticky.length < ntohs sticky)
    (h : Opens (relayFraming.deframe (sticky ++ data)).2) :
    readPacket (onBytes f) ⟨c, sticky⟩ data =
      some ⟨(relayFraming.deframe (sticky ++ data)).1.foldl f c,
        (relayFraming.deframe (sticky ++ data)).2⟩ := by
  rw [headerBytes_eq] at hlen hsticky
  have hntohs : ntohs (sticky ++ data) = ntohs sticky := ntohs_append (by omega) data
  have hhead := header_of_opens h (by rw [List.length_append]; omega)
  have hcut := cut_cases (by rw [List.length_append, headerBytes_eq]; omega) hhead
  rw [headerBytes_eq, hntohs] at hhead
  have hle : sticky.length ≤ ntohs sticky := by omega
  rw [hntohs, List.length_append] at hcut
  unfold readPacket
  dsimp only
  rw [sizeOf_missing hle]
  split_ifs with hpart
  · rw [if_pos (by omega)] at hcut
    rw [Framing.deframe_of_none hcut]
    rfl
  · have htake : (sticky ++ data).take (ntohs sticky) =
        sticky ++ data.take (ntohs sticky - sticky.length) := by
      rw [List.take_append, List.take_of_length_le (by omega)]
    rw [if_neg (by omega), htake, drop_ntohs hle] at hcut
    rw [Framing.deframe_of_some hcut] at h ⊢
    have hbytes (memory : List UInt8) : (⟨memory, memory.length⟩ : RelayPacket).bytes = memory :=
      List.take_length
    rw [readRest, readLoop_eq (Nat.lt_succ_self _) h, onBytes, hbytes]
    rfl

/-- A read continues with what the last one left. -/
theorem onRelayRead_eq (hsticky : relayFraming.cut sticky = none) (hopens : Opens sticky)
    (h : Opens (relayFraming.deframe (sticky ++ data)).2) :
    onRelayRead (onBytes f) ⟨c, sticky⟩ data =
      some ⟨(relayFraming.deframe (sticky ++ data)).1.foldl f c,
        (relayFraming.deframe (sticky ++ data)).2⟩ := by
  unfold onRelayRead
  dsimp only
  split_ifs with hne hshort hpart
  · rw [Framing.deframe_of_none (cut_of_short (by rw [List.length_append]; omega))]
    rfl
  · obtain ⟨hsplit, hlen⟩ := complete_header sticky data (by omega) (by omega)
    rw [hsplit] at h ⊢
    exact readPacket_eq (Nat.le_of_eq hlen.symm) (.inl hlen) h
  · have hhead : PACKET_HEADER_BYTES ≤ ntohs sticky := by
      rw [headerBytes_eq] at hshort
      exact hopens.resolve_left (by omega)
    have hcut := cut_cases (by omega) hhead
    rw [hsticky] at hcut
    refine readPacket_eq (by omega) (.inr ?_) h
    by_contra hlt
    rw [if_neg hlt] at hcut
    cases hcut
  · have hnil : sticky = [] := List.length_eq_zero_iff.mp (by omega)
    subst hnil
    exact readLoop_eq (Nat.lt_succ_self _) h

/-- The reads up to a place, all together. -/
theorem readAll_eq (c : σ) (reads : List (List UInt8))
    (h : Opens (relayFraming.deframe reads.flatten).2) :
    readAll (onBytes f) ⟨c, []⟩ reads =
      some ⟨(relayFraming.deframe reads.flatten).1.foldl f c,
        (relayFraming.deframe reads.flatten).2⟩ := by
  induction reads using List.reverseRecOn with
  | nil =>
    rw [List.flatten_nil, Framing.deframe_of_none (cut_of_short (by decide))]
    rfl
  | append_singleton reads data ih =>
    rw [List.flatten_append, List.flatten_singleton] at h ⊢
    have hopens := opens_of_append h
    have hcut := relayFraming.cut_deframe_snd reads.flatten
    rw [Framing.deframe_append] at h ⊢
    rw [readAll, List.foldlM_append, ← readAll, ih hopens]
    change onRelayRead (onBytes f) _ data >>= some = _
    rw [onRelayRead_eq hcut hopens h, List.foldl_append]
    rfl

/-- A packet whose size field is its size. -/
def IsFrame (frame : List UInt8) : Prop :=
  ntohs frame = frame.length ∧ PACKET_HEADER_BYTES ≤ frame.length

theorem IsFrame.framing {frame : List UInt8} (h : IsFrame frame) : relayFraming.IsFrame frame := by
  change (if _ then some _ else none) = some _
  rw [h.1, if_pos ⟨h.2, h.2⟩]

/-- What `sendRelayPacket` writes is a frame, if its size fits the size field. -/
theorem isFrame_relayPacket (type : PacketType) (flag : UInt8) (payload padding : List UInt8)
    (h : (relayPacket type flag payload padding).length ≤ 65535) :
    IsFrame (relayPacket type flag payload padding) := by
  unfold relayPacket at h ⊢
  generalize (if type = .auth ∨ type = .data ∨ type = .error then [] else padding) = pad at h ⊢
  simp only [SocketAddress.be16, List.length_append, List.length_cons, List.length_nil] at h
  have hsize : (UInt16.ofNat (PACKET_HEADER_BYTES + payload.length + pad.length)).toNat =
      PACKET_HEADER_BYTES + payload.length + pad.length := by
    rw [headerBytes_eq]
    exact UInt16.toNat_ofNat_of_lt' (show _ < 65536 by omega)
  refine ⟨?_, ?_⟩
  · simp only [ntohs, SocketAddress.be16, List.cons_append, List.getD_cons_zero,
      List.getD_cons_succ,
      UInt16.toNat_toUInt8, UInt16.toNat_shiftRight, List.length_cons, List.length_append, hsize]
    rw [headerBytes_eq, Nat.shiftRight_eq_div_pow]
    simp only [UInt16.reduceToNat, Nat.reduceMod, Nat.reducePow, List.length_nil]
    omega
  · simp only [SocketAddress.be16, List.length_append, List.length_cons, List.length_nil,
      headerBytes_eq]
    omega

/-- A proper beginning of a frame is not complete, and it opens a packet. -/
theorem cut_of_initial {tail frame : List UInt8} (hframe : IsFrame frame)
    (hinitial : tail <+: frame)
    (hne : tail ≠ frame) : relayFraming.cut tail = none ∧ Opens tail := by
  obtain ⟨rest, rfl⟩ := hinitial
  have hrest : 0 < rest.length := List.length_pos_iff.mpr fun h => hne (by rw [h, List.append_nil])
  obtain ⟨hsize, hmin⟩ := hframe
  rw [List.length_append] at hsize
  by_cases hlen : tail.length < 2
  · exact ⟨cut_of_short (by rw [headerBytes_eq]; omega), .inl hlen⟩
  · rw [ntohs_append (by omega)] at hsize
    have hhead : PACKET_HEADER_BYTES ≤ ntohs tail := by rw [hsize, ← List.length_append]; exact hmin
    refine ⟨?_, .inr hhead⟩
    by_cases hshort : tail.length < PACKET_HEADER_BYTES
    · exact cut_of_short hshort
    · rw [cut_cases (by omega) hhead, if_pos (by omega)]

/-- Frames, and a proper beginning of one more, are handed to `processRelayPacket` as they were
sent, in whatever reads they come. What `sendRelayPacket` writes are such frames, if the sizes
fit. -/
theorem onRelayRead_frames (f : σ → List UInt8 → σ) (c : σ) (frames : List (List UInt8))
    (hframes : ∀ frame ∈ frames, IsFrame frame) (tail next : List UInt8) (hnext : IsFrame next)
    (htail : tail <+: next) (hne : tail ≠ next) (reads : List (List UInt8))
    (hreads : reads.flatten = frames.flatten ++ tail) :
    readAll (onBytes f) ⟨c, []⟩ reads = some ⟨frames.foldl f c, tail⟩ ∧
      ∀ type flag payload padding, (relayPacket type flag payload padding).length ≤ 65535 →
        IsFrame (relayPacket type flag payload padding) := by
  obtain ⟨hcut, hopens⟩ := cut_of_initial hnext htail hne
  have hdeframe : relayFraming.deframe reads.flatten = (frames, tail) := by
    rw [hreads]
    exact Framing.deframe_frames (fun frame hframe => (hframes frame hframe).framing) hcut
  refine ⟨?_, isFrame_relayPacket⟩
  rw [readAll_eq c reads (by rw [hdeframe]; exact hopens), hdeframe]

/-- Two packets, cut in the size field of the second, and the first byte of a third. -/
theorem onRelayRead_two :
    readAll (onBytes fun log bytes => log ++ [bytes]) ⟨[], []⟩ [[0, 3, 0x90, 0],
      [4, 0x30], [7, 0]] =
      some ⟨[[0, 3, 0x90], [0, 4, 0x30, 7]], [0]⟩ := by
  refine (onRelayRead_frames _ [] [[0, 3, 0x90], [0, 4, 0x30, 7]] ?_ [0]
    [0, 3, 0x90] ?_ ?_ ?_ _ ?_).1
  · intro frame hframe
    obtain rfl | rfl : frame = [0, 3, 0x90] ∨ frame = [0, 4, 0x30, 7] := by simpa using hframe
    · exact ⟨rfl, by decide⟩
    · exact ⟨rfl, by decide⟩
  · exact ⟨rfl, by decide⟩
  · exact ⟨[3, 0x90], rfl⟩
  · decide
  · rfl

/-! ## Progress -/

/-- The record of the packets that are processed. -/
def record : List (List UInt8) → RelayPacket → List (List UInt8) :=
  onBytes fun log bytes => log ++ [bytes]

/-- All further bytes are appended to the sticky buffer, and no packet is processed, as long as the
size of the buffer is an `int`. -/
def Stuck (sticky : List UInt8) : Prop :=
  ∀ reads : List (List UInt8), sticky.length + reads.flatten.length < 2 ^ 31 →
    readAll record ⟨[], sticky⟩ reads = some ⟨[], sticky ++ reads.flatten⟩

/-- The loop comes to the place in `data` where `rest` begins, with the packets before it
processed. -/
inductive Reaches : List UInt8 → List RelayPacket → List UInt8 → Prop where
  | here (data : List UInt8) : Reaches data [] data
  | packet {data rest : List UInt8} {packets : List RelayPacket}
    (hlen : PACKET_HEADER_BYTES ≤ data.length) (hsize : ntohs data ≤ data.length)
    (h : Reaches (data.drop (ntohs data)) packets rest) :
    Reaches data (⟨data, ntohs data⟩ :: packets) rest

/-- The loop comes to a header that declares the size 0. -/
def Endless (data : List UInt8) : Prop :=
  ∃ packets rest, Reaches data packets rest ∧ PACKET_HEADER_BYTES ≤ rest.length ∧ ntohs rest = 0

/-- Less than a packet: the loop appends it to the sticky buffer. -/
def Incomplete (rest : List UInt8) : Prop :=
  rest.length < PACKET_HEADER_BYTES ∨ rest.length < ntohs rest

/-- A sticky buffer that later reads complete to a packet. -/
def Resumable (sticky : List UInt8) : Prop :=
  sticky.length < 2 ∨ (PACKET_HEADER_BYTES ≤ ntohs sticky ∧ sticky.length < ntohs sticky)

/-- A sticky buffer with a header that declares less than itself. -/
def Doomed (sticky : List UInt8) : Prop := 2 ≤ sticky.length ∧ ntohs sticky < PACKET_HEADER_BYTES

section

-- the relay socket of the connection is closed: nothing is read from it any more
variable (closed : σ → Bool)

/-- The read ends. After it the connection is closed, or the reader is not stuck. -/
def Progresses (self : Reader σ) (data : List UInt8) : Prop :=
  ∃ after, onRelayRead process self data = some after ∧
    (closed after.connection = true ∨ ¬ Stuck after.stickyBuffer)

/-- No header that the loop comes to declares the size 0, and a header whose two size bytes end the
read declares a whole header at least, unless a packet before it closed the connection. -/
def LoopClean (c : σ) (data : List UInt8) : Prop :=
  ∀ packets rest, Reaches data packets rest → 2 ≤ rest.length →
    (PACKET_HEADER_BYTES ≤ rest.length → ntohs rest ≠ 0) ∧
      (rest.length < PACKET_HEADER_BYTES →
        PACKET_HEADER_BYTES ≤ ntohs rest ∨ closed (packets.foldl process c) = true)

/-- With something in the sticky buffer, the size that its header declares, once it is there, is a
whole header at least; and the loop over what comes after that packet is clean. -/
def Clean (self : Reader σ) (data : List UInt8) : Prop :=
  let bytes := self.stickyBuffer ++ data
  if self.stickyBuffer = [] then LoopClean process closed self.connection data
  else 2 ≤ bytes.length → PACKET_HEADER_BYTES ≤ ntohs bytes ∧
    (ntohs bytes ≤ bytes.length →
      LoopClean process closed
        (process self.connection ⟨bytes.take (ntohs bytes), ntohs bytes⟩)
        (bytes.drop (ntohs bytes)))

end

/-! ### The end of the loop -/

/-- Where the header declares the size 0, the loop does not end. -/
theorem readLoop_zero (hlen : PACKET_HEADER_BYTES ≤ data.length) (h : ntohs data = 0) (fuel : Nat)
    (self : Reader σ) : readLoop process fuel self data = none := by
  induction fuel generalizing self with
  | zero => rfl
  | succ fuel ih =>
    rw [headerBytes_eq] at hlen
    rw [readLoop, if_neg (by omega), if_neg (by rw [headerBytes_eq]; omega), if_neg (by omega), h,
      List.drop_zero]
    exact ih _

theorem readLoop_packet (hlen : PACKET_HEADER_BYTES ≤ data.length)
    (hsize : ntohs data ≤ data.length) (fuel : Nat) (self : Reader σ) :
    readLoop process (fuel + 1) self data =
      readLoop process fuel { self with connection := process self.connection ⟨data, ntohs data⟩ }
        (data.drop (ntohs data)) := by
  rw [headerBytes_eq] at hlen
  rw [readLoop, if_neg (by omega), if_neg (by rw [headerBytes_eq]; omega), if_neg (by omega)]

theorem readLoop_incomplete {rest : List UInt8} (h : Incomplete rest) (fuel : Nat) (c : σ) :
    readLoop process (fuel + 1) ⟨c, []⟩ rest = some ⟨c, rest⟩ := by
  rw [readLoop]
  split_ifs with h0 hshort hpart
  · rw [List.length_eq_zero_iff.mp h0]
  · rfl
  · rfl
  · obtain h | h := h <;> contradiction

/-- An endless loop, with any fuel. -/
theorem readLoop_endless (h : Endless data) (fuel : Nat) (self : Reader σ) :
    readLoop process fuel self data = none := by
  obtain ⟨packets, rest, hreach, hlen, hzero⟩ := h
  induction hreach generalizing fuel self with
  | here data => exact readLoop_zero process hlen hzero fuel self
  | packet hmin hsize hreach ih =>
    cases fuel with
    | zero => rfl
    | succ fuel => rw [readLoop_packet process hmin hsize, ih _ _ hlen hzero]

/-- Where the loop comes to less than a packet, it has processed what is before. -/
theorem readLoop_reaches {packets : List RelayPacket} {rest : List UInt8}
    (h : Reaches data packets rest) (hend : Incomplete rest) {fuel : Nat}
    (hfuel : data.length < fuel)
    (c : σ) : readLoop process fuel ⟨c, []⟩ data = some ⟨packets.foldl process c, rest⟩ := by
  induction h generalizing fuel c with
  | here data =>
    obtain ⟨fuel, rfl⟩ := Nat.exists_eq_succ_of_ne_zero (n := fuel) (by omega)
    exact readLoop_incomplete process hend fuel c
  | @packet data rest packets hlen hsize h ih =>
    obtain ⟨fuel, rfl⟩ := Nat.exists_eq_succ_of_ne_zero (n := fuel) (by omega)
    by_cases hzero : ntohs data = 0
    · -- such a header is repeated for ever, and the loop would not come to `rest`
      have hsome := ih hend (Nat.lt_succ_self _) c
      rw [hzero, List.drop_zero, readLoop_zero process hlen hzero] at hsome
      cases hsome
    · rw [readLoop_packet process hlen hsize]
      refine ih hend ?_ _
      rw [List.length_drop]
      rw [headerBytes_eq] at hlen
      omega

/-- The loop comes to a header of the size 0, or to less than a packet. -/
theorem endless_or_reaches (data : List UInt8) :
    Endless data ∨ ∃ packets rest, Reaches data packets rest ∧ Incomplete rest := by
  by_cases hend : Incomplete data
  · exact .inr ⟨[], data, .here data, hend⟩
  obtain ⟨hlen, hsize⟩ := not_or.mp hend
  by_cases hzero : ntohs data = 0
  · exact .inl ⟨[], data, .here data, Nat.le_of_not_lt hlen, hzero⟩
  have hshorter : (data.drop (ntohs data)).length < data.length := by
    rw [headerBytes_eq] at hlen
    rw [List.length_drop]
    omega
  obtain ⟨packets, rest, hreach, hrest⟩ | ⟨packets, rest, hreach, hrest⟩ :=
    endless_or_reaches (data.drop (ntohs data))
  · exact .inl ⟨_, rest, .packet (Nat.le_of_not_lt hlen) (Nat.le_of_not_lt hsize) hreach, hrest⟩
  · exact .inr ⟨_, rest, .packet (Nat.le_of_not_lt hlen) (Nat.le_of_not_lt hsize) hreach, hrest⟩
termination_by data.length

/-- A loop that does not end with the fuel of `readRest` does not end at all. -/
theorem readLoop_none {c : σ} (h : readRest process ⟨c, []⟩ data = none) (fuel : Nat) (c' : σ) :
    readLoop process fuel ⟨c', []⟩ data = none := by
  obtain hendless | ⟨packets, rest, hreach, hend⟩ := endless_or_reaches data
  · exact readLoop_endless process hendless fuel _
  · cases h.symm.trans (readLoop_reaches process hreach hend (Nat.lt_succ_self _) c)

/-- What the loop leaves can be completed, or it is a cut header that declares too little. -/
theorem Incomplete.cases {rest : List UInt8} (h : Incomplete rest) :
    Resumable rest ∨ (Doomed rest ∧ rest.length = 2) := by
  rw [Incomplete, headerBytes_eq] at h
  rw [Resumable, Doomed, headerBytes_eq]
  omega

theorem Resumable.not_doomed {sticky : List UInt8} (h : Resumable sticky) : ¬ Doomed sticky := by
  rw [Resumable] at h
  rw [Doomed]
  omega

/-- What the loop leaves decides whether it is clean. -/
theorem loopClean_iff (closed : σ → Bool) (c : σ) {packets : List RelayPacket} {rest : List UInt8}
    (hreach : Reaches data packets rest) (hend : Incomplete rest) :
    LoopClean process closed c data ↔ closed (packets.foldl process c) = true ∨ Resumable rest := by
  have hloop := readLoop_reaches process hreach hend (Nat.lt_succ_self _) c
  constructor
  · intro h
    obtain hres | ⟨hdoomed, hlen⟩ := hend.cases
    · exact .inr hres
    · have hshort : rest.length < PACKET_HEADER_BYTES := by rw [hlen, headerBytes_eq]; decide
      obtain hsize | hclosed := (h packets rest hreach (Nat.le_of_eq hlen.symm)).2 hshort
      · exact absurd hsize (Nat.not_le.mpr hdoomed.2)
      · exact .inl hclosed
  · intro h packets' rest' hreach' hlen
    refine ⟨fun hmin hzero => ?_, fun hshort => ?_⟩
    · rw [readLoop_endless process ⟨packets', rest', hreach', hmin, hzero⟩] at hloop
      cases hloop
    · -- the loop ends at `rest'`, so this is what it leaves
      have hloop' := readLoop_reaches process hreach' (.inl hshort) (Nat.lt_succ_self _) c
      obtain ⟨hconnection, rfl⟩ := Reader.mk.inj (Option.some.inj (hloop'.symm.trans hloop))
      rw [hconnection]
      obtain hclosed | hres := h
      · exact .inr hclosed
      · exact .inl (hres.resolve_left (by omega)).1

/-! ### A doomed sticky buffer -/

theorem sizeOf_negative {n len : Nat} (hn : n < len) (hlen : len < 2 ^ 31) :
    2 ^ 63 ≤ sizeOf ((n : Int) - intOf len) := by
  rw [intOf_of_lt hlen]
  unfold sizeOf
  omega

/-- The packet in the sticky buffer is never complete, if it declares less than the buffer has. -/
theorem readPacket_doomed {self : Reader σ}
    (hsize : ntohs self.stickyBuffer < self.stickyBuffer.length)
    (hint : self.stickyBuffer.length < 2 ^ 31) (hdata : data.length < 2 ^ 63) :
    readPacket process self data =
      some { self with stickyBuffer := self.stickyBuffer ++ data } := by
  have := sizeOf_negative hsize hint
  unfold readPacket
  dsimp only
  rw [if_pos (by omega)]

/-- A read is appended to a sticky buffer that is doomed. -/
theorem onRelayRead_doomed {self : Reader σ} (h : Doomed self.stickyBuffer)
    (hint : self.stickyBuffer.length < 2 ^ 31) (hdata : data.length < 2 ^ 63) :
    onRelayRead process self data =
      some { self with stickyBuffer := self.stickyBuffer ++ data } := by
  obtain ⟨hlen, hsize⟩ := h
  rw [headerBytes_eq] at hsize
  unfold onRelayRead
  rw [if_pos (by omega)]
  dsimp only
  split_ifs with hshort hpart
  · rfl
  · rw [headerBytes_eq] at hshort hpart ⊢
    have hbuffer : (self.stickyBuffer ++ data.take (3 - self.stickyBuffer.length)).length = 3 := by
      rw [List.length_append, List.length_take]
      omega
    rw [readPacket_doomed]
    · dsimp only
      rw [List.append_assoc, List.take_append_drop]
    · dsimp only
      rw [ntohs_append hlen, hbuffer]
      exact hsize
    · dsimp only
      rw [hbuffer]
      decide
    · rw [List.length_drop]
      omega
  · rw [headerBytes_eq] at hshort
    exact readPacket_doomed process (by omega) hint hdata

theorem Doomed.append (h : Doomed sticky) (data : List UInt8) : Doomed (sticky ++ data) := by
  refine ⟨?_, ?_⟩
  · have := h.1
    rw [List.length_append]
    omega
  · rw [ntohs_append h.1]
    exact h.2

theorem Doomed.stuck (h : Doomed sticky) : Stuck sticky := by
  intro reads hreads
  induction reads generalizing sticky with
  | nil =>
    rw [List.flatten_nil, List.append_nil]
    rfl
  | cons data reads ih =>
    rw [List.flatten_cons, List.length_append] at hreads
    have hread : onRelayRead record ⟨[], sticky⟩ data = some ⟨[], sticky ++ data⟩ :=
      onRelayRead_doomed record h (by dsimp only; omega) (by omega)
    rw [readAll, List.foldlM_cons, hread, List.flatten_cons, ← List.append_assoc]
    exact ih (h.append data) (by rw [List.length_append]; omega)

/-! ### A sticky buffer that can be completed -/

/-- The bytes that are missing. -/
theorem Resumable.exists_frame (h : Resumable sticky) :
    ∃ data, data ≠ [] ∧ IsFrame (sticky ++ data) ∧ sticky.length + data.length < 2 ^ 31 := by
  match sticky, h with
  | [], _ => exact ⟨[0, 3, 0], by simp, ⟨rfl, by decide⟩, by decide⟩
  | [a], _ =>
    -- the second byte of the size is free
    have ha := a.toNat_lt
    have hsize : ntohs ([a] ++ (3 :: List.replicate (256 * a.toNat + 1) 0)) = 256 * a.toNat + 3 :=
      rfl
    refine ⟨3 :: List.replicate (256 * a.toNat + 1) 0, by simp, ⟨?_, ?_⟩, ?_⟩
    · rw [hsize]
      simp
    · simp [headerBytes_eq]
    · simp
      omega
  | a :: b :: rest, h =>
    obtain hshort | ⟨hmin, hlen⟩ := h
    · rw [List.length_cons, List.length_cons] at hshort
      omega
    · have hlt := ntohs_lt (a :: b :: rest)
      refine ⟨List.replicate (ntohs (a :: b :: rest) - (a :: b :: rest).length) 0, ?_, ⟨?_, ?_⟩, ?_⟩
      · rw [ne_eq, List.replicate_eq_nil_iff]
        omega
      · rw [ntohs_append (by simp), List.length_append, List.length_replicate]
        omega
      · rw [List.length_append, List.length_replicate]
        omega
      · rw [List.length_replicate]
        omega

theorem Resumable.cut (h : Resumable sticky) : relayFraming.cut sticky = none ∧ Opens sticky := by
  obtain ⟨data, hne, hframe, -⟩ := h.exists_frame
  exact cut_of_initial hframe (List.prefix_append ..) (by simpa using hne)

theorem Resumable.not_stuck (h : Resumable sticky) : ¬ Stuck sticky := by
  intro hstuck
  obtain ⟨data, -, hframe, hint⟩ := h.exists_frame
  have hdeframe : relayFraming.deframe (sticky ++ data) = ([sticky ++ data], []) := by
    have hcut : relayFraming.cut [] = none := cut_of_short (by decide)
    have hall : ∀ frame ∈ [sticky ++ data], relayFraming.IsFrame frame := fun frame hf =>
      List.mem_singleton.mp hf ▸ hframe.framing
    have := Framing.deframe_frames hall hcut
    rwa [List.flatten_singleton, List.append_nil] at this
  have hends : Opens (relayFraming.deframe (sticky ++ data)).2 := by
    rw [hdeframe]
    exact .inl Nat.two_pos
  have hread :=
    onRelayRead_eq (f := fun log bytes => log ++ [bytes]) (c := []) h.cut.1 h.cut.2 hends
  have happend := hstuck [data] (by rwa [List.flatten_singleton])
  rw [readAll, List.foldlM_cons, record, hread, hdeframe] at happend
  simp at happend

/-! ### A read -/

theorem Resumable.length_lt (h : Resumable sticky) : sticky.length < 65536 := by
  have := ntohs_lt sticky
  obtain h | ⟨-, h⟩ := h <;> omega

section

variable (closed : σ → Bool)

/-- How a read comes out: if it is clean, it ends, with the connection closed or with a sticky
buffer that can be completed; else it does not end, or it leaves an open connection with a sticky
buffer that is doomed. -/
def Settles (outcome : Option (Reader σ)) (clean : Prop) : Prop :=
  (clean ∧ ∃ after, outcome = some after ∧
    (closed after.connection = true ∨ Resumable after.stickyBuffer)) ∨
  (¬ clean ∧ ∀ after, outcome = some after →
    closed after.connection = false ∧ Doomed after.stickyBuffer)

theorem Settles.congr {closed : σ → Bool} {outcome : Option (Reader σ)} {p q : Prop}
    (h : Settles closed outcome p) (hpq : p ↔ q) : Settles closed outcome q := by
  rwa [Settles, ← hpq]

theorem readRest_settles (c : σ) (data : List UInt8) :
    Settles closed (readRest process ⟨c, []⟩ data) (LoopClean process closed c data) := by
  obtain hendless | ⟨packets, rest, hreach, hend⟩ := endless_or_reaches data
  · obtain ⟨packets, rest, hreach, hmin, hzero⟩ := hendless
    refine .inr ⟨fun hclean => ?_, fun after hafter => ?_⟩
    · rw [headerBytes_eq] at hmin
      exact (hclean packets rest hreach (by omega)).1 hmin hzero
    · cases (readLoop_endless process ⟨packets, rest, hreach, hmin, hzero⟩ _ _).symm.trans hafter
  · have hloop : readRest process ⟨c, []⟩ data = some ⟨packets.foldl process c, rest⟩ :=
      readLoop_reaches process hreach hend (Nat.lt_succ_self _) c
    rw [hloop, Settles, loopClean_iff process closed c hreach hend]
    by_cases hgood : closed (packets.foldl process c) = true ∨ Resumable rest
    · exact .inl ⟨hgood, _, rfl, hgood⟩
    · obtain ⟨hopen, hres⟩ := not_or.mp hgood
      refine .inr ⟨hgood, fun after hafter => ?_⟩
      cases hafter
      exact ⟨Bool.eq_false_iff.mpr hopen, (hend.cases.resolve_left hres).1⟩

/-- The packet in the sticky buffer, whose header is there. -/
theorem readPacket_settles {c : σ} (hopen : closed c = false)
    (hlen : PACKET_HEADER_BYTES ≤ sticky.length) (hsticky : sticky.length = PACKET_HEADER_BYTES ∨
      (sticky.length < ntohs sticky ∧ sticky.length < 65536))
    (hdata : data.length < 2 ^ 63) :
    Settles closed (readPacket process ⟨c, sticky⟩ data) (PACKET_HEADER_BYTES ≤ ntohs sticky ∧
      (ntohs sticky ≤ (sticky ++ data).length →
        LoopClean process closed
          (process c ⟨(sticky ++ data).take (ntohs sticky), ntohs sticky⟩)
          ((sticky ++ data).drop (ntohs sticky)))) := by
  rw [headerBytes_eq] at hlen hsticky ⊢
  by_cases hmin : 3 ≤ ntohs sticky
  · have hle : sticky.length ≤ ntohs sticky := by omega
    rw [List.length_append]
    unfold readPacket
    dsimp only
    rw [sizeOf_missing hle]
    split_ifs with hpart
    · have hres : Resumable (sticky ++ data) := by
        refine .inr ?_
        rw [ntohs_append (by omega), List.length_append, headerBytes_eq]
        omega
      exact .inl ⟨⟨hmin, fun h => by omega⟩, _, rfl, .inr hres⟩
    · have htake : (sticky ++ data).take (ntohs sticky) =
          sticky ++ data.take (ntohs sticky - sticky.length) := by
        rw [List.take_append, List.take_of_length_le hle]
      have hsize : (sticky ++ data.take (ntohs sticky - sticky.length)).length = ntohs sticky := by
        rw [List.length_append, List.length_take]
        omega
      refine (readRest_settles process closed _ _).congr ?_
      rw [drop_ntohs hle, htake, hsize, and_iff_right hmin]
      exact ⟨fun h _ => h, fun h => h (by omega)⟩
  · have hdoomed : Doomed sticky := ⟨by omega, by rw [headerBytes_eq]; omega⟩
    refine .inr ⟨fun h => hmin h.1, fun after hafter => ?_⟩
    rw [readPacket_doomed process (by dsimp only; omega) (by dsimp only; omega) hdata] at hafter
    cases hafter
    exact ⟨hopen, hdoomed.append data⟩

/-- A header that is not complete after the read. -/
theorem settles_of_short {c : σ} (hopen : closed c = false)
    (hlen : (sticky ++ data).length < PACKET_HEADER_BYTES) {clean : Prop} :
    Settles closed (some (⟨c, sticky ++ data⟩ : Reader σ)) (2 ≤ (sticky ++ data).length →
      PACKET_HEADER_BYTES ≤ ntohs (sticky ++ data) ∧
        (ntohs (sticky ++ data) ≤ (sticky ++ data).length → clean)) := by
  by_cases htwo : 2 ≤ (sticky ++ data).length
  · by_cases hmin : PACKET_HEADER_BYTES ≤ ntohs (sticky ++ data)
    · exact .inl ⟨fun _ => ⟨hmin, fun h => by omega⟩, _, rfl,
        .inr (.inr ⟨hmin, by dsimp only; omega⟩)⟩
    · refine .inr ⟨fun h => hmin (h htwo).1, fun after hafter => ?_⟩
      cases hafter
      exact ⟨hopen, htwo, Nat.lt_of_not_le hmin⟩
  · exact .inl ⟨fun h => absurd h htwo, _, rfl, .inr (.inl (Nat.lt_of_not_le htwo))⟩

theorem onRelayRead_settles {c : σ} (hopen : closed c = false) (hsticky : Resumable sticky)
    (hdata : data.length < 2 ^ 63) :
    Settles closed (onRelayRead process ⟨c, sticky⟩ data)
      (Clean process closed ⟨c, sticky⟩ data) := by
  unfold onRelayRead Clean
  dsimp only
  by_cases hnil : sticky = []
  · subst hnil
    exact readRest_settles process closed c data
  have hpos : 0 < sticky.length := List.length_pos_iff.mpr hnil
  rw [if_pos hpos, if_neg hnil]
  split_ifs with hshort hpart
  · refine settles_of_short closed hopen ?_
    rw [List.length_append]
    omega
  · obtain ⟨hsplit, hlen⟩ := complete_header sticky data (by omega) (by omega)
    have htwo : 2 ≤ (sticky ++ data).length := by
      rw [headerBytes_eq] at hpart
      rw [List.length_append]
      omega
    refine (readPacket_settles process closed hopen (Nat.le_of_eq hlen.symm) (.inl hlen)
      (by rw [List.length_drop]; omega)).congr ?_
    rw [← hsplit, forall_prop_of_true htwo]
    have hntohs := ntohs_append (by rw [hlen]; decide)
      (data.drop (PACKET_HEADER_BYTES - sticky.length))
    rw [← hsplit] at hntohs
    rw [hntohs]
  · rw [headerBytes_eq] at hshort
    have hres : PACKET_HEADER_BYTES ≤ ntohs sticky ∧ sticky.length < ntohs sticky :=
      hsticky.resolve_left (by omega)
    have htwo : 2 ≤ (sticky ++ data).length := by
      rw [List.length_append]
      omega
    refine (readPacket_settles process closed hopen (by rw [headerBytes_eq]; omega)
      (.inr ⟨hres.2, hsticky.length_lt⟩) hdata).congr ?_
    rw [forall_prop_of_true htwo, ntohs_append (by omega)]

/-- A read makes progress exactly if it is clean, and what it leaves then can go on. -/
theorem Settles.progresses {closed : σ → Bool} {self : Reader σ} {clean : Prop}
    (h : Settles closed (onRelayRead process self data) clean) :
    (Progresses process closed self data ↔ clean) ∧
      (clean → ∃ after, onRelayRead process self data = some after ∧
        (closed after.connection = true ∨ Resumable after.stickyBuffer)) := by
  obtain ⟨hclean, after, hafter, hgood⟩ | ⟨hclean, hdoomed⟩ := h
  · exact ⟨iff_of_true ⟨after, hafter, hgood.imp_right Resumable.not_stuck⟩ hclean,
      fun _ => ⟨after, hafter, hgood⟩⟩
  · refine ⟨iff_of_false ?_ hclean, fun h => absurd h hclean⟩
    rintro ⟨after, hafter, hprogress⟩
    obtain ⟨hopen, hdoomed⟩ := hdoomed after hafter
    obtain hclosed | hstuck := hprogress
    · cases hopen.symm.trans hclosed
    · exact hstuck hdoomed.stuck

end

/-! ### All reads -/

/-- A read of the relay socket: what happened to the connection since the last one, and what it
delivers. Its size is a `ssize_t`. -/
structure Delivery (σ : Type) where
  change : σ → σ
  data : List UInt8
  data_lt : data.length < 2 ^ 63

section

variable (closed : σ → Bool)

/-- The reader that a read finds. A closed connection stays closed. -/
def Delivery.find (self : Delivery σ) (reader : Reader σ) : Reader σ :=
  if closed reader.connection then reader
  else { reader with connection := self.change reader.connection }

/-- The next read. Nothing is read for a closed connection. -/
def deliver (self : Reader σ) (read : Delivery σ) : Option (Reader σ) :=
  let self := read.find closed self
  if closed self.connection then some self else onRelayRead process self read.data

/-- The reader of a new connection after some reads, if they end. -/
def readerAfter (c : σ) (reads : List (Delivery σ)) : Option (Reader σ) :=
  reads.foldlM (deliver process closed) ⟨c, []⟩

/-- Something holds of a read and the reader that it finds, if the connection is not closed by
then. -/
def AtRead (P : Reader σ → List UInt8 → Prop) (c : σ) (pre : List (Delivery σ))
    (read : Delivery σ) :
    Prop :=
  ∀ self, readerAfter process closed c pre = some self →
    closed (read.find closed self).connection = false → P (read.find closed self) read.data

theorem readerAfter_concat (c : σ) (reads : List (Delivery σ)) (read : Delivery σ) :
    readerAfter process closed c (reads ++ [read]) =
      (readerAfter process closed c reads).bind fun self => deliver process closed self read := by
  unfold readerAfter
  rw [List.foldlM_append]
  cases reads.foldlM (deliver process closed) ⟨c, []⟩ with
  | none => rfl
  | some self => exact Option.bind_fun_some (deliver process closed self read)

theorem Delivery.find_stickyBuffer (self : Delivery σ) (reader : Reader σ) :
    (self.find closed reader).stickyBuffer = reader.stickyBuffer := by
  unfold Delivery.find
  split <;> rfl

/-- A reader that can go on still can when the next read comes, unless the connection is closed by
then. -/
theorem Delivery.find_resumable (read : Delivery σ) {self : Reader σ}
    (h : closed self.connection = true ∨ Resumable self.stickyBuffer)
    (hopen : closed (read.find closed self).connection = false) :
    Resumable (read.find closed self).stickyBuffer := by
  rw [find_stickyBuffer]
  refine h.resolve_left fun hclosed => ?_
  rw [find, if_pos hclosed, hclosed] at hopen
  cases hopen

/-- Over all that a relay server can send, and all that can happen to the connection in between:
every read ends, and it leaves the connection closed or the reader able to go on, exactly if every
read is clean. -/
theorem onRelayRead_progress_iff (process : σ → RelayPacket → σ) (closed : σ → Bool) (c : σ)
    (reads : List (Delivery σ)) :
    Runs.Every (AtRead process closed (Progresses process closed) c) reads ↔
      Runs.Every (AtRead process closed (Clean process closed) c) reads := by
  refine Runs.every_iff_of_inv (I := fun pre =>
    ∃ self, readerAfter process closed c pre = some self ∧
    (closed self.connection = true ∨ Resumable self.stickyBuffer)) ?_ ?_ ?_ reads
  · exact ⟨⟨c, []⟩, rfl, .inr (.inl Nat.two_pos)⟩
  · rintro pre read ⟨self, hself, hgood⟩ hprogress
    rw [readerAfter_concat, hself]
    change ∃ after, deliver process closed self read = some after ∧ _
    unfold deliver
    dsimp only
    split_ifs with hclosed
    · exact ⟨_, rfl, .inl hclosed⟩
    · have hopen := Bool.eq_false_iff.mpr hclosed
      obtain ⟨hiff, hnext⟩ := (onRelayRead_settles process closed hopen
        (read.find_resumable closed hgood hopen) read.data_lt).progresses
      exact hnext (hiff.mp (hprogress self hself hopen))
  · rintro pre read ⟨self, hself, hgood⟩
    refine forall_congr' fun found => forall_congr' fun hfound => forall_congr' fun hopen => ?_
    cases hself.symm.trans hfound
    exact (onRelayRead_settles process closed hopen (read.find_resumable closed hgood hopen)
      read.data_lt).progresses.1

end

/-- The header of the size 0 in one read: the loop does not end, with any fuel. The same header in
two reads: the reader is stuck, and the connection is open. -/
theorem onRelayRead_zero_size :
    (¬ Runs.Every (AtRead record (fun _ => false) (Progresses record fun _ => false) [])
        [⟨id, [0, 0, 0x10], by decide⟩] ∧
      ∀ fuel, readLoop record fuel ⟨[], []⟩ [0, 0, 0x10] = none) ∧
    (¬ Runs.Every (AtRead record (fun _ => false) (Progresses record fun _ => false) [])
        [⟨id, [0], by decide⟩, ⟨id, [0, 0x10], by decide⟩] ∧
      readAll record ⟨[], []⟩ [[0], [0, 0x10]] = some ⟨[], [0, 0, 0x10]⟩ ∧ Stuck [0, 0, 0x10]) := by
  have hzero (fuel : Nat) : readLoop record fuel ⟨[], []⟩ [0, 0, 0x10] = none :=
    readLoop_zero record (by decide) (by decide) fuel _
  have hstuck : Stuck [0, 0, 0x10] := Doomed.stuck ⟨by decide, by decide⟩
  refine ⟨⟨fun h => ?_, hzero⟩, fun h => ?_, by decide, hstuck⟩
  · obtain ⟨after, hafter, -⟩ := h [] _ [] rfl _ rfl rfl
    cases (hzero 4).symm.trans hafter
  · obtain ⟨after, hafter, hno⟩ := h [⟨id, [0], by decide⟩] _ [] rfl ⟨[], [0]⟩ (by decide) rfl
    have hread : onRelayRead record ⟨[], [0]⟩ [0, 0x10] = some ⟨[], [0, 0, 0x10]⟩ := by decide
    obtain rfl := Option.some.inj (hread.symm.trans hafter)
    exact hno.elim (fun hclosed => Bool.noConfusion hclosed) fun hno => hno hstuck

end Reader

end ActiveProxy

end Boson
