import Boson.Rpc.Statistics

/-!
# Throughput (`RPCStatistics::getReceivedBytesPerSec`, `RPCStatistics::getSentBytesPerSec`)

The bytes of each direction are added up between two samples; a sample is taken by a reading more
than 950 ms after the last one. The two readings differ in one type: the received bytes are
multiplied as a `uint32_t`, the sent bytes as a `long`, which has 64 bits on the platforms of the
model.

* `countAll_getSentBytesPerSec`: the sent bytes per second are exact.
* `exact_iff_lossless`: the received ones are as long as the product fits in 32 bits; beyond that,
  only if the time since the sample is so long that the part that is lost does not count.
-/

namespace Boson

namespace ServerStatistics

variable (self : ServerStatistics) (now : UInt64)

/-- A call that counts bytes. -/
inductive Traffic where
  | received (bytes : UInt32)
  | sent (bytes : UInt32)
  deriving DecidableEq

/-- `onReceivedBytes` and `onSentBytes`. -/
def count : Traffic → ServerStatistics
  | .received bytes => { self with toRPCStatistics := self.toRPCStatistics.onReceivedBytes bytes }
  | .sent bytes => { self with toSentStatistics := self.toSentStatistics.onSentBytes bytes }

/-- A sequence of calls. -/
def countAll (calls : List Traffic) : ServerStatistics := calls.foldl count self

/-- `RPCStatistics::getReceivedBytesPerSec`. The product has the type `uint32_t`. -/
def getReceivedBytesPerSec : UInt32 × ServerStatistics :=
  let d := now - self.lastReceivedTimestamp
  if d > 950 then
    let lrb := self.lastReceivedBytes
    let receivedBytesPerSec := ((lrb * 1000).toUInt64 / d).toUInt32
    (receivedBytesPerSec,
      { self with
        lastReceivedBytes := 0
        receivedBytesPerSec := receivedBytesPerSec
        lastReceivedTimestamp := now })
  else (self.receivedBytesPerSec, self)

/-- `RPCStatistics::getSentBytesPerSec`. The product has the type `long`. -/
def getSentBytesPerSec : UInt32 × ServerStatistics :=
  let d := now - self.lastSentTimestamp
  if d > 950 then
    let lrb : Int64 := self.lastSentBytes.toUInt64.toInt64
    let sentBytesPerSec := ((lrb * 1000).toUInt64 / d).toUInt32
    (sentBytesPerSec,
      { self with
        lastSentBytes := 0
        sentBytesPerSec := sentBytesPerSec
        lastSentTimestamp := now })
  else (self.sentBytesPerSec, self)

/-- The bytes that the calls receive. -/
def receivedTotal (calls : List Traffic) : Nat :=
  (calls.map fun
    | .received bytes => bytes.toNat
    | .sent _ => 0).sum

/-- The bytes that the calls send. -/
def sentTotal (calls : List Traffic) : Nat :=
  (calls.map fun
    | .received _ => 0
    | .sent bytes => bytes.toNat).sum

variable {self now} {calls : List Traffic}

/-- Counting adds to the bytes since the last samples, modulo `2 ^ 32`, and takes no sample. -/
theorem countAll_spec (self : ServerStatistics) (calls : List Traffic) :
    (self.countAll calls).lastReceivedBytes =
      self.lastReceivedBytes + UInt32.ofNat (receivedTotal calls) ∧
      (self.countAll calls).lastSentBytes = self.lastSentBytes + UInt32.ofNat (sentTotal calls) ∧
      (self.countAll calls).lastReceivedTimestamp = self.lastReceivedTimestamp ∧
      (self.countAll calls).lastSentTimestamp = self.lastSentTimestamp := by
  induction calls generalizing self with
  | nil => simp [countAll, receivedTotal, sentTotal]
  | cons call calls ih =>
    obtain ⟨hreceived, hsent, hreceivedTime, hsentTime⟩ := ih (self.count call)
    cases call with
    | received bytes =>
      refine ⟨?_, ?_, hreceivedTime, hsentTime⟩
      · rw [receivedTotal, List.map_cons, List.sum_cons, UInt32.ofNat_add, UInt32.ofNat_toNat,
          ← UInt32.add_assoc]
        exact hreceived
      · rw [sentTotal, List.map_cons, List.sum_cons, Nat.zero_add]
        exact hsent
    | sent bytes =>
      refine ⟨?_, ?_, hreceivedTime, hsentTime⟩
      · rw [receivedTotal, List.map_cons, List.sum_cons, Nat.zero_add]
        exact hreceived
      · rw [sentTotal, List.map_cons, List.sum_cons, UInt32.ofNat_add, UInt32.ofNat_toNat,
          ← UInt32.add_assoc]
        exact hsent

/-- What the product loses in 32 bits, together with what the division leaves of the rest, is less
than `d`. -/
def Lossless (bytes d : Nat) : Prop :=
  bytes * 1000 / 2 ^ 32 * 2 ^ 32 + bytes * 1000 % 2 ^ 32 % d < d

instance (bytes d : Nat) : Decidable (Lossless bytes d) := by unfold Lossless; infer_instance

theorem lossless_of_lt {bytes d : Nat} (hd : 0 < d) (h : bytes * 1000 < 2 ^ 32) :
    Lossless bytes d := by
  rw [Lossless, Nat.div_eq_of_lt h, Nat.zero_mul, Nat.zero_add]
  exact Nat.mod_lt _ hd

theorem lossless_iff {bytes d : Nat} (hd : 0 < d) :
    Lossless bytes d ↔ bytes * 1000 % 2 ^ 32 / d = bytes * 1000 / d := by
  have hsplit := Nat.div_add_mod (bytes * 1000) (2 ^ 32)
  unfold Lossless
  generalize bytes * 1000 / 2 ^ 32 = q at *
  generalize bytes * 1000 % 2 ^ 32 = r at *
  have hdiv : bytes * 1000 / d = r / d + (q * 2 ^ 32 + r % d) / d := by
    have hrest := Nat.div_add_mod r d
    have hsum : bytes * 1000 = q * 2 ^ 32 + r % d + d * (r / d) := by omega
    rw [hsum, Nat.add_mul_div_left _ _ hd, Nat.add_comm]
  rw [hdiv, left_eq_add, Nat.div_eq_zero_iff]
  omega

theorem getReceivedBytesPerSec_toNat (hd : 950 < (now - self.lastReceivedTimestamp).toNat) :
    (self.getReceivedBytesPerSec now).1.toNat =
      self.lastReceivedBytes.toNat * 1000 % 2 ^ 32 / (now - self.lastReceivedTimestamp).toNat := by
  have hsample : now - self.lastReceivedTimestamp > 950 := UInt64.lt_iff_toNat_lt.mpr hd
  have hfits :
      self.lastReceivedBytes.toNat * 1000 % 2 ^ 32 / (now - self.lastReceivedTimestamp).toNat <
        2 ^ 32 :=
    Nat.lt_of_le_of_lt (Nat.div_le_self _ _) (Nat.mod_lt _ (by decide))
  simp only [getReceivedBytesPerSec, if_pos hsample, UInt64.toNat_toUInt32, UInt64.toNat_div,
    UInt32.toNat_toUInt64, UInt32.toNat_mul, UInt32.reduceToNat]
  exact Nat.mod_eq_of_lt hfits

theorem getSentBytesPerSec_toNat (hd : 950 < (now - self.lastSentTimestamp).toNat) :
    (self.getSentBytesPerSec now).1.toNat =
      self.lastSentBytes.toNat * 1000 / (now - self.lastSentTimestamp).toNat % 2 ^ 32 := by
  have hsample : now - self.lastSentTimestamp > 950 := UInt64.lt_iff_toNat_lt.mpr hd
  have hproduct : (self.lastSentBytes.toUInt64.toInt64 * 1000).toUInt64 =
      self.lastSentBytes.toUInt64 * 1000 := rfl
  have hlong : self.lastSentBytes.toNat * 1000 % 2 ^ 64 = self.lastSentBytes.toNat * 1000 :=
    Nat.mod_eq_of_lt (by have := self.lastSentBytes.toNat_lt; omega)
  simp only [getSentBytesPerSec, if_pos hsample, hproduct, UInt64.toNat_toUInt32, UInt64.toNat_div,
    UInt64.toNat_mul, UInt32.toNat_toUInt64, UInt64.reduceToNat, hlong]

/-- A sample starts the count of its direction again. -/
theorem sampled (h : 950 < (now - self.lastReceivedTimestamp).toNat)
    (h' : 950 < (now - self.lastSentTimestamp).toNat) :
    (self.getReceivedBytesPerSec now).2.lastReceivedBytes = 0 ∧
      (self.getReceivedBytesPerSec now).2.lastReceivedTimestamp = now ∧
      (self.getSentBytesPerSec now).2.lastSentBytes = 0 ∧
      (self.getSentBytesPerSec now).2.lastSentTimestamp = now := by
  have hsample : now - self.lastReceivedTimestamp > 950 := UInt64.lt_iff_toNat_lt.mpr h
  have hsample' : now - self.lastSentTimestamp > 950 := UInt64.lt_iff_toNat_lt.mpr h'
  simp [getReceivedBytesPerSec, getSentBytesPerSec, hsample, hsample']

/-- Both readings are the bytes since the sample per second, rounded down. -/
structure Exact (stats : ServerStatistics) (calls : List Traffic) (now now' : UInt64) : Prop where
  received : ((stats.countAll calls).getReceivedBytesPerSec now).1.toNat =
    receivedTotal calls * 1000 / (now - stats.lastReceivedTimestamp).toNat
  sent : ((stats.countAll calls).getSentBytesPerSec now').1.toNat =
    sentTotal calls * 1000 / (now' - stats.lastSentTimestamp).toNat

theorem countAll_lastReceivedBytes (h : self.lastReceivedBytes = 0)
    (hbytes : receivedTotal calls < 2 ^ 32) :
    (self.countAll calls).lastReceivedBytes.toNat = receivedTotal calls := by
  rw [(countAll_spec self calls).1, h, UInt32.zero_add, UInt32.toNat_ofNat']
  exact Nat.mod_eq_of_lt hbytes

theorem countAll_lastSentBytes (h : self.lastSentBytes = 0) (hbytes : sentTotal calls < 2 ^ 32) :
    (self.countAll calls).lastSentBytes.toNat = sentTotal calls := by
  rw [(countAll_spec self calls).2.1, h, UInt32.zero_add, UInt32.toNat_ofNat']
  exact Nat.mod_eq_of_lt hbytes

/-- The sent bytes per second are exact. -/
theorem countAll_getSentBytesPerSec (h : self.lastSentBytes = 0) (hbytes : sentTotal calls < 2 ^ 32)
    (hd : 950 < (now - self.lastSentTimestamp).toNat)
    (hfits : sentTotal calls * 1000 / (now - self.lastSentTimestamp).toNat < 2 ^ 32) :
    ((self.countAll calls).getSentBytesPerSec now).1.toNat =
      sentTotal calls * 1000 / (now - self.lastSentTimestamp).toNat := by
  have htime := (countAll_spec self calls).2.2.2
  rw [getSentBytesPerSec_toNat (htime ▸ hd), countAll_lastSentBytes h hbytes, htime]
  exact Nat.mod_eq_of_lt hfits

/-- For the calls after a sample, both readings are exact if and only if the product of the received
bytes loses nothing that counts. -/
theorem exact_iff_lossless (self : ServerStatistics) (calls : List Traffic) (now now' : UInt64)
    (hreceived : self.lastReceivedBytes = 0) (hsent : self.lastSentBytes = 0)
    (hbytes : receivedTotal calls < 2 ^ 32) (hbytes' : sentTotal calls < 2 ^ 32)
    (hd : 950 < (now - self.lastReceivedTimestamp).toNat)
    (hd' : 950 < (now' - self.lastSentTimestamp).toNat)
    (hfits : sentTotal calls * 1000 / (now' - self.lastSentTimestamp).toNat < 2 ^ 32) :
    self.Exact calls now now' ↔
      Lossless (receivedTotal calls) (now - self.lastReceivedTimestamp).toNat := by
  have htime := (countAll_spec self calls).2.2.1
  have hreading := getReceivedBytesPerSec_toNat (htime ▸ hd)
  rw [countAll_lastReceivedBytes hreceived hbytes, htime] at hreading
  rw [lossless_iff (by omega), ← hreading]
  exact ⟨fun h => h.received, fun h => ⟨h, countAll_getSentBytesPerSec hsent hbytes' hd' hfits⟩⟩

/-- Ten megabytes each way, read after a second. -/
theorem tenMegabytes_lossy :
    ¬ ({} : ServerStatistics).Exact [.received 10000000, .sent 10000000] 1000 1000 := by
  intro h
  have hreading := h.received
  exact absurd hreading (by decide)

/-- Four megabytes each way, read after a second. -/
theorem fourMegabytes_exact :
    ({} : ServerStatistics).Exact [.received 4000000, .sent 4000000] 1000 1000 :=
  (exact_iff_lossless {} [.received 4000000, .sent 4000000] 1000 1000 rfl rfl (by decide)
    (by decide) (by decide) (by decide) (by decide)).mpr (lossless_of_lt (by decide) (by decide))

end ServerStatistics

end Boson
