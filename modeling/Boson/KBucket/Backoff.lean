import Boson.KBucket

/-!
# The two back-off windows of an entry (`KBucketEntry::backoffWindowEnd`, `withinBackoffWindow`)

`int` is 32 bits wide and `long` 64. A shift follows C++17: it is undefined (`none`) unless the
count is in range and the product fits the unsigned type, and the product is then brought into
`int`.

The header's `needsPing` asks `withinBackoffWindow`, which takes the *larger* of
`KBUCKET_MAX_TIMEOUTS` and the count of failures where `backoffWindowEnd` takes the smaller one.

* `backoffAgrees_iff`: exactly when the two functions agree at a time after the last request.
* `needsPing_late`: what the larger window means for a node that failed: no ping for 32 minutes.
-/

namespace Boson

/-- `Constants::KBUCKET_PING_BACKOFF_BASE_INTERVAL`. -/
def KBUCKET_PING_BACKOFF_BASE_INTERVAL : Nat := 60 * 1000

/-- `x << n` for an `int` `x ≥ 0`. -/
def shiftLeft (x : Nat) (n : Int) : Option Int :=
  if 0 ≤ n ∧ n < 32 ∧ x * 2 ^ n.toNat < 4294967296 then
    some (Int.bmod (x * 2 ^ n.toNat : Nat) 4294967296)
  else none

/-- The shift is defined and its product is an `int`. -/
def ShiftFits (x : Nat) (n : Int) : Prop := 0 ≤ n ∧ n < 32 ∧ x * 2 ^ n.toNat < 2147483648

theorem shiftLeft_of_fits {x : Nat} {n : Int} (h : ShiftFits x n) :
    shiftLeft x n = some ((x * 2 ^ n.toNat : Nat) : Int) := by
  obtain ⟨h0, h1, h2⟩ := h
  have hfit : 0 ≤ n ∧ n < 32 ∧ x * 2 ^ n.toNat < 4294967296 := ⟨h0, h1, by omega⟩
  rw [shiftLeft, if_pos hfit, Int.bmod_eq_of_le (by omega) (by omega)]

namespace KBucketEntry

/-- `std::max<int>(0, failedRequests - 1)`. -/
def retries (self : KBucketEntry) : Option Int :=
  if self.failedRequests ≤ -2147483648 then none else some (max 0 (self.failedRequests - 1))

/-- `KBucketEntry::backoffWindowEnd`. -/
def backoffWindowEnd (self : KBucketEntry) : Option Int64 :=
  if self.failedRequests = 0 ∨ self.lastSend = 0 then some (-1)
  else do
    let n ← self.retries
    let backoff ← shiftLeft KBUCKET_PING_BACKOFF_BASE_INTERVAL (min KBUCKET_MAX_TIMEOUTS n)
    return (self.lastSend + UInt64.ofInt backoff).toInt64

/-- `KBucketEntry::withinBackoffWindow`. -/
def withinBackoffWindow (self : KBucketEntry) (now : UInt64) : Option Bool := do
  let n ← self.retries
  let backoff ← shiftLeft KBUCKET_PING_BACKOFF_BASE_INTERVAL (max KBUCKET_MAX_TIMEOUTS n)
  return self.failedRequests != 0 && decide (now - self.lastSend < UInt64.ofInt backoff)

/-- `KBucketEntry::needsPing`. -/
def needsPing (self : KBucketEntry) (now : UInt64) : Option Bool :=
  if now - self.lastSeen < 30 * 1000 then some false
  else do
    let within ← self.withinBackoffWindow now
    return !within &&
      (self.failedRequests != 0 || decide (now - self.lastSeen > KBUCKET_OLD_AND_STALE_TIME))

/-- The window of `KBUCKET_MAX_TIMEOUTS` doublings at most, in milliseconds. -/
def shortWindow (self : KBucketEntry) : Nat :=
  KBUCKET_PING_BACKOFF_BASE_INTERVAL *
    2 ^ (min KBUCKET_MAX_TIMEOUTS (max 0 (self.failedRequests - 1))).toNat

/-- The window of `KBUCKET_MAX_TIMEOUTS` doublings at least. -/
def longWindow (self : KBucketEntry) : Nat :=
  KBUCKET_PING_BACKOFF_BASE_INTERVAL *
    2 ^ (max KBUCKET_MAX_TIMEOUTS (max 0 (self.failedRequests - 1))).toNat

/-- What is expected of the two computations at time `now`: both are defined, the node is within its
window exactly when it failed, was asked and `now` is before the end, the end is the last request
plus a window of at most `KBUCKET_MAX_TIMEOUTS` doublings, and no shift leaves `int`. -/
def BackoffAgrees (e : KBucketEntry) (now : UInt64) : Prop :=
  ∃ w b, e.backoffWindowEnd = some w ∧ e.withinBackoffWindow now = some b ∧
    (b = true ↔ e.failedRequests ≠ 0 ∧ 0 < e.lastSend ∧ now < w.toUInt64) ∧
    (0 < e.failedRequests → 0 < e.lastSend →
      w.toUInt64.toNat = e.lastSend.toNat + KBUCKET_PING_BACKOFF_BASE_INTERVAL *
        2 ^ (min KBUCKET_MAX_TIMEOUTS (e.failedRequests - 1)).toNat) ∧
    (0 ≤ e.failedRequests →
      ShiftFits KBUCKET_PING_BACKOFF_BASE_INTERVAL
          (min KBUCKET_MAX_TIMEOUTS (max 0 (e.failedRequests - 1))) ∧
        ShiftFits KBUCKET_PING_BACKOFF_BASE_INTERVAL
          (max KBUCKET_MAX_TIMEOUTS (max 0 (e.failedRequests - 1))))

/-! ## The windows in milliseconds -/

theorem shiftFits_iff {n : Int} :
    ShiftFits KBUCKET_PING_BACKOFF_BASE_INTERVAL n ↔ 0 ≤ n ∧ n ≤ 15 := by
  constructor
  · rintro ⟨h0, -, hfit⟩
    refine ⟨h0, ?_⟩
    by_contra hn
    have hpow : 2 ^ 16 ≤ 2 ^ n.toNat := Nat.pow_le_pow_right (by decide) (by omega)
    simp only [KBUCKET_PING_BACKOFF_BASE_INTERVAL] at hfit
    omega
  · rintro ⟨h0, h15⟩
    have hpow : 2 ^ n.toNat ≤ 2 ^ 15 := Nat.pow_le_pow_right (by decide) (by omega)
    refine ⟨h0, by omega, ?_⟩
    simp only [KBUCKET_PING_BACKOFF_BASE_INTERVAL]
    omega

theorem toNat_ofInt {n : Nat} (h : n < 2147483648) : (UInt64.ofInt n).toNat = n := by
  simp [UInt64.ofInt]
  omega

theorem shortWindow_le_longWindow (e : KBucketEntry) : e.shortWindow ≤ e.longWindow :=
  Nat.mul_le_mul_left _ (Nat.pow_le_pow_right (by decide) (by omega))

theorem longWindow_lt {e : KBucketEntry} (h : e.failedRequests ≤ 16) :
    e.longWindow < 2147483648 := by
  refine (shiftFits_iff.mpr ⟨?_, ?_⟩).2.2
  all_goals simp only [KBUCKET_MAX_TIMEOUTS]
  all_goals omega

theorem longWindow_ge (e : KBucketEntry) : 1920000 ≤ e.longWindow := by
  have hpow : 2 ^ 5 ≤ 2 ^ (max KBUCKET_MAX_TIMEOUTS (max 0 (e.failedRequests - 1))).toNat := by
    refine Nat.pow_le_pow_right (by decide) ?_
    simp only [KBUCKET_MAX_TIMEOUTS]
    omega
  simp only [longWindow, KBUCKET_PING_BACKOFF_BASE_INTERVAL]
  omega

/-- Before the end of a window that does not wrap: less than the window has gone by. -/
theorem lt_end_iff {sent now : UInt64} {window : Nat} (h : sent ≤ now) (hw : window < 2147483648)
    (hend : sent.toNat + window < 18446744073709551616) :
    now < sent + UInt64.ofInt window ↔ (now - sent).toNat < window := by
  have hle := UInt64.le_iff_toNat_le.mp h
  rw [UInt64.lt_iff_toNat_lt, UInt64.toNat_add, UInt64.toNat_sub_of_le _ _ h, toNat_ofInt hw,
    Nat.mod_eq_of_lt hend]
  omega

/-- A window that wraps ends before it starts, and is not over at any time after its start. -/
theorem wrapped_end {sent now : UInt64} {window : Nat} (h : sent ≤ now) (hw : window < 2147483648)
    (hend : 18446744073709551616 ≤ sent.toNat + window) :
    ¬ now < sent + UInt64.ofInt window ∧ (now - sent).toNat < window := by
  have hle := UInt64.le_iff_toNat_le.mp h
  have hnow := now.toNat_lt
  have hsent := sent.toNat_lt
  rw [UInt64.lt_iff_toNat_lt, UInt64.toNat_add, UInt64.toNat_sub_of_le _ _ h, toNat_ofInt hw]
  omega

theorem retries_eq {e : KBucketEntry} (h : -2147483648 < e.failedRequests) :
    e.retries = some (max 0 (e.failedRequests - 1)) := by
  rw [retries, if_neg (by omega)]

theorem backoffWindowEnd_eq {e : KBucketEntry} (h : -2147483648 < e.failedRequests)
    (hf : e.failedRequests ≠ 0) (hs : e.lastSend ≠ 0) :
    e.backoffWindowEnd = some (e.lastSend + UInt64.ofInt e.shortWindow).toInt64 := by
  have hfits : ShiftFits KBUCKET_PING_BACKOFF_BASE_INTERVAL
      (min KBUCKET_MAX_TIMEOUTS (max 0 (e.failedRequests - 1))) := by
    rw [shiftFits_iff, KBUCKET_MAX_TIMEOUTS]
    omega
  rw [backoffWindowEnd, if_neg (by simp [hf, hs]), retries_eq h]
  simp only [Option.bind_eq_bind, Option.bind_some, shiftLeft_of_fits hfits]
  rfl

theorem withinBackoffWindow_eq {e : KBucketEntry} (h : -2147483648 < e.failedRequests)
    (hf : e.failedRequests ≤ 16) (now : UInt64) :
    e.withinBackoffWindow now = some (e.failedRequests != 0 &&
      decide (now - e.lastSend < UInt64.ofInt e.longWindow)) := by
  have hfits : ShiftFits KBUCKET_PING_BACKOFF_BASE_INTERVAL
      (max KBUCKET_MAX_TIMEOUTS (max 0 (e.failedRequests - 1))) := by
    rw [shiftFits_iff, KBUCKET_MAX_TIMEOUTS]
    omega
  rw [withinBackoffWindow, retries_eq h]
  simp only [Option.bind_eq_bind, Option.bind_some, shiftLeft_of_fits hfits]
  rfl

/-! ## When they agree -/

/-- Both computations are defined, and no shift leaves `int`, only up to 16 failures. -/
theorem BackoffAgrees.failedRequests_le {e : KBucketEntry} {now : UInt64}
    (h : e.BackoffAgrees now) : -2147483648 < e.failedRequests ∧ e.failedRequests ≤ 16 := by
  obtain ⟨w, b, -, hwithin, -, -, hfits⟩ := h
  constructor
  · by_contra hmin
    simp [withinBackoffWindow, retries, Int.not_lt.mp hmin] at hwithin
  · by_contra hmany
    have hlong := (shiftFits_iff.mp (hfits (by omega)).2).2
    rw [KBUCKET_MAX_TIMEOUTS] at hlong
    omega

theorem shortWindow_eq {e : KBucketEntry} (h : 0 < e.failedRequests) :
    e.shortWindow = KBUCKET_PING_BACKOFF_BASE_INTERVAL *
      2 ^ (min KBUCKET_MAX_TIMEOUTS (e.failedRequests - 1)).toNat := by
  rw [shortWindow, max_eq_right (by omega)]

/-- What agreement comes to once both computations are known to be defined. -/
theorem backoffAgrees_of_end {e : KBucketEntry} {now : UInt64} {w : Int64}
    (hmin : -2147483648 < e.failedRequests) (hmax : e.failedRequests ≤ 16)
    (hend : e.backoffWindowEnd = some w) :
    e.BackoffAgrees now ↔
      (e.failedRequests ≠ 0 ∧ (now - e.lastSend).toNat < e.longWindow ↔
        e.failedRequests ≠ 0 ∧ 0 < e.lastSend ∧ now < w.toUInt64) ∧
      (0 < e.failedRequests → 0 < e.lastSend →
        w.toUInt64.toNat = e.lastSend.toNat + e.shortWindow) := by
  have hwithin := withinBackoffWindow_eq hmin hmax now
  have hlt : now - e.lastSend < UInt64.ofInt e.longWindow ↔
      (now - e.lastSend).toNat < e.longWindow := by
    rw [UInt64.lt_iff_toNat_lt, toNat_ofInt (longWindow_lt hmax)]
  constructor
  · rintro ⟨w', b, hw', hb, hiff, hwindow, -⟩
    obtain rfl : w = w' := Option.some.inj (hend.symm.trans hw')
    obtain rfl := Option.some.inj (hwithin.symm.trans hb)
    refine ⟨by simpa [hlt] using hiff, fun hf hs => ?_⟩
    rw [hwindow hf hs, shortWindow_eq hf]
  · rintro ⟨hiff, hwindow⟩
    refine ⟨w, _, hend, hwithin, by simpa [hlt] using hiff, fun hf hs => ?_, fun hf => ?_⟩
    · rw [hwindow hf hs, shortWindow_eq hf]
    · simp only [shiftFits_iff, KBUCKET_MAX_TIMEOUTS]
      omega

/-- At a time not before the last request, the two computations agree exactly when the node never
failed, or failed 16 times at most and either the longer window is over, or the node was asked, the
shorter window is not over, and it ends within the 64 bits of the clock. -/
theorem backoffAgrees_iff (e : KBucketEntry) (now : UInt64) (h : e.lastSend ≤ now) :
    e.BackoffAgrees now ↔ -2147483648 < e.failedRequests ∧ e.failedRequests ≤ 16 ∧
      (e.failedRequests = 0 ∨ e.longWindow ≤ (now - e.lastSend).toNat ∨
        (0 < e.lastSend ∧ (now - e.lastSend).toNat < e.shortWindow ∧
          e.lastSend.toNat + e.shortWindow < 18446744073709551616)) := by
  suffices hcore : -2147483648 < e.failedRequests → e.failedRequests ≤ 16 →
      (e.BackoffAgrees now ↔ e.failedRequests = 0 ∨ e.longWindow ≤ (now - e.lastSend).toNat ∨
        (0 < e.lastSend ∧ (now - e.lastSend).toNat < e.shortWindow ∧
          e.lastSend.toNat + e.shortWindow < 18446744073709551616)) by
    constructor
    · intro hagrees
      obtain ⟨hmin, hmax⟩ := hagrees.failedRequests_le
      exact ⟨hmin, hmax, (hcore hmin hmax).mp hagrees⟩
    · rintro ⟨hmin, hmax, hwindow⟩
      exact (hcore hmin hmax).mpr hwindow
  intro hmin hmax
  have hle := shortWindow_le_longWindow e
  have hshort : e.shortWindow < 2147483648 := Nat.lt_of_le_of_lt hle (longWindow_lt hmax)
  by_cases hf : e.failedRequests = 0
  · rw [backoffAgrees_of_end (w := -1) hmin hmax (by simp [backoffWindowEnd, hf])]
    simp [hf]
  by_cases hs : e.lastSend = 0
  · rw [backoffAgrees_of_end (w := -1) hmin hmax (by simp [backoffWindowEnd, hs])]
    simp [hf, hs]
  have hpos : 0 < e.lastSend := UInt64.pos_iff_ne_zero.mpr hs
  rw [backoffAgrees_of_end hmin hmax (backoffWindowEnd_eq hmin hf hs)]
  simp only [ne_eq, hf, not_false_eq_true, true_and, hpos, false_or,
    UInt64.toUInt64_toInt64, forall_const]
  by_cases hend : e.lastSend.toNat + e.shortWindow < 18446744073709551616
  · rw [lt_end_iff h hshort hend]
    have hwindow : (e.lastSend + UInt64.ofInt e.shortWindow).toNat =
        e.lastSend.toNat + e.shortWindow := by
      rw [UInt64.toNat_add, toNat_ofInt hshort, Nat.mod_eq_of_lt hend]
    simp only [hwindow, hend, implies_true, and_true]
    omega
  · obtain ⟨hnot, hd⟩ := wrapped_end h hshort (by omega)
    simp only [hnot, hend, and_false, iff_false, or_false]
    omega

/-- A node asked at 1000 that timed out once, or `failures` times. -/
def silentSince1000 (failures : Int) : KBucketEntry where
  nodeId := Id.zero
  sockaddr := .inet ⟨[192, 0, 2, 49], by simp⟩ 39001
  lastSend := 1000
  failedRequests := failures

/-- The window of the sixth failure is the same for both functions. -/
theorem silentSince1000_agrees : (silentSince1000 6).BackoffAgrees 2000 :=
  (backoffAgrees_iff (silentSince1000 6) 2000 (by decide)).mpr
    ⟨by decide, by decide, .inr (.inr ⟨by decide, by decide, by decide⟩)⟩

/-- After one failure the window ends at 61000, yet 61001 is within it; after 17 the shift leaves
`int`. -/
theorem silentSince1000_disagrees :
    (silentSince1000 1).lastSend ≤ 61001 ∧
      (silentSince1000 1).backoffWindowEnd = some 61000 ∧
      (silentSince1000 1).withinBackoffWindow 61001 = some true ∧
      ¬ (silentSince1000 1).BackoffAgrees 61001 ∧ ¬ (silentSince1000 17).BackoffAgrees 61001 := by
  have hend : (silentSince1000 1).backoffWindowEnd = some 61000 := by decide
  have hwithin : (silentSince1000 1).withinBackoffWindow 61001 = some true := by decide
  refine ⟨by decide, hend, hwithin, ?_, fun h => ?_⟩
  · rintro ⟨w, b, hw, hb, hiff, -⟩
    rw [← Option.some.inj (hend.symm.trans hw), ← Option.some.inj (hwithin.symm.trans hb)] at hiff
    exact absurd (hiff.mp rfl).2.2 (by decide)
  · exact absurd h.failedRequests_le.2 (by decide)

/-! ## What asks for the window -/

/-- A node that failed once is not asked again for 32 minutes, as one that failed six times. -/
theorem needsPing_late {e : KBucketEntry} {now : UInt64} (hmin : -2147483648 < e.failedRequests)
    (hmax : e.failedRequests ≤ 16) (hf : e.failedRequests ≠ 0) (h : e.needsPing now = some true) :
    1920000 ≤ (now - e.lastSend).toNat := by
  rw [needsPing, withinBackoffWindow_eq hmin hmax] at h
  split at h
  · cases h
  · have hout : ¬ now - e.lastSend < UInt64.ofInt e.longWindow := by
      intro hin
      simp [hf, hin] at h
    rw [UInt64.lt_iff_toNat_lt, toNat_ofInt (longWindow_lt hmax)] at hout
    have hge := longWindow_ge e
    omega

end KBucketEntry

end Boson
