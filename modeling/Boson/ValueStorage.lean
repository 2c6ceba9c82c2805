import Boson.Value
import Boson.Lib.Table
import Mathlib.Data.List.Induction

/-!
# The table of values (`src/core/sqlite_storage.cc`)

`ValueRow` is a row of the table `valores`, with the columns as the schema declares them. The SQL
statements are the operations of `Table`. An operation reads the clock once; `currentTimeMillis` is
the `int64_t` count of the system clock, so `currentTimeMillis() - MAX_VALUE_AGE`, which is computed
in `uint64_t` and bound as `int64_t`, is the difference of integers.

* `putValue_contract`: a value that was stored is read back as it was for `MAX_VALUE_AGE`, the guard
  against a live old value holds, and a rejected value changes nothing.
* `Overwrites`: a put that the guard does not stop because the old row is too old for the guard's
  select. `run_noRollback_iff`: those are the only steps by which a row goes back.
-/

namespace Boson

/-- `Constants::MAX_VALUE_AGE`, in milliseconds. -/
def MAX_VALUE_AGE : Nat := 120 * 60 * 1000

/-- A row of the table `valores`. -/
structure ValueRow where
  id : Id
  persistent : Bool
  publicKey : Option (List UInt8)
  privateKey : Option (List UInt8)
  recipient : Option (List UInt8)
  nonce : Option (List UInt8)
  signature : Option (List UInt8)
  sequenceNumber : Option Int32
  data : Option (List UInt8)
  timestamp : Int
  announced : Int
  deriving DecidableEq

namespace ValueRow

/-- The row that `putValue` binds to the statement. -/
def ofValue (C : Crypto) (value : Value) (persistent : Bool)
    (timestamp announced : Int) : ValueRow where
  id := value.getId C
  persistent := persistent
  publicKey := value.publicKey.map (·.bytes)
  privateKey := value.privateKey.map (·.data)
  recipient := value.recipient.map (·.bytes)
  nonce := if value.isMutable then value.nonce.map (·.data) else none
  signature := value.signature
  sequenceNumber := some value.sequenceNumber
  data := some value.data
  timestamp := timestamp
  announced := announced

/-- The sequence number column; NULL is read as 0. -/
def seq (self : ValueRow) : Int32 := self.sequenceNumber.getD 0

/-- The value of a row, as `getValue` reads it: a nonce of the wrong size is not read. -/
def toValue (self : ValueRow) : Except String Value :=
  Value.of (Value.blobOf self.publicKey) (Value.blobOf self.privateKey)
    (Value.blobOf self.recipient)
    (Value.blobOf (self.nonce.filter (·.length = 24))) self.seq
    (Value.blobOf self.signature) (Value.blobOf self.data)

/-- The `DO UPDATE SET` of `UPSERT_VALUE`: all columns but `persistent` and `announced`. -/
def excluded (new self : ValueRow) : ValueRow :=
  { new with id := self.id, persistent := self.persistent, announced := self.announced }

theorem excluded_id (new self : ValueRow) : (new.excluded self).id = self.id := rfl

/-- The row is young enough for `SELECT_VALUE` at the time `now`. -/
def isLive (self : ValueRow) (now : Nat) : Bool := (now : Int) - MAX_VALUE_AGE ≤ self.timestamp

end ValueRow

/-- The table `valores`. -/
abbrev ValueTable := Table ValueRow.id

namespace ValueTable

/-- `SqliteStorage::getValue`. -/
def getValue (self : ValueTable) (now : Nat) (valueId : Id) : Except String (Option Value) :=
  match (self.lookup valueId).filter (·.isLive now) with
  | some row => row.toValue.map some
  | none => .ok none

/-- The checks of `SqliteStorage::putValue` against the old value. -/
def checkOld (value : Value) (expectedSeq : Int32) (old : Value) : Except String Unit :=
  if !value.isMutable then
    .error "Can not replace mutable value with immutable is not supported"
  else if old.hasPrivateKey && !value.hasPrivateKey then .error "Not the owner of value"
  else if value.sequenceNumber < old.sequenceNumber then .error "Sequence number less than current"
  else if expectedSeq ≥ 0 && old.sequenceNumber ≥ 0 && old.sequenceNumber != expectedSeq then
    .error "CAS failure"
  else .ok ()

/-- `SqliteStorage::putValue` up to the statement: its checks, and the old value. -/
def checkPut (C : Crypto) (self : ValueTable) (now : Nat) (value : Value) (expectedSeq : Int32) :
    Except String (Option Value) :=
  if value.isMutable && !value.isValid C then .error "Value signature validation failed"
  else match self.getValue now (value.getId C) with
    | .error e => .error e
    | .ok none => .ok none
    | .ok (some old) =>
      if old.isMutable then (checkOld value expectedSeq old).map fun _ => some old
      else .ok (some old)

/-- `UPSERT_VALUE`. -/
def upsertValue (self : ValueTable) (row : ValueRow) : ValueTable :=
  self.upsert row row.excluded row.excluded_id

/-- `SqliteStorage::putValue`: what it returns or throws, and the table after it. -/
def putValue (C : Crypto) (self : ValueTable) (now : Nat) (value : Value) (expectedSeq : Int32)
    (persistent updateLastAnnounce : Bool) : Except String (Option Value) × ValueTable :=
  match self.checkPut C now value expectedSeq with
  | .error e => (.error e, self)
  | .ok old =>
    (.ok old, self.upsertValue
      (ValueRow.ofValue C value persistent now (if updateLastAnnounce then now else 0)))

/-- `SqliteStorage::updateValueLastAnnounce`. -/
def updateValueLastAnnounce (self : ValueTable) (now : Nat) (valueId : Id) : ValueTable :=
  self.updateWhere (·.id = valueId)
    (fun r => { r with timestamp := now, announced := now }) fun _ => rfl

/-- `SqliteStorage::removeValue`. -/
def removeValue (self : ValueTable) (valueId : Id) : ValueTable := self.deleteWhere (·.id = valueId)

/-- `SqliteStorage::expire`, for the values. -/
def expire (self : ValueTable) (now : Nat) : ValueTable :=
  self.deleteWhere fun r => !r.persistent && decide (r.timestamp < (now : Int) - MAX_VALUE_AGE)

/-- An operation on the table. -/
inductive Op where
  | putValue (value : Value) (expectedSeq : Int32) (persistent updateLastAnnounce : Bool)
  | removeValue (valueId : Id)
  | updateValueLastAnnounce (valueId : Id)
  | expire

/-- One operation at the time `now`. An exception of `putValue` goes to the caller. -/
def step (C : Crypto) (self : ValueTable) (now : Nat) : Op → ValueTable
  | .putValue value expectedSeq persistent updateLastAnnounce =>
    (self.putValue C now value expectedSeq persistent updateLastAnnounce).2
  | .removeValue valueId => self.removeValue valueId
  | .updateValueLastAnnounce valueId => self.updateValueLastAnnounce now valueId
  | .expire => self.expire now

/-- A sequence of operations, each with its time. -/
def run (C : Crypto) (self : ValueTable) (ops : List (Nat × Op)) : ValueTable :=
  ops.foldl (fun T op => T.step C op.1 op.2) self

/-- The operation writes to the row of `valueId`. -/
def Op.writes (C : Crypto) (valueId : Id) : Op → Prop
  | .putValue value _ _ _ => value.getId C = valueId
  | .removeValue id => id = valueId
  | .updateValueLastAnnounce id => id = valueId
  | .expire => False

/-! ## Rows and values -/

variable {C : Crypto} {T : ValueTable} {v : Value} {now t : Nat} {id : Id}

/-- A row gives back the value it was made from. -/
theorem toValue_ofValue (hd : v.data ≠ []) (p : Bool) (ts an : Int) :
    (ValueRow.ofValue C v p ts an).toValue = .ok v := by
  have hn : Option.filter (fun n : List UInt8 => decide (n.length = 24))
      (if v.isMutable = true then v.nonce.map (·.data) else none) = v.nonce.map (·.data) := by
    cases hp : v.publicKey with
    | none => simp [Value.isMutable, hp, (v.immutable_ok hp).2.2.1]
    | some pk =>
      cases hn : v.nonce with
      | none => simp
      | some n => simp [Value.isMutable, hp, n.size_eq]
  rw [ValueRow.toValue]
  simp only [ValueRow.ofValue, ValueRow.seq, hn, Option.getD_some]
  exact Value.of_toBlobs v hd

/-- What the row of a value is read as can only be that value. -/
theorem eq_of_toValue_ofValue {w : Value} {p : Bool} {ts an : Int}
    (h : (ValueRow.ofValue C w p ts an).toValue = .ok v) : w = v := by
  by_cases hd : w.data = []
  · have hblob : Value.blobOf (ValueRow.ofValue C w p ts an).data = [] := hd
    rw [ValueRow.toValue, hblob] at h
    unfold Value.of at h
    repeat' split at h
    all_goals contradiction
  · rw [toValue_ofValue hd] at h
    exact Except.ok.inj h

/-- The table after the statement of `putValue`. -/
theorem lookup_upsertValue (p : Bool) (ts an : Int) (k : Id) :
    (T.upsertValue (ValueRow.ofValue C v p ts an)).lookup k =
      if k = v.getId C then
        some ((T.lookup (v.getId C)).elim (ValueRow.ofValue C v p ts an) fun r =>
          ValueRow.ofValue C v r.persistent ts r.announced)
      else T.lookup k := by
  rw [upsertValue, Table.lookup_upsert]
  change (if k = v.getId C then some ((T.lookup (v.getId C)).elim _ _) else T.lookup k) = _
  cases h : T.lookup (v.getId C) with
  | none => rfl
  | some r =>
    have hid : (ValueRow.ofValue C v p ts an).excluded r =
        ValueRow.ofValue C v r.persistent ts r.announced := by
      rw [ValueRow.excluded, Table.lookup_key h]
      rfl
    simp only [Option.elim_some, hid]

theorem lookup_removeValue (valueId k : Id) :
    (T.removeValue valueId).lookup k = if k = valueId then none else T.lookup k := by
  rw [removeValue, Table.lookup_deleteWhere]
  cases h : T.lookup k with
  | none => simp
  | some r => simp [Table.lookup_key h, Option.filter_some]

theorem lookup_updateValueLastAnnounce (valueId k : Id) :
    (T.updateValueLastAnnounce now valueId).lookup k =
      if k = valueId then (T.lookup k).map fun r => { r with timestamp := now, announced := now }
      else T.lookup k := by
  rw [updateValueLastAnnounce, Table.lookup_updateWhere]
  cases h : T.lookup k with
  | none => simp
  | some r => by_cases hk : k = valueId <;> simp [Table.lookup_key h, hk]

/-- `expire` deletes a row only if it is not live. -/
theorem lookup_expire (k : Id) :
    (T.expire now).lookup k = (T.lookup k).filter fun r => r.persistent || r.isLive now := by
  rw [expire, Table.lookup_deleteWhere]
  congr 1
  funext r
  by_cases hl : (now : Int) - MAX_VALUE_AGE ≤ r.timestamp <;> simp [ValueRow.isLive, hl]

/-! ## Two versions of a value -/

/-- The public key of the Ed25519 key pair with the zero seed. -/
def ownerKey : Id :=
  ⟨[59, 106, 39, 188, 206, 182, 164, 45, 98, 163, 168, 208, 42, 111, 13, 115, 101, 50, 21, 119,
    29, 226, 67, 166, 58, 192, 72, 161, 139, 89, 218, 41], rfl⟩

/-- The owner's signature of the value `owned` with sequence number 5. -/
def signature5 : List UInt8 :=
  [169, 17, 58, 98, 112, 207, 125, 221, 239, 89, 57, 148, 40, 93, 124, 243, 223, 63, 211, 199,
   225, 165, 85, 172, 193, 178, 125, 195, 198, 164, 233, 105, 228, 2, 195, 99, 208, 80, 128,
   101, 61, 99, 111, 230, 239, 139, 144, 107, 175, 177, 211, 89, 16, 174, 250, 177, 70, 184,
   167, 235, 252, 136, 52, 14]

/-- The owner's signature of the value `owned` with sequence number 3. -/
def signature3 : List UInt8 :=
  [252, 118, 226, 138, 82, 14, 95, 37, 158, 110, 64, 159, 176, 47, 155, 187, 188, 85, 145, 39,
   30, 115, 31, 191, 29, 118, 207, 239, 34, 132, 30, 16, 224, 53, 167, 23, 59, 96, 170, 13, 134,
   139, 236, 117, 171, 80, 55, 178, 136, 10, 232, 31, 117, 31, 19, 171, 10, 228, 160, 86, 141,
   157, 92, 12]

/-- The SHA-256 of the owner's key and the zero nonce. -/
def ownedId : Id :=
  ⟨[51, 205, 236, 195, 200, 75, 253, 17, 43, 175, 25, 103, 173, 71, 28, 104, 130, 150, 44, 223,
    254, 49, 150, 35, 226, 90, 209, 126, 231, 161, 213, 210], rfl⟩

/-- The value of one byte that the owner signs with the zero nonce. -/
def owned (seq : Int32) (hseq : 0 ≤ seq.toInt) (sig : List UInt8)
    (hsig : sig.length = SIGNATURE_BYTES) :
    Value :=
  Value.ofOwner ownerKey none none (Bytes.fill 24 0) seq hseq sig hsig [1]

def owned5 : Value := owned 5 (by decide) signature5 rfl

def owned3 : Value := owned 3 (by decide) signature3 rfl

/-- The hash and the signature check, for these two values. -/
def ownedCrypto : Crypto where
  sha256 m := if m = ownerKey.bytes ++ List.replicate 24 0 then ownedId else Id.zero
  verify m sig pk := pk = ownerKey &&
    (m = owned5.getSignData && sig = signature5 || m = owned3.getSignData && sig = signature3)

/-! ## The contract of the store -/

theorem checkOld_eq_ok {old : Value} {expectedSeq : Int32}
    (h : checkOld v expectedSeq old = .ok ()) :
    v.isMutable = true ∧ (old.hasPrivateKey = true → v.hasPrivateKey = true) ∧
      old.sequenceNumber ≤ v.sequenceNumber ∧
        (0 ≤ expectedSeq → old.sequenceNumber = expectedSeq) := by
  unfold checkOld at h
  repeat' split at h
  all_goals try cases h
  rename_i h1 h2 h3 h4
  have hnonneg : old.sequenceNumber ≥ 0 := Int32.le_iff_toInt_le.mpr old.sequenceNumber_nonneg
  refine ⟨by simpa using h1, fun hk => by simpa [hk] using h2, Int32.not_lt.mp h3, fun he => ?_⟩
  simpa [he, hnonneg] using h4

/-- What a successful `putValue` found: no live row, or an old value that passes the checks. -/
theorem checkPut_eq_ok {expectedSeq : Int32} {old : Option Value}
    (h : T.checkPut C now v expectedSeq = .ok old) :
    (v.isMutable = true → v.isValid C = true) ∧ T.getValue now (v.getId C) = .ok old ∧
      ∀ w, old = some w → w.isMutable = true → checkOld v expectedSeq w = .ok () := by
  unfold checkPut at h
  split at h
  · cases h
  rename_i hvalid
  refine ⟨fun hm => by simpa [hm] using hvalid, ?_⟩
  split at h
  · cases h
  · rename_i hget
    cases h
    exact ⟨hget, fun w hw => by cases hw⟩
  · rename_i w hget
    split at h
    · cases hc : checkOld v expectedSeq w with
      | error e => rw [hc] at h; cases h
      | ok =>
        rw [hc] at h
        cases h
        refine ⟨hget, fun w' hw _ => ?_⟩
        cases hw
        exact hc
    · rename_i hm
      cases h
      refine ⟨hget, fun w' hw hm' => ?_⟩
      cases hw
      exact absurd hm' hm

/-- The two outcomes of `putValue`. -/
theorem putValue_cases (C : Crypto) (T : ValueTable) (now : Nat) (v : Value) (expectedSeq : Int32)
    (persistent updateLastAnnounce : Bool) :
    (∃ e, T.checkPut C now v expectedSeq = .error e ∧
      T.putValue C now v expectedSeq persistent updateLastAnnounce = (.error e, T)) ∨
    (∃ old an, T.checkPut C now v expectedSeq = .ok old ∧
      T.putValue C now v expectedSeq persistent updateLastAnnounce =
        (.ok old, T.upsertValue (ValueRow.ofValue C v persistent now an))) := by
  cases h : T.checkPut C now v expectedSeq with
  | error e => exact .inl ⟨e, rfl, by rw [putValue, h]⟩
  | ok old => exact .inr ⟨old, _, rfl, by rw [putValue, h]⟩

/-- An operation that does not write to a row leaves it as it is while it is live. -/
theorem lookup_step (now : Nat) {op : Op} {r : ValueRow} (hop : ¬ op.writes C id)
    (hr : T.lookup id = some r) (hlive : r.isLive now = true) :
    (T.step C now op).lookup id = some r := by
  cases op with
  | putValue value expectedSeq persistent updateLastAnnounce =>
    change (putValue C T now value expectedSeq persistent updateLastAnnounce).2.lookup id = _
    rcases putValue_cases C T now value expectedSeq persistent updateLastAnnounce with
      ⟨e, -, h⟩ | ⟨old, an, -, h⟩
    · rw [h, hr]
    · rw [h, lookup_upsertValue, if_neg fun hid => hop hid.symm, hr]
  | removeValue valueId =>
    change (T.removeValue valueId).lookup id = _
    rw [lookup_removeValue, if_neg fun hid => hop hid.symm, hr]
  | updateValueLastAnnounce valueId =>
    change (T.updateValueLastAnnounce now valueId).lookup id = _
    rw [lookup_updateValueLastAnnounce, if_neg fun hid => hop hid.symm, hr]
  | expire =>
    change (T.expire now).lookup id = _
    rw [lookup_expire, hr]
    simp [Option.filter_some, hlive]

/-- A row that stays live is not changed by operations on other rows. -/
theorem lookup_run {r : ValueRow} (ops : List (Nat × Op)) (hr : T.lookup id = some r)
    (hops : ∀ op ∈ ops, r.isLive op.1 = true ∧ ¬ op.2.writes C id) :
    (T.run C ops).lookup id = some r := by
  induction ops generalizing T with
  | nil => exact hr
  | cons op ops ih =>
    obtain ⟨hlive, hnw⟩ := hops op List.mem_cons_self
    exact ih (lookup_step op.1 hnw hr hlive) fun op' h' => hops op' (List.mem_cons_of_mem _ h')

/-- The row after a successful put. -/
theorem lookup_putValue {e : Int32} {p u : Bool} {old : Option Value}
    (h : (T.putValue C now v e p u).1 = .ok old) (hd : v.data ≠ []) :
    ∃ r, (T.putValue C now v e p u).2.lookup (v.getId C) = some r ∧ r.timestamp = now ∧
      r.toValue = .ok v := by
  rcases putValue_cases C T now v e p u with ⟨_, -, hput⟩ | ⟨old', an, -, hput⟩
  · rw [hput] at h
    cases h
  · rw [hput, lookup_upsertValue, if_pos rfl]
    cases T.lookup (v.getId C) with
    | none => exact ⟨_, rfl, rfl, toValue_ofValue hd p now an⟩
    | some r => exact ⟨_, rfl, rfl, toValue_ofValue hd r.persistent now r.announced⟩

/-- The contract of `putValue` for a valid value: what is stored is read back, the guard against a
live old value of an owner holds, and a rejected value changes nothing. -/
theorem putValue_contract (C : Crypto) (T : ValueTable) (v : Value) (hv : v.isValid C = true)
    (expectedSeq : Int32) (persistent updateLastAnnounce : Bool) (now : Nat) :
    (∀ old, (T.putValue C now v expectedSeq persistent updateLastAnnounce).1 = .ok old →
      (∀ (later : List (Nat × Op)) (t : Nat), now ≤ t → t ≤ now + MAX_VALUE_AGE →
        (∀ op ∈ later, op.1 ≤ t ∧ ¬ op.2.writes C (v.getId C)) →
        getValue ((T.putValue C now v expectedSeq persistent updateLastAnnounce).2.run C later) t
          (v.getId C) = .ok (some v)) ∧
      (∀ k, k ≠ v.getId C →
        (T.putValue C now v expectedSeq persistent updateLastAnnounce).2.lookup k = T.lookup k) ∧
      (∀ w, T.getValue now (v.getId C) = .ok (some w) → w.isMutable = true →
        v.isMutable = true ∧ w.sequenceNumber ≤ v.sequenceNumber ∧
          (w.hasPrivateKey = true → v.hasPrivateKey = true) ∧
          (0 ≤ expectedSeq → w.sequenceNumber = expectedSeq))) ∧
    (∀ e, (T.putValue C now v expectedSeq persistent updateLastAnnounce).1 = .error e →
      (T.putValue C now v expectedSeq persistent updateLastAnnounce).2 = T) := by
  have hd := Value.data_ne_nil_of_isValid hv
  constructor
  · intro old hok
    obtain ⟨r, hr, hts, hval⟩ := lookup_putValue hok hd
    have hlive : ∀ t, t ≤ now + MAX_VALUE_AGE → r.isLive t = true := by
      intro t ht
      simp only [ValueRow.isLive, hts, decide_eq_true_eq]
      omega
    refine ⟨fun later t _ ht hlater => ?_, fun k hk => ?_, fun w hw hm => ?_⟩
    · have hrun := lookup_run later hr fun op hop => by
        obtain ⟨hle, hnw⟩ := hlater op hop
        exact ⟨hlive op.1 (hle.trans ht), hnw⟩
      rw [getValue, hrun, Option.filter_some, if_pos (hlive t ht)]
      simp [hval, Except.map]
    · rcases putValue_cases C T now v expectedSeq persistent updateLastAnnounce with
        ⟨_, -, hput⟩ | ⟨_, _, -, hput⟩
      · rw [hput]
      · rw [hput, lookup_upsertValue, if_neg hk]
    · rcases putValue_cases C T now v expectedSeq persistent updateLastAnnounce with
        ⟨_, -, hput⟩ | ⟨old', _, hcheck, -⟩
      · rw [hput] at hok
        cases hok
      · obtain ⟨-, hget, hguard⟩ := checkPut_eq_ok hcheck
        rw [hw] at hget
        cases hget
        obtain ⟨h1, h2, h3, h4⟩ := checkOld_eq_ok (hguard w rfl hm)
        exact ⟨h1, h3, h2, h4⟩
  · intro e herr
    rcases putValue_cases C T now v expectedSeq persistent updateLastAnnounce with
      ⟨_, -, hput⟩ | ⟨_, _, -, hput⟩
    · rw [hput]
    · rw [hput] at herr
      cases herr

/-- A signed value is read back until it is `MAX_VALUE_AGE` old, across an `expire`. -/
theorem getValue_owned5 :
    getValue ((putValue ownedCrypto Table.empty 0 owned5 (-1) true true).2.run ownedCrypto
      [(MAX_VALUE_AGE, .expire)]) MAX_VALUE_AGE (owned5.getId ownedCrypto) = .ok (some owned5) :=
  ((putValue_contract ownedCrypto Table.empty owned5 (by decide +kernel) (-1) true true 0).1 none
    (by decide +kernel)).1 [(MAX_VALUE_AGE, .expire)] MAX_VALUE_AGE (by decide) (by decide)
    (by simp [Op.writes])

/-! ## Rows that go back -/

/-- Every row was written by `putValue`, with a value that passed its check. -/
def Stored (C : Crypto) (T : ValueTable) : Prop :=
  ∀ k r, T.lookup k = some r → ∃ v p ts an, (v.isMutable = true → v.isValid C = true) ∧
    r = ValueRow.ofValue C v p ts an

theorem stored_empty (C : Crypto) : Stored C Table.empty := by
  intro k r h
  simp at h

theorem step_stored (h : Stored C T) (now : Nat) (op : Op) : Stored C (T.step C now op) := by
  intro k r hr
  cases op with
  | putValue v e p u =>
    change (T.putValue C now v e p u).2.lookup k = some r at hr
    rcases putValue_cases C T now v e p u with ⟨_, -, hput⟩ | ⟨old, an, hcheck, hput⟩
    · rw [hput] at hr
      exact h k r hr
    · rw [hput, lookup_upsertValue] at hr
      split at hr
      · cases hl : T.lookup (v.getId C) with
        | none =>
          rw [hl] at hr
          exact ⟨v, p, now, an, (checkPut_eq_ok hcheck).1, (Option.some.inj hr).symm⟩
        | some r' =>
          rw [hl] at hr
          exact ⟨v, r'.persistent, now, r'.announced, (checkPut_eq_ok hcheck).1,
            (Option.some.inj hr).symm⟩
      · exact h k r hr
  | removeValue valueId =>
    change (T.removeValue valueId).lookup k = some r at hr
    rw [lookup_removeValue] at hr
    split at hr
    · cases hr
    · exact h k r hr
  | updateValueLastAnnounce valueId =>
    change (T.updateValueLastAnnounce now valueId).lookup k = some r at hr
    rw [lookup_updateValueLastAnnounce] at hr
    split at hr
    · obtain ⟨r', hr', rfl⟩ := Option.map_eq_some_iff.mp hr
      obtain ⟨v, p, ts, an, hv, rfl⟩ := h k r' hr'
      exact ⟨v, p, now, now, hv, rfl⟩
    · exact h k r hr
  | expire =>
    change (T.expire now).lookup k = some r at hr
    rw [lookup_expire, Option.filter_eq_some_iff] at hr
    exact h k r hr.1

theorem run_stored (h : Stored C T) (ops : List (Nat × Op)) : Stored C (T.run C ops) := by
  induction ops generalizing T with
  | nil => exact h
  | cons op ops ih => exact ih (step_stored h op.1 op.2)

/-- `new` does not go back behind `old`: its sequence number is not lower, and it has a private key
if `old` has one. -/
def NotBack (old new : ValueRow) : Prop :=
  old.seq ≤ new.seq ∧ (old.privateKey.isSome = true → new.privateKey.isSome = true)

theorem NotBack.refl (r : ValueRow) : NotBack r r := ⟨Int32.le_refl _, id⟩

theorem NotBack.trans {a b c : ValueRow} (h : NotBack a b) (h' : NotBack b c) : NotBack a c :=
  ⟨Int32.le_trans h.1 h'.1, fun hk => h'.2 (h.2 hk)⟩

/-- As long as the row of a value of an owner stays in the table, it does not go back. -/
def NoRollback (C : Crypto) (ops : List (Nat × Op)) : Prop :=
  ∀ pre mid post, ops = pre ++ mid ++ post → ∀ k old new,
    (run C Table.empty pre).lookup k = some old → old.publicKey.isSome = true →
    (∀ m, m <+: mid → ((run C Table.empty (pre ++ m)).lookup k).isSome = true) →
    (run C Table.empty (pre ++ mid)).lookup k = some new → NotBack old new

/-- A put of a value that passes the signature check, over a row that is too old for the guard and
that has a higher sequence number or a private key that the value lacks. -/
def Overwrites (C : Crypto) (T : ValueTable) (now : Nat) : Op → Prop
  | .putValue v _ _ _ => (v.isMutable = true → v.isValid C = true) ∧
      ∃ r, T.lookup (v.getId C) = some r ∧ r.isLive now = false ∧
        (v.sequenceNumber < r.seq ∨ (r.privateKey.isSome = true ∧ v.hasPrivateKey = false))
  | _ => False

theorem ofValue_seq (p : Bool) (ts an : Int) : (ValueRow.ofValue C v p ts an).seq =
    v.sequenceNumber := rfl

theorem ofValue_privateKey (p : Bool) (ts an : Int) :
    (ValueRow.ofValue C v p ts an).privateKey.isSome = v.hasPrivateKey := by
  simp [ValueRow.ofValue, Value.hasPrivateKey]

/-- The row that a put leaves does not go back if the value does not. -/
theorem notBack_ofValue {r : ValueRow} {p : Bool} {ts an : Int} :
    NotBack r (ValueRow.ofValue C v p ts an) ↔
      r.seq ≤ v.sequenceNumber ∧ (r.privateKey.isSome = true → v.hasPrivateKey = true) := by
  rw [NotBack, ofValue_seq, ofValue_privateKey]

/-- A live row is protected by the guard. -/
theorem notBack_of_live {e : Int32} {old : Option Value} {r : ValueRow} (hT : Stored C T)
    (hr : T.lookup (v.getId C) = some r) (hlive : r.isLive now = true)
    (hcheck : T.checkPut C now v e = .ok old) :
    r.seq ≤ v.sequenceNumber ∧ (r.privateKey.isSome = true → v.hasPrivateKey = true) := by
  obtain ⟨w, p, ts, an, hvalid, rfl⟩ := hT _ r hr
  obtain ⟨-, hget, hguard⟩ := checkPut_eq_ok hcheck
  rw [ofValue_seq, ofValue_privateKey]
  by_cases hm : w.isMutable = true
  · -- the guard sees the value that the row was made from
    have hw : old = some w := by
      rw [getValue, hr, Option.filter_some, if_pos hlive] at hget
      simp only [toValue_ofValue (Value.data_ne_nil_of_isValid (hvalid hm))] at hget
      exact (Except.ok.inj hget).symm
    obtain ⟨-, h2, h3, -⟩ := checkOld_eq_ok (hguard w hw hm)
    exact ⟨h3, h2⟩
  · rw [Bool.not_eq_true] at hm
    rw [Value.immutable_seq hm, Value.immutable_hasPrivateKey hm]
    exact ⟨Int32.le_iff_toInt_le.mpr v.sequenceNumber_nonneg, fun h => absurd h Bool.false_ne_true⟩

/-- The step lemma: a row that stays does not go back, unless the step is a put over an aged row. -/
theorem step_notBack (hT : Stored C T) {op : Op} (hop : ¬ Overwrites C T now op) {r r' : ValueRow}
    (hr : T.lookup id = some r) (hr' : (T.step C now op).lookup id = some r') : NotBack r r' := by
  cases op with
  | putValue v e p u =>
    change (T.putValue C now v e p u).2.lookup id = some r' at hr'
    rcases putValue_cases C T now v e p u with ⟨_, -, hput⟩ | ⟨old, an, hcheck, hput⟩
    · rw [hput, hr] at hr'
      cases hr'
      exact NotBack.refl r
    rw [hput, lookup_upsertValue] at hr'
    split at hr'
    case isFalse =>
      rw [hr] at hr'
      cases hr'
      exact NotBack.refl r
    case isTrue hid =>
      subst hid
      rw [hr] at hr'
      cases hr'
      refine notBack_ofValue.mpr ?_
      cases hlive : r.isLive now with
      | true => exact notBack_of_live hT hr hlive hcheck
      | false =>
        by_contra hback
        refine hop ⟨(checkPut_eq_ok hcheck).1, r, hr, hlive, ?_⟩
        rw [not_and_or] at hback
        rcases hback with h | h
        · exact .inl (Int32.not_le.mp h)
        · exact .inr (by simpa using h)
  | removeValue valueId =>
    change (T.removeValue valueId).lookup id = some r' at hr'
    rw [lookup_removeValue] at hr'
    split at hr'
    · cases hr'
    · rw [hr] at hr'
      cases hr'
      exact NotBack.refl r
  | updateValueLastAnnounce valueId =>
    change (T.updateValueLastAnnounce now valueId).lookup id = some r' at hr'
    rw [lookup_updateValueLastAnnounce, hr] at hr'
    split at hr'
    · cases hr'
      exact ⟨Int32.le_refl _, fun h => h⟩
    · cases hr'
      exact NotBack.refl r
  | expire =>
    change (T.expire now).lookup id = some r' at hr'
    rw [lookup_expire, hr, Option.filter_eq_some_iff] at hr'
    cases hr'.1
    exact NotBack.refl r

/-- A put over an aged row does go back. -/
theorem step_back (hT : Stored C T) {op : Op} (hop : Overwrites C T now op) :
    ∃ k r r', T.lookup k = some r ∧ r.publicKey.isSome = true ∧
      (T.step C now op).lookup k = some r' ∧ ¬ NotBack r r' := by
  cases op with
  | putValue v e p u =>
    obtain ⟨hvalid, r, hr, hlive, hback⟩ := hop
    have hcheck : T.checkPut C now v e = .ok none := by
      have hget : T.getValue now (v.getId C) = .ok none := by
        rw [getValue, hr, Option.filter_some, if_neg (by simp [hlive])]
      unfold checkPut
      rw [if_neg, hget]
      intro h
      rw [Bool.and_eq_true_iff, Bool.not_eq_true'] at h
      simp [hvalid h.1] at h
    have hnot :
        ¬ (r.seq ≤ v.sequenceNumber ∧ (r.privateKey.isSome = true → v.hasPrivateKey = true)) := by
      rintro ⟨h1, h2⟩
      rcases hback with h | ⟨hk, hv⟩
      · exact Int32.not_le.mpr h h1
      · rw [h2 hk] at hv
        cases hv
    refine ⟨v.getId C, r, ValueRow.ofValue C v r.persistent now r.announced, hr, ?_, ?_,
      mt notBack_ofValue.mp hnot⟩
    · -- only the row of an owner has a sequence number or a key
      obtain ⟨w, p', ts, an, -, rfl⟩ := hT _ r hr
      rw [ofValue_seq, ofValue_privateKey] at hnot
      by_contra hpk
      have hm : w.isMutable = false := by simpa [ValueRow.ofValue, Value.isMutable] using hpk
      refine hnot ⟨?_, ?_⟩
      · rw [Value.immutable_seq hm]
        exact Int32.le_iff_toInt_le.mpr v.sequenceNumber_nonneg
      · simp [Value.immutable_hasPrivateKey hm]
    · change (T.putValue C now v e p u).2.lookup (v.getId C) = _
      rw [putValue, hcheck]
      simp only
      rw [lookup_upsertValue, if_pos rfl, hr]
      rfl
  | removeValue _ => cases hop
  | updateValueLastAnnounce _ => cases hop
  | expire => cases hop

theorem run_append (ops ops' : List (Nat × Op)) : T.run C (ops ++ ops') =
    (T.run C ops).run C ops' :=
  List.foldl_append

/-- Over every sequence of operations on an empty store: rows do not go back exactly if no step is a
put over an aged row that it is behind of. -/
theorem run_noRollback_iff (C : Crypto) (ops : List (Nat × Op)) :
    NoRollback C ops ↔
      ∀ pre now op post, ops = pre ++ (now, op) :: post →
        ¬ Overwrites C (run C Table.empty pre) now op := by
  constructor
  · rintro h pre now op post rfl hop
    obtain ⟨k, r, r', hr, hpk, hr', hback⟩ := step_back (run_stored (stored_empty C) pre) hop
    have hone : (run C Table.empty (pre ++ [(now, op)])).lookup k = some r' := by
      rw [run_append]
      exact hr'
    refine hback (h pre [(now, op)] post (by simp) k r r' hr hpk ?_ hone)
    intro m hm
    rcases List.prefix_cons_iff.mp hm with rfl | ⟨m', rfl, hm'⟩
    · rw [List.append_nil, hr]
      rfl
    · rw [List.prefix_nil.mp hm', hone]
      rfl
  · intro h pre mid post hops k old new hold _ hstays hnew
    -- by induction on the operations since `old`, from the last one
    induction mid using List.reverseRecOn generalizing post new with
    | nil =>
      rw [List.append_nil, hold] at hnew
      cases hnew
      exact NotBack.refl old
    | append_singleton mid op ih =>
      obtain ⟨r, hr⟩ := Option.isSome_iff_exists.mp (hstays mid (List.prefix_append mid [op]))
      have hold_r : NotBack old r :=
        ih (op :: post) (by simpa using hops) r
          (fun m hm => hstays m (hm.trans (List.prefix_append mid [op]))) hr
      rw [← List.append_assoc, run_append] at hnew
      have hstep := h (pre ++ mid) op.1 op.2 post (by simpa using hops)
      exact hold_r.trans (step_notBack (run_stored (stored_empty C) _) hstep hr hnew)

/-- A value stored for good, and an older version of it that arrives when the row has aged. -/
def agedOps : List (Nat × Op) :=
  [(0, .putValue owned5 (-1) true true), (MAX_VALUE_AGE + 1, .putValue owned3 (-1) false false)]

theorem not_noRollback_agedOps : ¬ NoRollback ownedCrypto agedOps := by
  intro h
  have hstays : ∀ m, m <+: [(MAX_VALUE_AGE + 1, Op.putValue owned3 (-1) false false)] →
      ((run ownedCrypto Table.empty
        ([(0, .putValue owned5 (-1) true true)] ++ m)).lookup ownedId).isSome = true := by
    intro m hm
    rcases List.prefix_cons_iff.mp hm with rfl | ⟨m', rfl, hm'⟩
    · decide +kernel
    · rw [List.prefix_nil.mp hm']
      decide +kernel
  have hback := (h [(0, .putValue owned5 (-1) true true)]
    [(MAX_VALUE_AGE + 1, .putValue owned3 (-1) false false)] [] rfl ownedId
    (ValueRow.ofValue ownedCrypto owned5 true 0 0)
    (ValueRow.ofValue ownedCrypto owned3 true (MAX_VALUE_AGE + 1) 0)
    (by decide +kernel) (by decide +kernel) hstays (by decide +kernel)).1
  revert hback
  decide +kernel

end ValueTable

end Boson
