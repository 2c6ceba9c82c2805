import Boson.ValueStorage
import Boson.Lib.FoldM

/-!
# Persistent values

A value that is stored with `persistent` is listed by `getPersistentValues`, so that the node
announces it again and again, and `expire` leaves its row alone. The statement of `putValue` sets
the column only in a new row: a row that is there keeps its own `persistent` and `announced`.

* `putValue_kept_iff`: a stored persistent value is kept exactly if its row is new or was persistent
  already, and no other persistent row spoils the list.
-/

namespace Boson

namespace ValueTable

/-- The rows that `GET_PERSISTENT_VALUES` finds. The bound goes to the statement as an `int64_t`. -/
def persistentRows (self : ValueTable) (lastAnnounceBefore : Int) : List ValueRow :=
  self.rows.filter fun r => r.persistent && decide (r.announced ≤ lastAnnounceBefore)

/-- `SqliteStorage::getPersistentValues`. It throws if a row cannot be read. -/
def getPersistentValues (self : ValueTable) (lastAnnounceBefore : Int) :
    Except String (List Value) :=
  (self.persistentRows lastAnnounceBefore).mapM (·.toValue)

/-- The operation overwrites or removes the row of `valueId`. -/
def Op.replaces (C : Crypto) (valueId : Id) : Op → Prop
  | .putValue value _ _ _ => value.getId C = valueId
  | .removeValue id => id = valueId
  | _ => False

/-- The persistent value `v`, stored at the time `now`, is kept: it is listed, and its row stays
until it is overwritten or removed. -/
structure Kept (C : Crypto) (T : ValueTable) (now : Nat) (v : Value) : Prop where
  listed : ∀ b : Int, now ≤ b → ∃ values, T.getPersistentValues b = .ok values ∧ v ∈ values
  stays : ∀ later : List (Nat × Op), (∀ op ∈ later, ¬ op.2.replaces C (v.getId C)) →
    ∃ r, (T.run C later).lookup (v.getId C) = some r ∧ r.toValue = .ok v

/-- The table can take the persistent value `v` at the time `now`. -/
structure Keeping (C : Crypto) (T : ValueTable) (now : Nat) (v : Value) : Prop where
  /-- A row of the value is persistent, and not announced in the future. -/
  row : ∀ r, T.lookup (v.getId C) = some r → r.persistent = true ∧ r.announced ≤ now
  /-- The other persistent rows can be read. -/
  others : ∀ r ∈ T.rows, r.id ≠ v.getId C → r.persistent = true → ∃ w, r.toValue = .ok w

variable {C : Crypto} {T : ValueTable} {v w : Value} {now : Nat} {b : Int} {r : ValueRow} {id : Id}

/-! ## The list -/

theorem mem_persistentRows :
    r ∈ T.persistentRows b ↔ T.lookup r.id = some r ∧ r.persistent = true ∧ r.announced ≤ b := by
  simp [persistentRows, Table.mem_rows_iff]

/-- A value is listed if its row is found and every row that is found can be read. -/
theorem listed_of (hr : r ∈ T.persistentRows b) (hval : r.toValue = .ok v)
    (hall : ∀ r ∈ T.persistentRows b, ∃ w, r.toValue = .ok w) :
    ∃ values, T.getPersistentValues b = .ok values ∧ v ∈ values := by
  obtain ⟨values, hvalues, -⟩ := FoldM.mapM_ok hall
  obtain ⟨hzip, hread⟩ := FoldM.zip_mapM hvalues
  obtain ⟨w, hw⟩ := hzip r hr
  cases hval.symm.trans (hread r w hw)
  exact ⟨values, hvalues, (List.of_mem_zip hw).2⟩

/-- A listed value has a persistent row of its own. -/
theorem row_of_listed (hst : Stored C T)
    (h : ∃ values, T.getPersistentValues b = .ok values ∧ v ∈ values) :
    ∃ r, T.lookup (v.getId C) = some r ∧ r.persistent = true ∧ r.announced ≤ b := by
  obtain ⟨values, hvalues, hv⟩ := h
  obtain ⟨r, hr, hval⟩ := FoldM.mem_mapM hvalues v hv
  obtain ⟨hrow, hp, han⟩ := mem_persistentRows.mp hr
  obtain ⟨w, p, ts, an, -, rfl⟩ := hst _ _ hrow
  cases eq_of_toValue_ofValue hval
  exact ⟨_, hrow, hp, han⟩

/-! ## The row -/

/-- An operation that does not replace a persistent row changes its times at most. -/
theorem step_persistent {op : Op} (hop : ¬ op.replaces C id) (hr : T.lookup id = some r)
    (hp : r.persistent = true) (t : Nat) :
    ∃ ts an, (T.step C t op).lookup id = some { r with timestamp := ts, announced := an } := by
  cases op with
  | putValue value expectedSeq persistent updateLastAnnounce =>
    change ∃ ts an, (putValue C T t value expectedSeq persistent updateLastAnnounce).2.lookup id = _
    rcases putValue_cases C T t value expectedSeq persistent updateLastAnnounce with
      ⟨e, -, h⟩ | ⟨old, an, -, h⟩
    · exact ⟨r.timestamp, r.announced, by rw [h, hr]⟩
    · exact ⟨r.timestamp, r.announced, by
        rw [h, lookup_upsertValue, if_neg fun hid => hop hid.symm, hr]⟩
  | removeValue valueId =>
    change ∃ ts an, (T.removeValue valueId).lookup id = _
    exact ⟨r.timestamp, r.announced, by rw [lookup_removeValue, if_neg fun hid => hop hid.symm, hr]⟩
  | updateValueLastAnnounce valueId =>
    change ∃ ts an, (T.updateValueLastAnnounce t valueId).lookup id = _
    rw [lookup_updateValueLastAnnounce, hr]
    split_ifs
    · exact ⟨t, t, rfl⟩
    · exact ⟨r.timestamp, r.announced, rfl⟩
  | expire =>
    change ∃ ts an, (T.expire t).lookup id = _
    exact ⟨r.timestamp, r.announced, by
      rw [lookup_expire, hr, Option.filter_some, if_pos (by simp [hp])]⟩

/-- A persistent row stays, but for its times, until it is replaced. -/
theorem run_persistent (later : List (Nat × Op)) (hlater : ∀ op ∈ later, ¬ op.2.replaces C id)
    (hr : T.lookup id = some r) (hp : r.persistent = true) :
    ∃ ts an, (T.run C later).lookup id = some { r with timestamp := ts, announced := an } := by
  induction later generalizing T r with
  | nil => exact ⟨r.timestamp, r.announced, hr⟩
  | cons op later ih =>
    rw [List.forall_mem_cons] at hlater
    obtain ⟨ts, an, hstep⟩ := step_persistent hlater.1 hr hp op.1
    obtain ⟨ts', an', hrun⟩ := ih hlater.2 hstep hp
    exact ⟨ts', an', hrun⟩

/-! ## A persistent put -/

/-- The row after a persistent put, and the other rows. -/
theorem lookup_putPersistent {e : Int32} {u : Bool} {old : Option Value}
    (hok : (T.putValue C now v e true u).1 = .ok old) (k : Id) :
    (T.putValue C now v e true u).2.lookup k =
      if k = v.getId C then
        some ((T.lookup (v.getId C)).elim
          (ValueRow.ofValue C v true now (if u then now else 0)) fun r =>
            ValueRow.ofValue C v r.persistent now r.announced)
      else T.lookup k := by
  unfold putValue at hok ⊢
  cases hcheck : T.checkPut C now v e with
  | error err =>
    rw [hcheck] at hok
    cases hok
  | ok old' => exact lookup_upsertValue ..

theorem stored_putValue (hst : Stored C T) (e : Int32) (p u : Bool) :
    Stored C (T.putValue C now v e p u).2 :=
  step_stored hst now (.putValue v e p u)

/-- After a persistent put, the value has a persistent row that is announced by `now` exactly if it
had no other row before. -/
theorem persistentRow_iff {e : Int32} {u : Bool} {old : Option Value}
    (hok : (T.putValue C now v e true u).1 = .ok old) :
    (∃ ts an, (T.putValue C now v e true u).2.lookup (v.getId C) =
      some (ValueRow.ofValue C v true ts an) ∧
      an ≤ now) ↔ ∀ r, T.lookup (v.getId C) = some r → r.persistent = true ∧ r.announced ≤ now := by
  rw [lookup_putPersistent hok, if_pos rfl]
  cases hrow : T.lookup (v.getId C) with
  | none =>
    refine iff_of_true ⟨now, if u then now else 0, rfl, ?_⟩ (by simp)
    cases u <;> simp
  | some r =>
    constructor
    · rintro ⟨ts, an, hrow', han⟩ r' hr'
      cases hr'
      have hcols := Option.some.inj hrow'
      exact ⟨congrArg ValueRow.persistent hcols, congrArg ValueRow.announced hcols ▸ han⟩
    · intro h
      obtain ⟨hp, han⟩ := h r rfl
      exact ⟨now, r.announced, by rw [Option.elim_some, hp], han⟩

/-- For every table that the operations lead to: a valid value that was stored as persistent is kept
exactly if its row is new or was persistent already, and the other persistent rows can be read. -/
theorem putValue_kept_iff (C : Crypto) (ops : List (Nat × Op)) (v : Value) (hv : v.isValid C = true)
    (expectedSeq : Int32) (updateLastAnnounce : Bool) (now : Nat) (old : Option Value)
    (hok : ((run C Table.empty ops).putValue C now v expectedSeq true updateLastAnnounce).1 =
      .ok old) :
    Kept C ((run C Table.empty ops).putValue C now v expectedSeq true updateLastAnnounce).2 now v ↔
      Keeping C (run C Table.empty ops) now v := by
  have hst : Stored C (run C Table.empty ops) := run_stored (stored_empty C) ops
  generalize run C Table.empty ops = T at hok hst ⊢
  have hlook := lookup_putPersistent hok
  have hd := Value.data_ne_nil_of_isValid hv
  constructor
  · intro hk
    refine ⟨(persistentRow_iff hok).mp ?_, fun r hr hid hp => ?_⟩
    · obtain ⟨r, hrow, hp, han⟩ := row_of_listed (stored_putValue hst _ _ _) (hk.listed now le_rfl)
      have hcols := hrow
      rw [hlook, if_pos rfl] at hcols
      refine ⟨now, r.announced, ?_, han⟩
      rw [hrow, ← Option.some.inj hcols]
      cases hr : T.lookup (v.getId C) with
      | none => rfl
      | some r' =>
        rw [hr] at hcols
        rw [← Option.some.inj hcols] at hp
        exact congrArg some (by rw [Option.elim_some, show r'.persistent = true from hp]; rfl)
    · -- a bound at which the statement finds the row
      obtain ⟨values, hvalues, -⟩ := hk.listed (max now r.announced) (le_max_left ..)
      have hmem : r ∈ persistentRows (T.putValue C now v expectedSeq true updateLastAnnounce).2
          (max now r.announced) := by
        refine mem_persistentRows.mpr ⟨?_, hp, le_max_right ..⟩
        rw [hlook, if_neg hid]
        exact Table.mem_rows_iff.mp hr
      obtain ⟨hzip, hread⟩ := FoldM.zip_mapM hvalues
      obtain ⟨w, hw⟩ := hzip r hmem
      exact ⟨w, hread r w hw⟩
  · rintro ⟨hrow, hothers⟩
    obtain ⟨ts, an, hnew, han⟩ := (persistentRow_iff hok).mpr hrow
    refine ⟨fun b hb => ?_, fun later hlater => ?_⟩
    · refine listed_of (mem_persistentRows.mpr ⟨hnew, rfl, han.trans hb⟩)
        (toValue_ofValue hd true ts an) ?_
      intro r hr
      obtain ⟨hr, hp, -⟩ := mem_persistentRows.mp hr
      by_cases hid : r.id = v.getId C
      · rw [hid, hnew] at hr
        cases hr
        exact ⟨v, toValue_ofValue hd true ts an⟩
      · rw [hlook, if_neg hid] at hr
        exact hothers r (Table.mem_rows_iff.mpr hr) hid hp
    · obtain ⟨ts', an', hrun⟩ := run_persistent later hlater hnew rfl
      exact ⟨_, hrun, toValue_ofValue hd true ts' an'⟩

/-- A value that is stored as persistent in a new row. -/
theorem owned5_kept :
    Kept ownedCrypto (putValue ownedCrypto Table.empty 0 owned5 (-1) true true).2 0 owned5 :=
  (putValue_kept_iff ownedCrypto [] owned5 (by decide +kernel)
    (-1) true 0 none (by decide +kernel)).mpr
    ⟨fun r h => (by cases h), fun r h => (by cases h)⟩

/-- A value that was cached first, as `findValue` does, and is then stored as persistent: the store
succeeds, and the value is not kept. -/
theorem owned5_cached_not_kept :
    let T := run ownedCrypto Table.empty [(0, .putValue owned5 (-1) false false)]
    (T.putValue ownedCrypto 1 owned5 (-1) true true).1 = .ok (some owned5) ∧
      owned5.isValid ownedCrypto = true ∧
      ¬ Kept ownedCrypto (T.putValue ownedCrypto 1 owned5 (-1) true true).2 1 owned5 := by
  refine ⟨by decide +kernel, by decide +kernel, fun hk => ?_⟩
  obtain ⟨values, hvalues, hv⟩ := hk.listed 1 le_rfl
  have hnone :
      getPersistentValues
      ((run ownedCrypto Table.empty [(0, .putValue owned5 (-1) false false)]).putValue
      ownedCrypto 1 owned5 (-1) true true).2 1 = .ok [] := by decide +kernel
  rw [hnone] at hvalues
  cases hvalues
  cases hv

end ValueTable

end Boson
