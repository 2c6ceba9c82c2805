import Mathlib.Data.List.Nodup
import Mathlib.Data.List.Basic

/-!
# Tables with a primary key

`Table key` is a list of rows in which no two rows have the same `key`. The operations are the
statements of SQL on such a table: a select by key (`lookup`), `INSERT ... ON CONFLICT DO UPDATE`
(`upsert`), `DELETE ... WHERE` (`deleteWhere`) and `UPDATE ... WHERE` of columns outside the key
(`updateWhere`).

A table is determined, up to the order of its rows, by `lookup`; each operation has one lemma that
says what it does to `lookup`.
-/

/-- Rows with distinct keys. -/
structure Table {ρ κ : Type*} (key : ρ → κ) where
  rows : List ρ
  nodup : (rows.map key).Nodup

namespace Table

variable {ρ κ : Type*} {key : ρ → κ}

/-- The table without rows. -/
def empty : Table key := ⟨[], List.nodup_nil⟩

section Lookup

variable [DecidableEq κ] {T : Table key} {k : κ} {r : ρ}

/-- The row with the key `k`. -/
def lookup (T : Table key) (k : κ) : Option ρ := T.rows.find? fun r => key r = k

@[simp] theorem lookup_empty (k : κ) : (empty : Table key).lookup k = none := rfl

theorem lookup_eq_none_iff : T.lookup k = none ↔ ∀ r ∈ T.rows, key r ≠ k := by
  simp [lookup]

theorem lookup_eq_some_iff : T.lookup k = some r ↔ r ∈ T.rows ∧ key r = k := by
  constructor
  · intro h
    exact ⟨List.mem_of_find?_eq_some h, by simpa using List.find?_some h⟩
  · rintro ⟨hr, rfl⟩
    cases h : T.lookup (key r) with
    | none => exact absurd rfl (lookup_eq_none_iff.mp h r hr)
    | some r' =>
      have hk : key r' = key r := by simpa using List.find?_some h
      rw [List.inj_on_of_nodup_map T.nodup (List.mem_of_find?_eq_some h) hr hk]

theorem lookup_key (h : T.lookup k = some r) : key r = k := (lookup_eq_some_iff.mp h).2

theorem mem_rows_iff : r ∈ T.rows ↔ T.lookup (key r) = some r := by
  rw [lookup_eq_some_iff, and_iff_left rfl]

end Lookup

/-! ## Statements -/

section Delete

/-- `DELETE ... WHERE p`. -/
def deleteWhere (T : Table key) (p : ρ → Bool) : Table key :=
  ⟨T.rows.filter (!p ·), T.nodup.sublist (List.filter_sublist.map _)⟩

theorem lookup_deleteWhere [DecidableEq κ] (T : Table key) (p : ρ → Bool) (k : κ) :
    (T.deleteWhere p).lookup k = (T.lookup k).filter (!p ·) := by
  ext r
  simp only [Option.filter_eq_some_iff, lookup_eq_some_iff, deleteWhere, List.mem_filter]
  tauto

end Delete

section Update

/-- `UPDATE ... SET f WHERE p`, for columns outside the key. -/
def updateWhere (T : Table key) (p : ρ → Bool) (f : ρ → ρ)
    (hf : ∀ r, key (f r) = key r) : Table key :=
  ⟨T.rows.map fun r => if p r then f r else r, by
    have h : key ∘ (fun r => if p r = true then f r else r) = key := by
      funext r
      by_cases hp : p r <;> simp [hp, hf]
    rw [List.map_map, h]
    exact T.nodup⟩

theorem lookup_updateWhere [DecidableEq κ] (T : Table key) (p : ρ → Bool) (f : ρ → ρ)
    (hf : ∀ r, key (f r) = key r) (k : κ) :
    (T.updateWhere p f hf).lookup k = (T.lookup k).map fun r => if p r then f r else r := by
  have hkey : ∀ r, key (if p r = true then f r else r) = key r := by
    intro r
    by_cases hp : p r <;> simp [hp, hf]
  simp only [lookup, updateWhere, List.find?_map]
  congr 2
  funext r
  simp [hkey]

end Update

section Upsert

variable [DecidableEq κ]

/-- `INSERT ... ON CONFLICT DO UPDATE`: a row with the key of `row` gets the columns that `upd`
sets, else `row` is new. -/
def upsert (T : Table key) (row : ρ) (upd : ρ → ρ) (hupd : ∀ r, key (upd r) = key r) : Table key :=
  match h : T.lookup (key row) with
  | some _ => T.updateWhere (fun r => key r = key row) upd hupd
  | none => ⟨T.rows ++ [row], by
      rw [List.map_append, List.nodup_append]
      refine ⟨T.nodup, List.nodup_singleton _, ?_⟩
      rintro a ha b hb rfl
      obtain ⟨r, hr, rfl⟩ := List.mem_map.mp ha
      exact lookup_eq_none_iff.mp h r hr (List.mem_singleton.mp hb)⟩

theorem lookup_upsert (T : Table key) (row : ρ) (upd : ρ → ρ)
    (hupd : ∀ r, key (upd r) = key r) (k : κ) :
    (T.upsert row upd hupd).lookup k =
      if k = key row then some ((T.lookup (key row)).elim row upd)
      else T.lookup k := by
  unfold upsert
  split
  case h_1 r h =>
    rw [lookup_updateWhere]
    split
    case isTrue hk =>
      subst hk
      simp [h, lookup_key h]
    case isFalse hk =>
      cases hl : T.lookup k with
      | none => rfl
      | some r' => simp [lookup_key hl, hk]
  case h_2 h =>
    split
    case isTrue hk =>
      subst hk
      simp only [h, Option.elim_none]
      exact lookup_eq_some_iff.mpr ⟨List.mem_append_right _ (List.mem_singleton.mpr rfl), rfl⟩
    case isFalse hk => simp [lookup, Ne.symm hk]

/-- The rows after an upsert are old, new or old and changed. -/
theorem mem_upsert {T : Table key} {row r : ρ} {upd : ρ → ρ} {hupd : ∀ r, key (upd r) = key r}
    (h : r ∈ (T.upsert row upd hupd).rows) : r ∈ T.rows ∨ r = row ∨ ∃ r₀ ∈ T.rows, r = upd r₀ := by
  unfold upsert at h
  split at h
  · obtain ⟨r₀, hr₀, rfl⟩ := List.mem_map.mp h
    split
    · exact .inr (.inr ⟨r₀, hr₀, rfl⟩)
    · exact .inl hr₀
  · obtain hr | hr := List.mem_append.mp h
    · exact .inl hr
    · exact .inr (.inl (List.mem_singleton.mp hr))

end Upsert

end Table
