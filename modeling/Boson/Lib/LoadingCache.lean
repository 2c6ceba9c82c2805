import Boson.Lib.Table
import Mathlib.Data.List.Induction

/-!
# Caches that load what they lack

`get` gives the value of a key. A value that is not cached is loaded first; `load` may fail, and
then the cache stays as it was. Each `get` gives the key a new expiration time, and a sweep
(`handleExpiration`) drops the keys whose time has come.

`lookup_run` says what a cache holds after any operations: the keys that were asked for and were not
swept since they became due. It follows that a `get` gives what `load` would give (`get_run`),
whatever was cached, swept and loaded again before.

The clock is any type with an order; it need not go forward.
-/

namespace LoadingCache

/-- A value, and the time from which a sweep drops it. -/
structure Entry (κ ν τ : Type*) where
  key : κ
  value : ν
  expirationTime : τ

/-- The entries of a cache. -/
abbrev Cache (κ ν τ : Type*) := Table (Entry.key : Entry κ ν τ → κ)

/-- What is done with a cache at a time. -/
inductive Op (κ τ : Type*) where
  | get (key : κ) (now : τ)
  | handleExpiration (now : τ)

variable {κ ν τ : Type*} [DecidableEq κ] [LE τ] [DecidableLE τ]

/-- The value of a key, and the cache after it was asked for. -/
def get (load : κ → Option ν) (due : τ → τ) (self : Cache κ ν τ) (key : κ) (now : τ) :
    Option ν × Cache κ ν τ :=
  match self.lookup key with
  | some entry =>
    (some entry.value,
      self.updateWhere (fun e => e.key = key)
        (fun e => { e with expirationTime := due now }) fun _ => rfl)
  | none =>
    match load key with
    | some value =>
      (some value, self.upsert { key, value, expirationTime := due now } id fun _ => rfl)
    | none => (none, self)

/-- The cache without the entries that are due. -/
def handleExpiration (self : Cache κ ν τ) (now : τ) : Cache κ ν τ :=
  self.deleteWhere fun e => e.expirationTime ≤ now

variable (load : κ → Option ν) (due : τ → τ)

/-- One operation. -/
def step (self : Cache κ ν τ) : Op κ τ → Cache κ ν τ
  | .get key now => (get load due self key now).2
  | .handleExpiration now => handleExpiration self now

/-- Operations on a cache that was empty. -/
def run (ops : List (Op κ τ)) : Cache κ ν τ := ops.foldl (step load due) Table.empty

omit [LE τ] [DecidableLE τ] in
/-- A `get` changes what it loads or finds, and nothing else. -/
theorem lookup_get {self : Cache κ ν τ} {key : κ} {now : τ}
    (h : ∀ e, self.lookup key = some e → load key = some e.value) (k : κ) :
    (get load due self key now).2.lookup k =
      if k = key then (load key).map ({ key, value := ·, expirationTime := due now })
      else self.lookup k := by
  unfold get
  split
  case h_1 entry hentry =>
    rw [Table.lookup_updateWhere, h entry hentry]
    split_ifs with hk
    · subst hk
      have hkey := Table.lookup_key hentry
      simp [hentry, hkey]
    · cases hl : self.lookup k with
      | none => rfl
      | some e => simp [Table.lookup_key hl, hk]
  case h_2 hnone =>
    split
    case h_1 value hload =>
      rw [Table.lookup_upsert, hnone, hload]
      rfl
    case h_2 hload =>
      split_ifs with hk
      · subst hk
        rw [hnone, hload]
        rfl
      · rfl

theorem lookup_handleExpiration {self : Cache κ ν τ} {now : τ} {k : κ} {e : Entry κ ν τ} :
    (handleExpiration self now).lookup k = some e ↔
      self.lookup k = some e ∧ ¬ e.expirationTime ≤ now := by
  rw [handleExpiration, Table.lookup_deleteWhere]
  simp

/-- The operation does not end what a `get` of the key at `t` began: it is not one more of them, and
no sweep that is late enough. -/
def Op.Spares (key : κ) (t : τ) : Op κ τ → Prop
  | .get k _ => k ≠ key
  | .handleExpiration now => ¬ due t ≤ now

/-- The key was last asked for at `t`, and no sweep since then dropped it. -/
def Kept (ops : List (Op κ τ)) (key : κ) (t : τ) : Prop :=
  ∃ before after, ops = before ++ .get key t :: after ∧ ∀ op ∈ after, op.Spares due key t

variable {load due}

omit [DecidableEq κ] [DecidableLE τ] in
theorem not_kept_nil {key : κ} {t : τ} : ¬ Kept due [] key t := by
  rintro ⟨before, after, h, -⟩
  simp at h

omit [DecidableEq κ] [DecidableLE τ] in
theorem kept_concat {ops : List (Op κ τ)} {op : Op κ τ} {key : κ} {t : τ} :
    Kept due (ops ++ [op]) key t ↔ op = .get key t ∨ Kept due ops key t ∧ op.Spares due key t := by
  constructor
  · rintro ⟨before, after, h, hafter⟩
    cases after using List.reverseRecOn with
    | nil =>
      obtain ⟨-, hlast⟩ := List.append_inj' h rfl
      cases hlast
      exact .inl rfl
    | append_singleton after last =>
      rw [← List.cons_append, ← List.append_assoc] at h
      obtain ⟨hops, hlast⟩ := List.append_inj' h rfl
      cases hlast
      exact .inr ⟨⟨before, after, hops, fun op hop => hafter op (List.mem_append_left _ hop)⟩,
        hafter op (List.mem_append_right _ List.mem_cons_self)⟩
  · rintro (rfl | ⟨⟨before, after, rfl, hafter⟩, hop⟩)
    · exact ⟨ops, [], rfl, by simp⟩
    · refine ⟨before, after ++ [op], by simp, fun o ho => ?_⟩
      rcases List.mem_append.mp ho with ho | ho
      · exact hafter o ho
      · rw [List.mem_singleton.mp ho]
        exact hop

/-- What a cache holds after any operations. -/
theorem lookup_run {ops : List (Op κ τ)} {key : κ} {e : Entry κ ν τ} :
    (run load due ops).lookup key = some e ↔
      ∃ t, Kept due ops key t ∧ ∃ value, load key = some value ∧
        e = { key, value, expirationTime := due t } := by
  induction ops using List.reverseRecOn generalizing key e with
  | nil => simp [run, not_kept_nil]
  | append_singleton ops op ih =>
    have hrun : run load due (ops ++ [op]) = step load due (run load due ops) op := by simp [run]
    rw [hrun]
    simp only [kept_concat]
    cases op with
    | handleExpiration now =>
      rw [step, lookup_handleExpiration, ih]
      constructor
      · rintro ⟨⟨t, ht, value, hvalue, rfl⟩, hnow⟩
        exact ⟨t, .inr ⟨ht, hnow⟩, value, hvalue, rfl⟩
      · rintro ⟨t, ht | ⟨ht, hnow⟩, value, hvalue, rfl⟩
        · cases ht
        · exact ⟨⟨t, ht, value, hvalue, rfl⟩, hnow⟩
    | get k now =>
      have hsound : ∀ e, (run load due ops).lookup k = some e → load k = some e.value := by
        intro e he
        obtain ⟨t, -, value, hvalue, rfl⟩ := ih.mp he
        exact hvalue
      rw [step, lookup_get load due hsound]
      split_ifs with hk
      · subst hk
        -- the last `get` of the key is this one
        constructor
        · intro he
          obtain ⟨value, hvalue, rfl⟩ := Option.map_eq_some_iff.mp he
          exact ⟨now, .inl rfl, value, hvalue, rfl⟩
        · rintro ⟨t, ht | ⟨-, ht⟩, value, hvalue, rfl⟩
          · cases ht
            rw [hvalue]
            rfl
          · exact absurd rfl ht
      · rw [ih]
        refine exists_congr fun t => and_congr_left fun _ => ?_
        have hget : (Op.get k now : Op κ τ) ≠ .get key t := by
          intro h
          cases h
          exact hk rfl
        exact ⟨fun ht => .inr ⟨ht, Ne.symm hk⟩, fun ht => (ht.resolve_left hget).1⟩

/-- Whatever was done with the cache, a `get` gives what `load` gives. -/
theorem get_run (ops : List (Op κ τ)) (key : κ) (now : τ) :
    (get load due (run load due ops) key now).1 = load key := by
  unfold get
  split
  case h_1 entry hentry =>
    obtain ⟨t, -, value, hvalue, rfl⟩ := lookup_run.mp hentry
    exact hvalue.symm
  case h_2 hnone =>
    split
    case h_1 value hload => exact hload.symm
    case h_2 hload => exact hload.symm

end LoadingCache
