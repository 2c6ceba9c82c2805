import Mathlib.Tactic.Common

/-!
# Transactions of a database connection

A connection has the committed state and, in a transaction, the state that the transaction works on.
A statement that fails changes nothing by itself, but the database may roll the transaction back
with it.

* `writes_ok`, `writes_fail`: a loop of statements in a transaction, which stops at the first one
  that fails.
* `write_pending`: as long as a transaction is open and is not rolled back, no statement commits
  anything.
-/

namespace Transaction

universe u v

/-- How a statement ends: it is done, it failed, or it failed and the transaction was rolled
back. -/
inductive Outcome where
  | done
  | failed
  | rolledBack
  deriving DecidableEq

/-- A connection to a database with states in `σ`. -/
structure Connection (σ : Type u) where
  committed : σ
  working : Option σ := none
  deriving DecidableEq

namespace Connection

variable {σ : Type u} {α : Type v} {c : Connection σ}

/-- `BEGIN`, which fails in a transaction. `ok` tells if the database is able to do it. -/
def «begin» (c : Connection σ) (ok : Bool) : Option (Connection σ) :=
  if ok && c.working.isNone then some { c with working := some c.committed } else none

/-- A statement, outside a transaction one of its own. -/
def write (c : Connection σ) (f : σ → σ) : Outcome → Bool × Connection σ
  | .done =>
    match c.working with
    | some w => (true, { c with working := some (f w) })
    | none => (true, { c with committed := f c.committed })
  | .failed => (false, c)
  | .rolledBack => (false, { c with working := none })

/-- `COMMIT`. -/
def commit (c : Connection σ) : Connection σ := { committed := c.working.getD c.committed }

/-- A statement for each of the parameters, up to the first that fails; `outcome i` is that of the
`i`th one. -/
def writes (f : α → σ → σ) (outcome : Nat → Outcome) : Nat → List α → Connection σ →
    Bool × Connection σ
  | _, [], c => (true, c)
  | i, a :: as, c =>
    match c.write (f a) (outcome i) with
    | (true, c) => writes f outcome (i + 1) as c
    | (false, c) => (false, c)

/-- A transaction is open. -/
def Pending (c : Connection σ) : Prop := c.working.isSome = true

theorem write_done {f : σ → σ} {w : σ} (hw : c.working = some w) :
    c.write f .done = (true, { c with working := some (f w) }) := by
  simp only [write, hw]

variable {f : α → σ → σ} {outcome : Nat → Outcome} {i : Nat} {as : List α}

/-- All statements are done. -/
theorem writes_ok {w : σ} (hw : c.working = some w) (h : ∀ k < as.length, outcome (i + k) = .done) :
    writes f outcome i as c =
      (true, { c with working := some (as.foldl (fun w a => f a w) w) }) := by
  induction as generalizing i c w with
  | nil =>
    rw [writes, List.foldl_nil, ← hw]
  | cons a as ih =>
    have hdone : outcome i = .done := h 0 (Nat.succ_pos _)
    rw [writes, hdone, write_done hw]
    refine (ih rfl fun k hk => ?_).trans (by rw [List.foldl_cons])
    have hnext := h (k + 1) (Nat.succ_lt_succ hk)
    rwa [show i + 1 + k = i + (k + 1) by omega]

/-- A statement is the first that is not done. -/
theorem writes_fail {w : σ} (hw : c.working = some w) {k : Nat} (hk : k < as.length)
    (hbefore : ∀ j < k, outcome (i + j) = .done) (hfail : outcome (i + k) ≠ .done) :
    (writes f outcome i as c).1 = false ∧ (writes f outcome i as c).2.committed = c.committed ∧
      ((writes f outcome i as c).2.working = none ↔ outcome (i + k) = .rolledBack) := by
  induction as generalizing i c w k with
  | nil => cases hk
  | cons a as ih =>
    cases k with
    | zero =>
      rw [Nat.add_zero] at hfail ⊢
      rw [writes]
      cases hout : outcome i with
      | done => exact absurd hout hfail
      | failed => simp [write, hw]
      | rolledBack => simp [write]
    | succ k =>
      have hdone : outcome i = .done := hbefore 0 (Nat.succ_pos _)
      rw [writes, hdone, write_done hw]
      rw [show i + (k + 1) = i + 1 + k by omega] at hfail ⊢
      refine ih rfl (Nat.lt_of_succ_lt_succ hk) (fun j hj => ?_) hfail
      have hnext := hbefore (j + 1) (Nat.succ_lt_succ hj)
      rwa [show i + 1 + j = i + (j + 1) by omega]

/-- The statements are all done, or there is a first that is not. -/
theorem all_done_or (outcome : Nat → Outcome) (n : Nat) :
    (∀ k < n, outcome k = .done) ∨ ∃ k < n, (∀ j < k, outcome j = .done) ∧ outcome k ≠ .done := by
  induction n with
  | zero => exact .inl fun k hk => by cases hk
  | succ n ih =>
    obtain hall | ⟨k, hk, hfirst⟩ := ih
    · by_cases hlast : outcome n = .done
      · refine .inl fun k hk => ?_
        obtain hk | rfl := Nat.lt_succ_iff_lt_or_eq.mp hk
        · exact hall k hk
        · exact hlast
      · exact .inr ⟨n, Nat.lt_succ_self n, hall, hlast⟩
    · exact .inr ⟨k, Nat.lt_succ_of_lt hk, hfirst⟩

/-- The first statement that is not done ends in one way. -/
theorem first_unique {k k' : Nat} (hbefore : ∀ j < k, outcome j = .done) (hfail : outcome k ≠ .done)
    (hbefore' : ∀ j < k', outcome j = .done) (hfail' : outcome k' ≠ .done) : k = k' := by
  obtain hlt | heq | hlt := Nat.lt_trichotomy k k'
  · exact absurd (hbefore' k hlt) hfail
  · exact heq
  · exact absurd (hbefore k' hlt) hfail'

/-! ## An open transaction -/

theorem begin_pending (h : c.Pending) (ok : Bool) : c.begin ok = none := by
  rw [Pending] at h
  simp [Connection.begin, Option.isSome_iff_ne_none.mp h]

/-- In an open transaction nothing is committed by a statement. -/
theorem write_pending (h : c.Pending) (f : σ → σ) {o : Outcome} (ho : o ≠ .rolledBack) :
    (c.write f o).2.Pending ∧ (c.write f o).2.committed = c.committed := by
  obtain ⟨w, hw⟩ := Option.isSome_iff_exists.mp h
  cases o with
  | done =>
    rw [write_done hw]
    exact ⟨rfl, rfl⟩
  | failed => exact ⟨h, rfl⟩
  | rolledBack => exact absurd rfl ho

end Connection

end Transaction
