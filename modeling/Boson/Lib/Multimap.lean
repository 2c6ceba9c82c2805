import Boson.Lib.Sorting
import Mathlib.Order.Defs.LinearOrder

/-!
# Multimaps

`Multimap κ α` is a `std::multimap`: a list of entries, sorted by their keys. An entry is inserted
after all that have the same key (`emplace`).

* `filter_emplace`: what does not select the new entry does not see it.
* `least_of_head`: the first entry has the least key.
-/

/-- Entries sorted by their keys. -/
structure Multimap (κ α : Type*) [LinearOrder κ] where
  entries : List (κ × α)
  sorted : entries.Pairwise fun a b => a.1 ≤ b.1

namespace Multimap

variable {κ α : Type*} [LinearOrder κ] {m : Multimap κ α} {k : κ} {a : α} {e : κ × α}

/-- The multimap without entries. -/
def empty : Multimap κ α := ⟨[], List.Pairwise.nil⟩

/-- An entry, in front of the first one with a greater key. -/
abbrev insertEntry (e : κ × α) (entries : List (κ × α)) : List (κ × α) :=
  entries.orderedInsert (fun a b => a.1 < b.1) e

theorem sorted_insertEntry {entries : List (κ × α)} (h : entries.Pairwise fun a b => a.1 ≤ b.1) :
    (insertEntry e entries).Pairwise fun a b => a.1 ≤ b.1 := by
  induction entries with
  | nil => exact List.pairwise_singleton _ _
  | cons b rest ih =>
    obtain ⟨hb, hrest⟩ := List.pairwise_cons.mp h
    rw [insertEntry, List.orderedInsert_cons]
    split_ifs with hlt
    · refine List.pairwise_cons.mpr ⟨fun c hc => ?_, h⟩
      obtain rfl | hc := List.mem_cons.mp hc
      · exact hlt.le
      · exact hlt.le.trans (hb c hc)
    · refine List.pairwise_cons.mpr ⟨fun c hc => ?_, ih hrest⟩
      obtain rfl | hc := (List.mem_orderedInsert _).mp hc
      · exact not_lt.mp hlt
      · exact hb c hc

/-- `emplace`. -/
def emplace (m : Multimap κ α) (k : κ) (a : α) : Multimap κ α :=
  ⟨insertEntry (k, a) m.entries, sorted_insertEntry m.sorted⟩

theorem perm_emplace (m : Multimap κ α) (k : κ) (a : α) :
    (m.emplace k a).entries.Perm ((k, a) :: m.entries) := List.perm_orderedInsert _ _ _

@[simp] theorem mem_emplace : e ∈ (m.emplace k a).entries ↔ e = (k, a) ∨ e ∈ m.entries :=
  List.mem_orderedInsert _

theorem filter_emplace {p : κ × α → Bool} (h : p (k, a) = false) :
    (m.emplace k a).entries.filter p = m.entries.filter p :=
      Sorting.filter_orderedInsert h m.entries

/-- `erase`, of the entries that are selected. -/
def erase (m : Multimap κ α) (p : κ × α → Bool) : Multimap κ α :=
  ⟨m.entries.filter fun e => !p e, m.sorted.filter _⟩

@[simp] theorem mem_erase {p : κ × α → Bool} : e ∈ (m.erase p).entries ↔
    e ∈ m.entries ∧ p e = false := by
  simp [erase]

/-- The first entry has the least key. -/
theorem least_of_head (h : m.entries.head? = some e) (b : κ × α)
    (hb : b ∈ m.entries) : e.1 ≤ b.1 := by
  obtain ⟨entries, sorted⟩ := m
  cases entries with
  | nil => cases hb
  | cons c rest =>
    cases h
    obtain rfl | hb := List.mem_cons.mp hb
    · exact le_rfl
    · exact (List.pairwise_cons.mp sorted).1 b hb

end Multimap
