import Boson.KBucket.Order
import Boson.RoutingTable.Admission

/-!
# What `put` does to a routing table

* `Reachable`: the tables that a node can have, after any operations.
* `SplitsTo`: the splits of the loop of `put`. They keep the entries (`SplitsTo.keeps`).
* `put_conservative`: the loop ends, and after it the new entry is merged, ignored, or added, at
  most in the place of one other entry of its bucket.
-/

namespace Boson

namespace RoutingTable

/-- `RoutingTable::_refreshOnly`. -/
def refreshOnly (self : RoutingTable) (toRefresh : KBucketEntry) : RoutingTable :=
  self.modifyBucket toRefresh.nodeId (·.refresh toRefresh)

/-- The tables of the node `localId` after any operations. -/
inductive Reachable (localId : Id) : RoutingTable → Prop where
  | init : Reachable localId (init localId)
  | step {T T' : RoutingTable} (op : Op) : Reachable localId T → T.step op = some T' →
      Reachable localId T'
  | refreshOnly {T : RoutingTable} (toRefresh : KBucketEntry) :
      Reachable localId T → Reachable localId (T.refreshOnly toRefresh)
  | maintenance {T : RoutingTable} (now : UInt64) (bootstrapIds : List Id) :
      Reachable localId T → Reachable localId (T.maintenance now bootstrapIds)

variable {T T₁ T₂ T' : RoutingTable} {now : UInt64} {e : KBucketEntry} {localId : Id}

theorem Tidy.step (h : T.Tidy) {op : Op} (hstep : T.step op = some T') : T'.Tidy := by
  have hrun : T.run [op] = some T' := by simp [run, hstep]
  exact tidy_stable.run h hrun

theorem Tidy.refreshOnly (h : T.Tidy) (toRefresh : KBucketEntry) : (T.refreshOnly toRefresh).Tidy :=
  Each.modifyAt h _ fun _ hb => hb.refresh toRefresh

theorem Tidy.maintenance (h : T.Tidy) (now : UInt64) (bootstrapIds : List Id) :
    (T.maintenance now bootstrapIds).Tidy :=
  tidy_stable.maintenance h

theorem Reachable.inv (h : Reachable localId T) : Inv T := by
  induction h with
  | init => exact init_inv localId
  | step op _ hstep ih =>
    obtain ⟨T', hT', hinv⟩ := step_inv ih op
    rw [hT'] at hstep
    cases hstep
    exact hinv
  | refreshOnly toRefresh _ ih =>
    exact ih.modifyBucket _ (KBucket.refresh_keeps _ toRefresh fun _ => False) (by simp)
  | maintenance now bootstrapIds _ ih => exact maintenance_inv ih

theorem Reachable.tidy (h : Reachable localId T) : T.Tidy := by
  induction h with
  | init => exact init_tidy localId
  | step op _ hstep ih => exact ih.step hstep
  | refreshOnly toRefresh _ ih => exact ih.refreshOnly toRefresh
  | maintenance now bootstrapIds _ ih => exact ih.maintenance now bootstrapIds

/-! ## The splits -/

/-- The table after some of the splits that the loop of `put` makes. -/
inductive SplitsTo (now : UInt64) (e : KBucketEntry) (T : RoutingTable) : RoutingTable → Prop where
  | refl : SplitsTo now e T T
  | split {T₁ : RoutingTable} (h : SplitsTo now e T T₁)
      (hs : needsSplit now (T₁.getBucket e.nodeId) e = true) :
      SplitsTo now e T (T₁.split now (T₁.getBucket e.nodeId) (isSplittable_of_needsSplit hs))

/-- The splits keep the entries. -/
theorem SplitsTo.keeps (hsplits : SplitsTo now e T T₁) (h : Inv T) (ht : T.Tidy) :
    Inv T₁ ∧ T₁.Tidy ∧ T₁.allEntries.Perm T.allEntries := by
  induction hsplits with
  | refl => exact ⟨h, ht, .refl _⟩
  | split _ hs ih =>
    obtain ⟨h₁, ht₁, hperm⟩ := ih
    have hb := h₁.getBucket_mem e.nodeId
    exact ⟨(split_inv now h₁ hb _).1, tidy_stable.split ht₁ (ht₁ _ hb) _,
      (split_perm hb (ht₁ _ hb) _).trans hperm⟩

/-- The loop ends after some splits, and the entry is put into its bucket. -/
theorem exists_splitsTo (h : Inv T) (now : UInt64) (e : KBucketEntry) :
    ∃ T₁, SplitsTo now e T T₁ ∧ needsSplit now (T₁.getBucket e.nodeId) e = false ∧
      T.put now e = some (T₁.modifyBucket e.nodeId (·.put now e)) := by
  obtain ⟨T', hput, -⟩ := put_inv now e h
  obtain ⟨T₁, hsplits, hend, rfl⟩ :=
    put_rule (fun T₁ hsplits hs => hsplits.split hs) (SplitsTo.refl (T := T)) hput
  exact ⟨T₁, hsplits, hend, hput⟩

/-! ## A node that is in the table -/

theorem getEntry_eq_some_iff (h : Inv T) {id : Id} {x : KBucketEntry} :
    T.getEntry id = some x ↔ x ∈ T.allEntries ∧ x.nodeId = id := by
  constructor
  · intro hx
    exact ⟨List.mem_flatMap.mpr ⟨_, h.getBucket_mem id, List.mem_of_find?_eq_some hx⟩,
      by simpa using List.find?_some hx⟩
  · rintro ⟨hx, rfl⟩
    exact getEntry_of_mem h hx

/-- There is no split for a node that is in the table. -/
theorem put_of_getEntry {x : KBucketEntry} (hx : T.getEntry e.nodeId = some x) :
    T.put now e = some (T.modifyBucket e.nodeId (·.put now e)) := by
  have hid : x.nodeId = e.nodeId := by simpa using List.find?_some hx
  have hexists : (T.getBucket e.nodeId).exists e.nodeId = true :=
    List.any_eq_true.mpr ⟨x, List.mem_of_find?_eq_some hx, by simpa using hid⟩
  have hsplit : needsSplit now (T.getBucket e.nodeId) e = false := by
    simp [needsSplit, hexists]
  simp [RoutingTable.put, putLoop, hsplit]

/-- An entry for a node that is in the table brings in no id and no address. -/
theorem All.put_of_getEntry {P : Id → SocketAddress → Prop} (hall : T.All P) (h : Inv T)
    {x : KBucketEntry}
    (hx : T.getEntry e.nodeId = some x) (hput : T.put now e = some T') : T'.All P := by
  rw [RoutingTable.put_of_getEntry hx] at hput
  cases hput
  have hbucket : ((T.getBucket e.nodeId).put now e).All P := by
    obtain ⟨-, i, hmodify⟩ | ⟨hno, -⟩ := KBucket.put_cases (T.getBucket e.nodeId) now e
    · rw [hmodify]
      refine KBucket.Every.modify (P := fun y => P y.nodeId y.sockaddr)
        (hall _ (h.getBucket_mem e.nodeId)) i
        fun y hy => ?_
      split_ifs
      · rw [y.merge_nodeId e, y.merge_sockaddr e]
        exact hy
      · exact hy
    · have hid : x.nodeId = e.nodeId := by simpa using List.find?_some hx
      have hmatch := hno x (List.mem_of_find?_eq_some hx)
      simp [NodeInfo.matches, hid] at hmatch
  rw [all_iff] at hall ⊢
  intro y hy
  obtain ⟨others, hbefore, hafter⟩ := h.entries_around e.nodeId
  obtain hy | hy := List.mem_append.mp ((hafter _).mem_iff.mp hy)
  · exact hbucket y hy
  · exact hall y (hbefore.mem_iff.mpr (List.mem_append_right _ hy))

/-- An entry for a node that is in the table at the same address is merged into the one of the
table. -/
theorem put_merges (h : Inv T) (ht : T.Tidy) {x : KBucketEntry} (hx : T.getEntry e.nodeId = some x)
    (haddr : x.sockaddr = e.sockaddr) (now : UInt64) :
    ∃ T', T.put now e = some T' ∧ T'.getEntry e.nodeId = some (x.merge e) := by
  have hmem : x ∈ (T.getBucket e.nodeId).entries := List.mem_of_find?_eq_some hx
  have hid : x.nodeId = e.nodeId := by simpa using List.find?_some hx
  have heq : x.equals e.toNodeInfo = true := by simp [NodeInfo.equals, hid, haddr]
  have htidy := ht _ (h.getBucket_mem e.nodeId)
  refine ⟨_, put_of_getEntry hx, (getEntry_eq_some_iff (putBucket_inv h)).mpr
    ⟨?_, by simpa using hid⟩⟩
  obtain ⟨others, -, hafter⟩ := h.entries_around e.nodeId
  refine (hafter (·.put now e)).mem_iff.mpr (List.mem_append_left others ?_)
  have hnot (hno : ∀ y ∈ (T.getBucket e.nodeId).entries, y.matches e.toNodeInfo = false) :
      False := by
    have hm := hno x hmem
    rw [KBucket.equals_matches heq] at hm
    cases hm
  have hresult := htidy.put_result now e
  generalize (T.getBucket e.nodeId).put now e = b' at hresult ⊢
  cases hresult with
  | merged pre y post hsplit hy =>
    have hsame : x = y := htidy.eq_of_equals hmem (by simp [hsplit]) (KBucket.equals_matches heq) hy
    rw [hsame]
    exact List.mem_append_right _ List.mem_cons_self
  | ignored hno =>
    rw [hno x hmem] at heq
    cases heq
  | inserted hno => exact (hnot hno).elim
  | replaced r hno => exact (hnot hno).elim

/-- The entries of the other nodes stay when one is removed. -/
theorem getEntry_remove (h : Inv T) {id other : Id} {x : KBucketEntry} (hx : T.getEntry id = some x)
    (hne : other ≠ id) : (T.remove now other).getEntry id = some x := by
  obtain ⟨hmem, hid⟩ := (getEntry_eq_some_iff h).mp hx
  refine (getEntry_eq_some_iff (remove_inv h)).mpr ⟨?_, hid⟩
  unfold RoutingTable.remove
  split
  · next r hr =>
    have hrid : r.nodeId = other := by simpa using List.find?_some hr
    have hxr : x ≠ r := by
      rintro rfl
      exact hne (hrid.symm.trans hid)
    obtain ⟨others, hbefore, hafter⟩ := h.entries_around other
    refine (hafter _).mem_iff.mpr (List.mem_append.mpr ?_)
    refine (List.mem_append.mp (hbefore.mem_iff.mp hmem)).imp_left fun hin => ?_
    unfold KBucket.removeIfBad
    split_ifs
    · simpa [KBucket.update] using ⟨hin, hxr⟩
    · exact hin
  · exact hmem

/-! ## The entries after `put` -/

/-- What `put` does to the entries `before` of a table in which the new entry belongs to the bucket
`b`: it is merged into the entry of the same node, ignored, added, or put in the place of another
entry of `b`, which is bad or the last one and younger. -/
inductive PutChange (now : UInt64) (e : KBucketEntry) (b : KBucket)
    (before after : List KBucketEntry) : Prop where
  | merged (x : KBucketEntry) (rest : List KBucketEntry) : x.nodeId = e.nodeId →
      x.sockaddr = e.sockaddr →
      before.Perm (x :: rest) → after.Perm (x.merge e :: rest) → PutChange now e b before after
  | ignored : after.Perm before → PutChange now e b before after
  | inserted : after.Perm (e :: before) → PutChange now e b before after
  | replaced (r : KBucketEntry) (rest : List KBucketEntry) : r ∈ b.entries →
      r.needsReplacement now = true ∨ b.entries.getLast? = some r ∧ e.created < r.created →
        before.Perm (r :: rest) → after.Perm (e :: rest) → PutChange now e b before after

/-- An entry of a tidy bucket and the others. -/
theorem perm_filter_ne {b : KBucket} (ht : b.Tidy) {r : KBucketEntry} (hr : r ∈ b.entries) :
    b.entries.Perm (r :: b.entries.filter (· != r)) := by
  have hnodup : b.entries.Nodup := ht.apart.imp fun {x y} hxy heq => by
    rw [heq] at hxy
    simp [NodeInfo.matches] at hxy
  rw [← hnodup.erase_eq_filter]
  exact List.perm_cons_erase hr

theorem putChange_of_result {b b' : KBucket} (ht : b.Tidy) (h : KBucket.PutResult now e b b')
    (others : List KBucketEntry) : PutChange now e b (b.entries ++ others)
    (b'.entries ++ others) := by
  cases h with
  | merged pre x post hsplit heq =>
    simp only [NodeInfo.equals, Bool.and_eq_true, beq_iff_eq] at heq
    refine .merged x (pre ++ post ++ others) heq.1 heq.2 ?_ ?_
    · rw [hsplit]
      exact List.perm_middle.append_right others
    · exact List.perm_middle.append_right others
  | ignored _ => exact .ignored (.refl _)
  | inserted hno _ hroom =>
    exact .inserted ((KBucket.update_newcomer_perm hno hroom).append_right others)
  | replaced r hno _ hr hwhy =>
    exact .replaced r (b.entries.filter (· != r) ++ others) hr hwhy
      ((perm_filter_ne ht hr).append_right others)
      ((ht.update_replace_perm hno hr).append_right others)

/-- In every table that can be reached, `put` ends after some splits, each of which keeps the
entries, and changes the entries by the new one at most: it is merged into the entry of the same
node, ignored, or added, at most in the place of another entry of its bucket, which is bad or the
last one and younger. -/
theorem put_conservative (h : Reachable localId T) (now : UInt64) (e : KBucketEntry) :
    (∀ T₂, SplitsTo now e T T₂ → T₂.allEntries.Perm T.allEntries) ∧
      ∃ T₁ T', SplitsTo now e T T₁ ∧ needsSplit now (T₁.getBucket e.nodeId) e = false ∧
        T.put now e = some T' ∧
        PutChange now e (T₁.getBucket e.nodeId) T.allEntries T'.allEntries := by
  refine ⟨fun T₂ hsplits => (hsplits.keeps h.inv h.tidy).2.2, ?_⟩
  obtain ⟨T₁, hsplits, hend, hput⟩ := exists_splitsTo h.inv now e
  refine ⟨T₁, _, hsplits, hend, hput, ?_⟩
  obtain ⟨h₁, ht₁, hperm⟩ := hsplits.keeps h.inv h.tidy
  have ht : (T₁.getBucket e.nodeId).Tidy := ht₁ _ (h₁.getBucket_mem e.nodeId)
  obtain ⟨others, hbefore, hafter⟩ := h₁.entries_around e.nodeId
  replace hbefore := hperm.symm.trans hbefore
  replace hafter := hafter (·.put now e)
  cases putChange_of_result ht (ht.put_result now e) others with
  | merged x rest hid haddr hold hnew =>
    exact .merged x rest hid haddr (hbefore.trans hold) (hafter.trans hnew)
  | ignored hsame => exact .ignored (hafter.trans (hsame.trans hbefore.symm))
  | inserted hnew => exact .inserted (hafter.trans (hnew.trans (hbefore.symm.cons e)))
  | replaced r rest hr hwhy hold hnew =>
    exact .replaced r rest hr hwhy (hbefore.trans hold) (hafter.trans hnew)

/-- Entries put one after the other into a new table. -/
theorem reachable_of_scan {entries : List KBucketEntry}
    (h : scanAll now (init localId) entries = some T) :
    Reachable localId T := by
  rw [← (init_inv localId).load_entries] at h
  exact .step (.load now (entries.map some)) .init h

/-- An entry of a node that has answered, whose id begins with the byte `b`. -/
def entryOf (b : UInt8) (created : UInt64) : KBucketEntry where
  nodeId := Id.zero.setByte 0 b
  sockaddr := .inet ⟨[20, 51, 100, b], rfl⟩ 39001
  created := created
  lastSeen := created
  reachable := true

/-- Eight entries of the high half. -/
def highHalf : List KBucketEntry :=
  [0x80, 0x81, 0x82, 0x83, 0x84, 0x85, 0x86, 0x87].map fun b => entryOf b 2

/-- A full bucket is split for an older entry of the high half. All entries fall into that half, so
the last one, which is younger, has to go. -/
theorem put_conservative_full :
    ∃ T T', Reachable Id.zero T ∧ T.buckets.length = 1 ∧ T'.buckets.length = 2 ∧
      entryOf 0x87 2 ∈ T.allEntries ∧ entryOf 0x87 2 ∉ T'.allEntries ∧
        entryOf 0x88 1 ∈ T'.allEntries ∧
      (∀ T₂, SplitsTo 30 (entryOf 0x88 1) T T₂ → T₂.allEntries.Perm T.allEntries) ∧
      ∃ T₁, SplitsTo 30 (entryOf 0x88 1) T T₁ ∧
        needsSplit 30 (T₁.getBucket (entryOf 0x88 1).nodeId) (entryOf 0x88 1) = false ∧
        T.put 30 (entryOf 0x88 1) = some T' ∧
        PutChange 30 (entryOf 0x88 1) (T₁.getBucket (entryOf 0x88 1).nodeId) T.allEntries
          T'.allEntries := by
  have hscan : (scanAll 2 (init Id.zero) highHalf).map (fun T => (T.buckets.length,
      T.allEntries.contains (entryOf 0x87 2), (scanLoop 30 (entryOf 0x88 1) 257 T).map fun T' =>
        (T'.buckets.length, T'.allEntries.contains (entryOf 0x87 2),
          T'.allEntries.contains (entryOf 0x88 1)))) =
      some (1, true, some (2, false, true)) := by decide +kernel
  obtain ⟨T, hT, hbefore⟩ := Option.map_eq_some_iff.mp hscan
  have hreachable := reachable_of_scan hT
  obtain ⟨hsplits, T₁, T', hT₁, hend, hput, hchange⟩ :=
    put_conservative hreachable 30 (entryOf 0x88 1)
  rw [← hreachable.inv.put_eq_scan, hput, Option.map_some] at hbefore
  simp only [Prod.mk.injEq, Option.some.injEq, List.contains_eq_mem, decide_eq_true_eq,
    decide_eq_false_iff_not] at hbefore
  obtain ⟨hone, hlast, htwo, hgone, hnew⟩ := hbefore
  exact ⟨T, T', hreachable, hone, htwo, hlast, hgone, hnew, hsplits, T₁, hT₁, hend, hput, hchange⟩

end RoutingTable

end Boson
