import Boson.RoutingTable.Merge

/-!
# What a merge of buckets loses

A merge puts the entries of two siblings into their parent, one after the other. It counts the
entries that are not removable, but the parent takes all of them, and who gives way in a full bucket
is decided by another criterion.

* `put_loss`: what is lost when an entry is put, and when it is removable (`Harmless`).
* `mergeBuckets_effective_iff`: `mergeBuckets` keeps all entries that are not removable exactly if
  every put of every merge is harmless.
-/

namespace Boson

namespace RoutingTable

/-- Putting `e` into `b` makes only a removable entry give way: an entry with an address that is
there, the first bad one of a full bucket, or the younger one of the last entry and `e`. -/
structure Harmless (now : UInt64) (b : KBucket) (e : KBucketEntry) : Prop where
  address : (∃ x ∈ b.entries, x.sockaddr = e.sockaddr) → e.removableWithoutReplacement = true
  bad : (∀ x ∈ b.entries, x.sockaddr ≠ e.sockaddr) → b.isFull = true →
    ∀ x, b.entries.find? (·.needsReplacement now) = some x → x.removableWithoutReplacement = true
  youngest : (∀ x ∈ b.entries, x.sockaddr ≠ e.sockaddr) → b.isFull = true →
    b.needsReplacement now = false → ∀ y, b.entries.getLast? = some y →
      (if e.created < y.created then y else e).removableWithoutReplacement = true

variable {T : RoutingTable} {now : UInt64} {b : KBucket} {e : KBucketEntry} {localId : Id}

namespace Harmless

theorem iff_of_address {x : KBucketEntry} (hx : x ∈ b.entries) (heq : x.sockaddr = e.sockaddr) :
    Harmless now b e ↔ e.removableWithoutReplacement = true := by
  refine ⟨fun h => h.address ⟨x, hx, heq⟩, fun he => ⟨fun _ => he, fun hno => ?_, fun hno => ?_⟩⟩
  · exact absurd heq (hno x hx)
  · exact absurd heq (hno x hx)

theorem of_room (hapart : ∀ x ∈ b.entries, x.sockaddr ≠ e.sockaddr) (hroom : b.isFull = false) :
    Harmless now b e where
  address := fun ⟨x, hx, heq⟩ => absurd heq (hapart x hx)
  bad _ hfull := by
    rw [hroom] at hfull
    cases hfull
  youngest _ hfull := by
    rw [hroom] at hfull
    cases hfull

theorem iff_of_bad (hapart : ∀ x ∈ b.entries, x.sockaddr ≠ e.sockaddr) (hfull : b.isFull = true)
    {x : KBucketEntry} (hbad : b.entries.find? (·.needsReplacement now) = some x) :
    Harmless now b e ↔ x.removableWithoutReplacement = true := by
  refine ⟨fun h => h.bad hapart hfull x hbad, fun h =>
    ⟨fun ⟨y, hy, heq⟩ => absurd heq (hapart y hy), ?_, ?_⟩⟩
  · intro _ _ y hy
    rw [hbad] at hy
    cases hy
    exact h
  · intro _ _ hnone
    have hneeds : b.needsReplacement now = true :=
      List.any_eq_true.mpr ⟨x, List.mem_of_find?_eq_some hbad, by simpa using List.find?_some hbad⟩
    rw [hneeds] at hnone
    cases hnone

theorem iff_of_youngest (hapart : ∀ x ∈ b.entries, x.sockaddr ≠ e.sockaddr)
    (hfull : b.isFull = true) (hbad : b.entries.find? (·.needsReplacement now) = none)
    {y : KBucketEntry} (hlast : b.entries.getLast? = some y) :
    Harmless now b e ↔
      (if e.created < y.created then y else e).removableWithoutReplacement = true := by
  have hneeds : b.needsReplacement now = false := by
    rw [KBucket.needsReplacement, List.any_eq_false]
    exact List.find?_eq_none.mp hbad
  refine ⟨fun h => h.youngest hapart hfull hneeds y hlast, fun h =>
    ⟨fun ⟨x, hx, heq⟩ => absurd heq (hapart x hx), ?_, ?_⟩⟩
  · intro _ _ x hx
    rw [hbad] at hx
    cases hx
  · intro _ _ _ x hx
    rw [hlast] at hx
    cases hx
    exact h

end Harmless

/-- An entry with another id and an address that is there is ignored. -/
theorem put_of_address (now : UInt64) (ht : b.Tidy) (hid : ∀ x ∈ b.entries, x.nodeId ≠ e.nodeId)
    {x : KBucketEntry}
    (hx : x ∈ b.entries) (haddr : x.sockaddr = e.sockaddr) : b.put now e = b := by
  have hput := ht.put_result now e
  generalize b.put now e = b' at hput ⊢
  cases hput with
  | merged pre y post hsplit hye =>
    simp only [NodeInfo.equals, Bool.and_eq_true, beq_iff_eq] at hye
    exact absurd hye.1 (hid y (by simp [hsplit]))
  | ignored _ => rfl
  | inserted hno _ _ | replaced _ hno _ _ _ =>
    have hxe : x.matches e.toNodeInfo = true := by simp [NodeInfo.matches, haddr]
    rw [hno x hx] at hxe
    cases hxe

/-- What is lost when an entry with another id is put into a bucket. -/
theorem put_loss (now : UInt64) (ht : b.Tidy) (hr : e.reachable = true)
    (hid : ∀ x ∈ b.entries, x.nodeId ≠ e.nodeId) :
    ∃ lost, (e :: b.entries).Perm (lost ++ (b.put now e).entries) ∧
      (Harmless now b e ↔ ∀ x ∈ lost, x.removableWithoutReplacement = true) := by
  by_cases haddr : ∃ x ∈ b.entries, x.sockaddr = e.sockaddr
  · obtain ⟨x, hx, heq⟩ := haddr
    have hsame : b.put now e = b := put_of_address now ht hid hx heq
    refine ⟨[e], by rw [hsame, List.singleton_append], ?_⟩
    rw [List.forall_mem_singleton]
    exact Harmless.iff_of_address hx heq
  · have hapart : ∀ x ∈ b.entries, x.sockaddr ≠ e.sockaddr := fun x hx heq => haddr ⟨x, hx, heq⟩
    have hno : ∀ x ∈ b.entries, x.matches e.toNodeInfo = false := fun x hx =>
      NodeInfo.not_matches_iff.mpr ⟨hid x hx, hapart x hx⟩
    have hidx : b.entries.findIdx? (·.matches e.toNodeInfo) = none := by
      rw [List.findIdx?_eq_none_iff]
      exact fun x hx => by simp [hno x hx]
    -- an entry of a full bucket gives way to the new one
    have hreplaced {r : KBucketEntry} (hr : r ∈ b.entries) :
        (e :: b.entries).Perm ([r] ++ (b.update (some r) (some e)).entries) :=
      ((perm_filter_ne ht hr).cons e).trans
        ((List.Perm.swap r e _).trans ((ht.update_replace_perm hno hr).symm.cons r))
    unfold KBucket.put
    rw [hidx]
    dsimp only
    rw [if_pos hr]
    split_ifs with hroom
    · have hfull : b.isFull = false := by simpa [KBucket.isFull] using hroom
      exact ⟨[], (KBucket.update_newcomer_perm hno hroom).symm,
        iff_of_true (.of_room hapart hfull) (by simp)⟩
    · have hfull : b.isFull = true := by simpa [KBucket.isFull] using hroom
      cases hbad : b.entries.find? (·.needsReplacement now) with
      | some bad =>
        refine ⟨[bad], hreplaced (List.mem_of_find?_eq_some hbad), ?_⟩
        rw [List.forall_mem_singleton]
        exact Harmless.iff_of_bad hapart hfull hbad
      | none =>
        have hne : b.entries ≠ [] := fun h => by simp [h, MAX_ENTRIES_PER_BUCKET] at hroom
        obtain ⟨last, hlast⟩ : ∃ last, b.entries.getLast? = some last :=
          ⟨_, List.getLast?_eq_some_getLast hne⟩
        rw [Harmless.iff_of_youngest hapart hfull hbad hlast, hlast]
        dsimp only
        split_ifs with hyounger
        · exact ⟨[last], hreplaced (List.mem_of_getLast? hlast), by rw [List.forall_mem_singleton]⟩
        · exact ⟨[e], .refl _, by rw [List.forall_mem_singleton]⟩

/-- What is lost when entries are put into a bucket one after the other. -/
theorem puts_loss (now : UInt64) (ht : b.Tidy) {entries : List KBucketEntry}
    (hr : ∀ x ∈ entries, x.reachable = true)
    (hids : ((b.entries ++ entries).map (·.nodeId)).Nodup) :
    ∃ lost, (b.entries ++ entries).Perm (lost ++
      (entries.foldl (fun b entry => b.put now entry) b).entries) ∧
      (Runs.Every (fun pre e => Harmless now (pre.foldl (fun b entry => b.put now entry) b) e)
        entries ↔
        ∀ x ∈ lost, x.removableWithoutReplacement = true) := by
  induction entries using List.reverseRecOn with
  | nil => exact ⟨[], by simp, by simp⟩
  | append_singleton entries e ih =>
    simp only [← List.append_assoc, List.map_append, List.map_singleton] at hids
    have hsplit := List.nodup_append.mp hids
    obtain ⟨lost, hperm, hlost⟩ :=
      ih (fun x hx => hr x (List.mem_append_left _ hx)) (by simpa using hsplit.1)
    have ht' : (entries.foldl (fun b entry => b.put now entry) b).Tidy :=
      tidy_stable.foldl_put ht fun _ _ => trivial
    generalize hb' : entries.foldl (fun b entry => b.put now entry) b = b' at hperm ht'
    have hid : ∀ x ∈ b'.entries, x.nodeId ≠ e.nodeId := fun x hx => by
      refine hsplit.2.2 x.nodeId ?_ e.nodeId List.mem_cons_self
      rw [← List.map_append]
      exact List.mem_map_of_mem (hperm.mem_iff.mpr (List.mem_append_right _ hx))
    obtain ⟨more, hmore, hharmless⟩ := put_loss now ht' (hr e (by simp)) hid
    refine ⟨lost ++ more, ?_, ?_⟩
    · rw [List.foldl_append, hb', List.foldl_cons, List.foldl_nil, ← List.append_assoc,
        List.append_assoc lost]
      refine (hperm.append_right [e]).trans ?_
      rw [List.append_assoc]
      exact ((List.perm_append_singleton e _).trans hmore).append_left lost
    · rw [Runs.every_concat, hlost, hb', hharmless, List.forall_mem_append]

/-! ## The merges of the loop -/

/-- The parent of `b1` after some entries have been put into it. -/
def parentBucket (self : RoutingTable) (now : UInt64) (b1 : KBucket)
    (entries : List KBucketEntry) : KBucket :=
  entries.foldl (fun b entry => b.put now entry)
    { pfx := b1.pfx.getParent, homeBucket := self.isHomeBucket b1.pfx.getParent }

/-- All puts of the merge of `b1` and `b2` are harmless. -/
def HarmlessMerge (now : UInt64) (T : RoutingTable) (b1 b2 : KBucket) : Prop :=
  Runs.Every (fun pre e => Harmless now (T.parentBucket now b1 pre) e) (b1.entries ++ b2.entries)

theorem merge_loss (now : UInt64) {pre post : List KBucket} {b1 b2 : KBucket}
    (h : Inv T) (ht : T.Tidy) (hsplit : T.buckets = pre ++ b1 :: b2 :: post)
    (hsib : b1.pfx.isSiblingOf b2.pfx = true) :
    ∃ lost, T.allEntries.Perm (lost ++ (T.modify [b1, b2] [T.mergedBucket now b1 b2]).allEntries) ∧
      (HarmlessMerge now T b1 b2 ↔ ∀ x ∈ lost, x.removableWithoutReplacement = true) := by
  have hb1 : b1 ∈ T.buckets := by simp [hsplit]
  have hb2 : b2 ∈ T.buckets := by simp [hsplit]
  have hold :
      T.allEntries.Perm (b1.entries ++ b2.entries ++ (pre ++ post).flatMap (·.entries)) := by
    have hmid := flatMap_entries_mid pre b1 (b2 :: post)
    rw [← hsplit] at hmid
    refine hmid.trans ?_
    rw [List.append_assoc]
    exact (flatMap_entries_mid pre b2 post).append_left _
  have hids : ((b1.entries ++ b2.entries).map fun x => x.nodeId).Nodup := by
    have hnodup := ((hold.map (·.nodeId)).nodup_iff).mp h.partition.nodup
    rw [List.map_append] at hnodup
    exact (List.nodup_append.mp hnodup).1
  have hr : ∀ x ∈ b1.entries ++ b2.entries, x.reachable = true :=
    List.forall_mem_append.mpr ⟨(ht b1 hb1).reachable, (ht b2 hb2).reachable⟩
  obtain ⟨lost, hperm, hlost⟩ := puts_loss now
    (KBucket.Tidy.empty b1.pfx.getParent (T.isHomeBucket b1.pfx.getParent)) hr hids
  refine ⟨lost, hold.trans ?_, hlost⟩
  rw [List.nil_append] at hperm
  refine (hperm.append_right _).trans ?_
  rw [List.append_assoc, allEntries, merged_buckets h hsplit hsib]
  exact (flatMap_entries_mid pre _ post).symm.append_left lost

/-- The merge that the loop makes next is the only one. -/
theorem Merging.next {s : RoutingTable × Int} {pre post : List KBucket} {b1 b2 : KBucket}
    (h : Merging s pre b1 b2 post) :
    mergeStep now s = some (s.1.modify [b1, b2] [s.1.mergedBucket now b1 b2], s.2 - 1) := by
  obtain ⟨T, i⟩ := s
  obtain ⟨hsplit, hi, hmerge⟩ := h
  dsimp only at hsplit hi
  have hnat : (i + 1).toNat = pre.length + 1 := by omega
  have hlt : (i + 1).toNat < T.buckets.length := by simp [hnat, hsplit]
  have hb1 : T.buckets[(i + 1).toNat - 1] = b1 := by simp [hnat, hsplit]
  have hb2 : T.buckets[(i + 1).toNat] = b2 := by simp [hnat, hsplit]
  simp only [mergeStep, hb1, hb2]
  rw [if_neg (by omega), dif_neg (Nat.not_le.mpr hlt), if_pos hmerge, show i + 1 - 2 =
    i - 1 by omega]

theorem Merging.unique {s : RoutingTable × Int} {pre post pre' post' : List KBucket}
    {b1 b2 b1' b2' : KBucket}
    (h : Merging s pre b1 b2 post) (h' : Merging s pre' b1' b2' post') : b1' = b1 ∧ b2' = b2 := by
  have hlen : pre'.length = pre.length := by
    have := h.2.1
    have := h'.2.1
    omega
  obtain ⟨-, hrest⟩ := List.append_inj (h'.1.symm.trans h.1) hlen
  simp only [List.cons.injEq] at hrest
  exact ⟨hrest.1, hrest.2.1⟩

/-- All merges of the loop from `s` on are harmless. -/
def HarmlessLoop (now : UInt64) (s : RoutingTable × Int) : Prop :=
  ∀ n u pre b1 b2 post, Loop.Rounds (mergeStep now) n s u → Merging u pre b1 b2 post →
    HarmlessMerge now u.1 b1 b2

theorem harmlessLoop_step {s t : RoutingTable × Int} (hstep : mergeStep now s = some t) :
    HarmlessLoop now s ↔
      (∀ pre b1 b2 post, Merging s pre b1 b2 post → HarmlessMerge now s.1 b1 b2) ∧
        HarmlessLoop now t := by
  constructor
  · intro h
    exact ⟨fun pre b1 b2 post => h 0 s pre b1 b2 post (.zero s), fun n u pre b1 b2 post hrounds =>
      h (n + 1) u pre b1 b2 post (.succ hstep hrounds)⟩
  · rintro ⟨hfirst, hrest⟩ n u pre b1 b2 post hrounds hmerging
    cases hrounds with
    | zero => exact hfirst pre b1 b2 post hmerging
    | succ hnext hrounds =>
      rw [hstep] at hnext
      cases hnext
      exact hrest _ u pre b1 b2 post hrounds hmerging

/-- What the loop loses from a state on. -/
theorem loop_loss {n : Nat} {s t : RoutingTable × Int} (hrounds : Loop.Rounds (mergeStep now) n s t)
    (hend : mergeStep now t = none) (h : Inv s.1) (ht : s.1.Tidy) :
    ∃ lost, s.1.allEntries.Perm (lost ++ t.1.allEntries) ∧
      (HarmlessLoop now s ↔ ∀ x ∈ lost, x.removableWithoutReplacement = true) := by
  induction hrounds with
  | zero s =>
    refine ⟨[], .refl _, iff_of_true ?_ (by simp)⟩
    intro n u pre b1 b2 post hrounds hmerging
    cases hrounds with
    | zero =>
      rw [hmerging.next] at hend
      cases hend
    | succ hnext _ =>
      rw [hend] at hnext
      cases hnext
  | @succ _ s s' u hstep hrest ih =>
    rw [harmlessLoop_step hstep]
    -- a round that merges nothing loses nothing
    have hidle (hsame : s'.1 = s.1) (hnone : ∀ pre b1 b2 post, ¬ Merging s pre b1 b2 post) :
        ∃ lost, s.1.allEntries.Perm (lost ++ u.1.allEntries) ∧
          ((∀ pre b1 b2 post, Merging s pre b1 b2 post → HarmlessMerge now s.1 b1 b2) ∧
            HarmlessLoop now s' ↔
            ∀ x ∈ lost, x.removableWithoutReplacement = true) := by
      obtain ⟨lost, hperm, hlost⟩ := ih hend (hsame ▸ h) (hsame ▸ ht)
      rw [hsame] at hperm
      refine ⟨lost, hperm, ?_⟩
      rw [hlost, and_iff_right]
      exact fun pre b1 b2 post hmerging => absurd hmerging (hnone pre b1 b2 post)
    obtain ⟨hneg, rfl⟩ | ⟨pre, b1, b2, post, hsplit, hi, hnot, rfl⟩ | ⟨pre, b1, b2, post,
        hmerging, rfl⟩ :=
      mergeStep_cases hstep
    · refine hidle rfl fun pre b1 b2 post hmerging => ?_
      have := hmerging.2.1
      omega
    · refine hidle rfl fun pre' b1' b2' post' hmerging => ?_
      have hnext := hstep.symm.trans hmerging.next
      have := congrArg Prod.snd (Option.some.inj hnext)
      dsimp only at this
      omega
    · have hsib : b1.pfx.isSiblingOf b2.pfx = true := by
        have hmerge := hmerging.2.2
        rw [mergeable, Bool.and_eq_true] at hmerge
        exact hmerge.1
      obtain ⟨lost, hperm, hlost⟩ := merge_loss now h ht hmerging.1 hsib
      obtain ⟨more, hmore, hrest⟩ := ih hend (merged_inv h hmerging.1 hsib)
        (ht.modify _ (List.forall_mem_singleton.mpr
          (tidy_stable.foldl_put (.empty _ _) fun _ _ => trivial)))
      refine ⟨lost ++ more, ?_, ?_⟩
      · rw [List.append_assoc]
        exact hperm.trans (hmore.append_left lost)
      · rw [hrest, List.forall_mem_append, ← hlost]
        refine and_congr_left fun _ =>
          ⟨fun h => h pre b1 b2 post hmerging, fun h pre' b1' b2' post' hmerging' => ?_⟩
        obtain ⟨rfl, rfl⟩ := hmerging.unique hmerging'
        exact h

/-- For every table that can be reached: every entry that is not removable before `mergeBuckets` is
in the table afterwards, exactly if every put of every merge that the loop makes is harmless. -/
theorem mergeBuckets_effective_iff (h : Reachable localId T) (now : UInt64) :
    (∀ x ∈ T.allEntries, x.removableWithoutReplacement = false →
      x ∈ (T.mergeBuckets now).allEntries) ↔
      ∀ n u pre b1 b2 post, Loop.Rounds (mergeStep now) n (T, 0) u → Merging u pre b1 b2 post →
        Runs.Every (fun puts e => Harmless now (u.1.parentBucket now b1 puts) e)
          (b1.entries ++ b2.entries) := by
  obtain ⟨n, i, -, hrounds, hend⟩ := mergeBuckets_ends T now
  obtain ⟨lost, hperm, hlost⟩ := loop_loss hrounds hend h.inv h.tidy
  refine Iff.trans ?_ hlost.symm
  have hnodup : (lost ++ (T.mergeBuckets now).allEntries).Nodup :=
    hperm.nodup_iff.mp (h.inv.partition.nodup.of_map _)
  constructor
  · intro hkept x hx
    by_contra hnot
    have hin := hkept x (hperm.mem_iff.mpr (List.mem_append_left _ hx)) (by simpa using hnot)
    exact (List.nodup_append.mp hnodup).2.2 x hx x hin rfl
  · intro hremovable x hx hnot
    obtain hx | hx := List.mem_append.mp (hperm.mem_iff.mp hx)
    · rw [hremovable x hx] at hnot
      cases hnot
    · exact hx

/-- The merge of two siblings with nine entries loses the one that is removable: the last one is put
in its place. -/
theorem mergeBuckets_effective_crowded :
    ∃ T, Reachable Id.zero T ∧ T.buckets.length = 4 ∧ (T.mergeBuckets 2).buckets.length = 3 ∧
      silent ∈ T.allEntries ∧ silent ∉ (T.mergeBuckets 2).allEntries ∧
      (∀ x ∈ T.allEntries, x.removableWithoutReplacement = false →
        x ∈ (T.mergeBuckets 2).allEntries) ∧
      ∀ n u pre b1 b2 post, Loop.Rounds (mergeStep 2) n (T, 0) u → Merging u pre b1 b2 post →
        Runs.Every (fun puts e => Harmless 2 (u.1.parentBucket 2 b1 puts) e)
          (b1.entries ++ b2.entries) := by
  have hscan : (scanAll 2 (init Id.zero) crowdedSiblings).map (fun T =>
      (T.buckets.length, decide (silent ∈ T.allEntries), (scanMerge 2 10 (T, 0)).map fun T' =>
        (T'.buckets.length, decide (silent ∈ T'.allEntries),
          T.allEntries.all fun x => x.removableWithoutReplacement || decide (x ∈ T'.allEntries)))) =
      some (4, true, some (3, false, true)) := by decide +kernel
  obtain ⟨T, hT, heq⟩ := Option.map_eq_some_iff.mp hscan
  simp only [Prod.mk.injEq, decide_eq_true_eq] at heq
  obtain ⟨hfour, hsilent, hmerge⟩ := heq
  obtain ⟨T', hT', hafter⟩ := Option.map_eq_some_iff.mp hmerge
  simp only [Prod.mk.injEq, decide_eq_false_iff_not, List.all_eq_true, Bool.or_eq_true,
    decide_eq_true_eq] at hafter
  obtain ⟨hthree, hgone, hkept⟩ := hafter
  have hmerged : T.mergeBuckets 2 = T' := mergeLoop_of_scan hT'
  have hall : ∀ x ∈ T.allEntries, x.removableWithoutReplacement = false →
      x ∈ (T.mergeBuckets 2).allEntries := by
    intro x hx hnot
    rw [hmerged]
    exact (hkept x hx).resolve_left (by simp [hnot])
  refine ⟨T, reachable_of_scan hT, hfour, hmerged ▸ hthree, hsilent, hmerged ▸ hgone, hall, ?_⟩
  exact (mergeBuckets_effective_iff (reachable_of_scan hT) 2).mp hall

/-- An entry whose id begins with the bytes `x` and `y`. -/
def entryFrom (x y : UInt8) (failedRequests : Int) : KBucketEntry where
  nodeId := Id.ofFn fun i => if i = 0 then x else if i = 1 then y else 0
  sockaddr := .inet ⟨[9, 9, x, y], rfl⟩ 39001
  created := 1
  lastSeen := 1
  lastSend := 1
  reachable := true
  failedRequests := failedRequests

/-- Eight entries of the low half, one of which has not answered for some seconds, and one of the
high half. -/
def ninthApart : List KBucketEntry :=
  [entryFrom 0 1 6, entryFrom 0 2 0, entryFrom 0 3 0, entryFrom 0 4 0, entryFrom 0 5 0,
    entryFrom 0 6 0, entryFrom 0 7 0, entryFrom 0 8 0, entryFrom 0x80 1 0]

/-- The entry of the high half finds no room in the parent: the silent one is removable, but not
bad. -/
theorem ninthApart_lost :
    ∃ T, Reachable Id.zero T ∧ ¬ ∀ x ∈ T.allEntries, x.removableWithoutReplacement = false →
      x ∈ (T.mergeBuckets 2).allEntries := by
  have hscan : (scanAll 2 (init Id.zero) ninthApart).map (fun T =>
      (decide (entryFrom 0x80 1 0 ∈ T.allEntries), (scanMerge 2 10 (T, 0)).map fun T' =>
        decide (entryFrom 0x80 1 0 ∈ T'.allEntries))) = some (true, some false) := by decide +kernel
  obtain ⟨T, hT, heq⟩ := Option.map_eq_some_iff.mp hscan
  simp only [Prod.mk.injEq, decide_eq_true_eq] at heq
  obtain ⟨hbefore, hmerge⟩ := heq
  obtain ⟨T', hT', hafter⟩ := Option.map_eq_some_iff.mp hmerge
  have hmerged : T.mergeBuckets 2 = T' := mergeLoop_of_scan hT'
  refine ⟨T, reachable_of_scan hT, fun h => ?_⟩
  have hin := h _ hbefore (by decide)
  rw [hmerged] at hin
  exact of_decide_eq_false hafter hin

end RoutingTable

end Boson
