import Boson.Lib.Loop
import Boson.RoutingTable.Put

/-!
# The merging of buckets (`RoutingTable::_mergeBuckets`)

`mergeStep` is a round of the loop, from one increment of its counter to the next.

* `mergeBuckets_complete`: the loop ends, and then no two neighbours can be merged. The neighbours
  up to the counter cannot (`Scanned`); a merge takes the counter back, so that the new bucket is
  compared with the one before it.
-/

namespace Boson

namespace RoutingTable

variable {T T' : RoutingTable} {now : UInt64} {e : KBucketEntry} {b1 b2 : KBucket} {localId : Id}

/-- Two siblings whose effective entries fit into one bucket. -/
def mergeable (b1 b2 : KBucket) : Bool :=
  b1.pfx.isSiblingOf b2.pfx && effectiveSize b1 + effectiveSize b2 ≤ MAX_ENTRIES_PER_BUCKET

/-- A round of the loop of `RoutingTable::_mergeBuckets`. -/
def mergeStep (now : UInt64) : RoutingTable × Int → Option (RoutingTable × Int)
  | (self, i) =>
    if i + 1 < 1 then some (self, i + 1)
    else if h : self.buckets.length ≤ (i + 1).toNat then none
    else
      let b1 := self.buckets[(i + 1).toNat - 1]
      let b2 := self.buckets[(i + 1).toNat]
      if mergeable b1 b2 then some (self.modify [b1, b2] [self.mergedBucket now b1 b2], i + 1 - 2)
      else some (self, i + 1)

theorem mergeLoop_eq (now : UInt64) (T : RoutingTable) (i : Int) :
    mergeLoop now T i = match mergeStep now (T, i) with
      | some (T', i') => mergeLoop now T' i'
      | none => T := by
  rw [mergeLoop]
  by_cases hneg : i + 1 < 1
  · simp only [mergeStep, if_pos hneg]
  · by_cases hlt : (i + 1).toNat < T.buckets.length
    · by_cases hmerge : mergeable T.buckets[(i + 1).toNat - 1] T.buckets[(i + 1).toNat] = true
      · simp only [mergeStep, if_neg hneg, dif_neg (Nat.not_le.mpr hlt), if_pos hmerge]
        rw [dif_pos hlt]
        exact if_pos hmerge
      · simp only [mergeStep, if_neg hneg, dif_neg (Nat.not_le.mpr hlt), if_neg hmerge]
        rw [dif_pos hlt]
        exact if_neg hmerge
    · simp only [mergeStep, if_neg hneg, dif_pos (Nat.not_lt.mp hlt), dif_neg hlt]

/-- The loop gives the table in which it ends. -/
theorem mergeLoop_of_rounds {n : Nat} {s t : RoutingTable × Int}
    (h : Loop.Rounds (mergeStep now) n s t)
    (hend : mergeStep now t = none) : mergeLoop now s.1 s.2 = t.1 := by
  induction h with
  | zero s =>
    rw [mergeLoop_eq, hend]
  | succ hnext _ ih =>
    rw [mergeLoop_eq, hnext]
    exact ih hend

/-- The loop for at most `fuel` rounds, by structural recursion. -/
def scanMerge (now : UInt64) : Nat → RoutingTable × Int → Option RoutingTable
  | 0, _ => none
  | fuel + 1, s =>
    match mergeStep now s with
    | some s => scanMerge now fuel s
    | none => some s.1

theorem mergeLoop_of_scan {fuel : Nat} {s : RoutingTable × Int}
    (h : scanMerge now fuel s = some T') :
    mergeLoop now s.1 s.2 = T' := by
  induction fuel generalizing s with
  | zero => cases h
  | succ fuel ih =>
    rw [scanMerge] at h
    rw [mergeLoop_eq]
    cases hstep : mergeStep now s with
    | some t =>
      rw [hstep] at h
      exact ih h
    | none =>
      rw [hstep] at h
      exact Option.some.inj h

/-! ## What a round does -/

/-- The loop merges `b1` and `b2` in this state: they are neighbours, the second one at the
counter. -/
def Merging (s : RoutingTable × Int) (pre : List KBucket) (b1 b2 : KBucket)
    (post : List KBucket) : Prop :=
  s.1.buckets = pre ++ b1 :: b2 :: post ∧ s.2 = pre.length ∧ mergeable b1 b2 = true

/-- The rounds of the loop: it passes by the start, or two buckets that cannot be merged, or it
merges two. -/
theorem mergeStep_cases {s t : RoutingTable × Int} (h : mergeStep now s = some t) :
    s.2 < 0 ∧ t = (s.1, s.2 + 1) ∨
      (∃ pre b1 b2 post, s.1.buckets = pre ++ b1 :: b2 :: post ∧ s.2 = pre.length ∧
        mergeable b1 b2 = false ∧ t = (s.1, s.2 + 1)) ∨
      ∃ pre b1 b2 post, Merging s pre b1 b2 post ∧
        t = (s.1.modify [b1, b2] [s.1.mergedBucket now b1 b2], s.2 - 1) := by
  obtain ⟨T, i⟩ := s
  simp only [mergeStep] at h
  split_ifs at h with hneg hlt hmerge
  · cases h
    exact .inl ⟨by omega, rfl⟩
  all_goals
    obtain ⟨k, rfl⟩ : ∃ k : Nat, i = k := ⟨i.toNat, by omega⟩
    have hk : ((k : Int) + 1).toNat = k + 1 := by omega
    simp only [hk, Nat.add_sub_cancel, not_le] at hlt hmerge h
    have hsplit : T.buckets = T.buckets.take k ++ T.buckets[k] :: T.buckets[k + 1] ::
        T.buckets.drop (k + 2) := by
      rw [← List.drop_eq_getElem_cons hlt, ← List.drop_eq_getElem_cons, List.take_append_drop]
    have hlen : ((k : Nat) : Int) = (T.buckets.take k).length := by
      rw [List.length_take]
      omega
    cases h
  · refine .inr (.inr ⟨_, _, _, _, ⟨hsplit, hlen, hmerge⟩, ?_⟩)
    rw [show (k : Int) + 1 - 2 = k - 1 by omega]
  · exact .inr (.inl ⟨_, _, _, _, hsplit, hlen, by simpa using hmerge, rfl⟩)

theorem foldl_put_pfx (now : UInt64) (b : KBucket) (entries : List KBucketEntry) :
    (entries.foldl (fun b entry => b.put now entry) b).pfx = b.pfx := by
  induction entries generalizing b with
  | nil => rfl
  | cons x entries ih => exact (ih (b.put now x)).trans (KBucket.put_keeps b now x).pfx

section Replacement

variable {pre post : List KBucket} (h : Inv T) (hsplit : T.buckets = pre ++ b1 :: b2 :: post)
  (hsib : b1.pfx.isSiblingOf b2.pfx = true)

include h hsplit

theorem siblings_ne : b1.pfx ≠ b2.pfx := by
  have hsorted := h.sorted_lt
  rw [hsplit, List.pairwise_append, List.pairwise_cons] at hsorted
  intro heq
  have hlt := hsorted.2.1.1 b2 List.mem_cons_self
  rw [heq] at hlt
  exact lt_irrefl _ hlt

include hsib

theorem merged_inv : Inv (T.modify [b1, b2] [T.mergedBucket now b1 b2]) :=
  merge_inv h (by simp [hsplit]) (by simp [hsplit]) (siblings_ne h hsplit) hsib

/-- The id of the parent is one that `b1` or `b2` covers, so that the parent stands where they
stood. -/
theorem mergedBucket_between :
    (∀ c ∈ pre, c.pfx.id < (T.mergedBucket now b1 b2).pfx.id) ∧
      ∀ c ∈ post, (T.mergedBucket now b1 b2).pfx.id < c.pfx.id := by
  have hpfx : (T.mergedBucket now b1 b2).pfx = b1.pfx.getParent := foldl_put_pfx now _ _
  have hcovers : b1.pfx.isPrefixOf (T.mergedBucket now b1 b2).pfx.id = true ∨
      b2.pfx.isPrefixOf (T.mergedBucket now b1 b2).pfx.id = true := by
    rw [← (Prefix.isPrefixOf_sibling hsib (siblings_ne h hsplit)).1, hpfx]
    exact Prefix.isPrefixOf_id _
  have horder {i j : Nat} (hij : i < j) {a c : KBucket} (hi : T.buckets[i]? = some a)
      (hj : T.buckets[j]? = some c)
      {x y : Id} (hx : a.pfx.isPrefixOf x = true) (hy : c.pfx.isPrefixOf y = true) : x < y := by
    obtain ⟨hi', rfl⟩ := List.getElem?_eq_some_iff.mp hi
    obtain ⟨hj', rfl⟩ := List.getElem?_eq_some_iff.mp hj
    exact h.lt_of_index hij hj' hx hy
  have hb1 : T.buckets[pre.length]? = some b1 := by simp [hsplit]
  have hb2 : T.buckets[pre.length + 1]? = some b2 := by simp [hsplit]
  constructor
  · intro c hc
    obtain ⟨k, hk, rfl⟩ := List.getElem_of_mem hc
    have hget : T.buckets[k]? = some pre[k] := by
      rw [hsplit, List.getElem?_append_left hk, List.getElem?_eq_getElem hk]
    obtain hcov | hcov := hcovers
    · exact horder hk hget hb1 (Prefix.isPrefixOf_id _) hcov
    · exact horder (hk.trans (Nat.lt_succ_self _)) hget hb2 (Prefix.isPrefixOf_id _) hcov
  · intro c hc
    obtain ⟨k, hk, rfl⟩ := List.getElem_of_mem hc
    have hget : T.buckets[pre.length + (k + 2)]? = some post[k] := by
      rw [hsplit, List.getElem?_append_right (Nat.le_add_right _ _), Nat.add_sub_cancel_left]
      simp
    obtain hcov | hcov := hcovers
    · exact horder (by omega) hb1 hget hcov (Prefix.isPrefixOf_id _)
    · exact horder (by omega) hb2 hget hcov (Prefix.isPrefixOf_id _)

/-- The parent of two siblings takes their place in the list. -/
theorem merged_buckets :
    (T.modify [b1, b2] [T.mergedBucket now b1 b2]).buckets =
      pre ++ T.mergedBucket now b1 b2 :: post := by
  have hsorted := h.sorted_lt
  rw [hsplit, List.pairwise_append, List.pairwise_cons, List.pairwise_cons] at hsorted
  obtain ⟨hpre, ⟨-, -, hpost⟩, hcross⟩ := hsorted
  have hbefore : ∀ c ∈ pre, c.pfx.id < (T.mergedBucket now b1 b2).pfx.id :=
    (mergedBucket_between h hsplit hsib).1
  have hafter : ∀ c ∈ post, (T.mergedBucket now b1 b2).pfx.id < c.pfx.id :=
    (mergedBucket_between h hsplit hsib).2
  have hnew : (pre ++ T.mergedBucket now b1 b2 :: post).Pairwise fun a b => a.pfx.id < b.pfx.id :=
    List.pairwise_append.mpr ⟨hpre, List.pairwise_cons.mpr ⟨hafter, hpost⟩,
      fun c hc => List.forall_mem_cons.mpr ⟨hbefore c hc, fun d hd =>
        hcross c hc d (List.mem_cons_of_mem _ (List.mem_cons_of_mem _ hd))⟩⟩
  -- both lists are in order and hold the same buckets
  have hrest : (listRemoveAll T.buckets [b1, b2]).Perm (pre ++ post) := by
    have hall := perm_removeAll_two (l := T.buckets) (a := b1) (b := b2) (by simp [hsplit])
        (by simp [hsplit])
      fun heq => siblings_ne h hsplit (heq ▸ rfl)
    have hmid : T.buckets.Perm ([b1, b2] ++ (pre ++ post)) := by
      rw [hsplit]
      exact List.perm_middle.trans (List.perm_middle.cons b1)
    exact (List.perm_append_left_iff [b1, b2]).mp (hall.symm.trans hmid)
  have hperm : (T.modify [b1, b2] [T.mergedBucket now b1 b2]).buckets.Perm
      (pre ++ T.mergedBucket now b1 b2 :: post) := by
    refine (sortBuckets_perm _).trans ((hrest.append_right _).trans ?_)
    exact (List.perm_append_singleton _ _).trans List.perm_middle.symm
  exact hperm.eq_of_pairwise (fun a b _ _ hab hba => absurd (hab.trans hba) (lt_irrefl _))
    (merged_inv h hsplit hsib).sorted_lt hnew

end Replacement

/-! ## The end of the loop -/

/-- The invariant of the loop: the neighbours up to the counter cannot be merged. -/
structure Scanned (s : RoutingTable × Int) : Prop where
  inv : Inv s.1
  low : -1 ≤ s.2
  scanned : ∀ j (hj : j + 1 < s.1.buckets.length), (j : Int) < s.2 →
    mergeable s.1.buckets[j] s.1.buckets[j + 1] = false

theorem Scanned.step {s t : RoutingTable × Int} (h : Scanned s)
    (hstep : mergeStep now s = some t) : Scanned t := by
  have hlow := h.low
  obtain ⟨hneg, rfl⟩ | ⟨pre, b1, b2, post, hsplit, hi, hnot, rfl⟩ | ⟨pre, b1, b2, post,
      ⟨hsplit, hi, hmerge⟩, rfl⟩ :=
    mergeStep_cases hstep
  · exact ⟨h.inv, by dsimp only; omega, fun j hj hlt => by dsimp only at hlt; omega⟩
  · refine ⟨h.inv, by dsimp only; omega, fun j hj hlt => ?_⟩
    obtain hlt | rfl : (j : Int) < s.2 ∨ j = pre.length := by
      dsimp only at hlt
      omega
    · exact h.scanned j hj hlt
    · simpa [hsplit] using hnot
  · have hsib : b1.pfx.isSiblingOf b2.pfx = true := by
      rw [mergeable, Bool.and_eq_true] at hmerge
      exact hmerge.1
    refine ⟨merged_inv h.inv hsplit hsib, by dsimp only; omega, fun j hj hlt => ?_⟩
    -- the neighbours that count stand before the place of the merge
    dsimp only at hlt
    have hj' : j + 1 < pre.length := by omega
    have hold := h.scanned j (by rw [hsplit, List.length_append]; omega) (by omega)
    simp only [hsplit, List.getElem_append_left hj',
      List.getElem_append_left (Nat.lt_of_succ_lt hj')] at hold
    simp only [merged_buckets h.inv hsplit hsib, List.getElem_append_left hj',
      List.getElem_append_left (Nat.lt_of_succ_lt hj')]
    exact hold

/-- The loop ends, after two rounds for each bucket and two more at most. -/
theorem mergeBuckets_ends (T : RoutingTable) (now : UInt64) :
    ∃ n i, n ≤ 2 * T.buckets.length + 2 ∧ Loop.Rounds (mergeStep now) n (T, 0)
      (T.mergeBuckets now, i) ∧
      mergeStep now (T.mergeBuckets now, i) = none := by
  -- a merge takes the counter back by one and a bucket away
  have hmeasure (s t : RoutingTable × Int) (hstep : mergeStep now s = some t) :
      (2 * t.1.buckets.length + 2 - t.2).toNat < (2 * s.1.buckets.length + 2 - s.2).toNat := by
    obtain ⟨hneg, rfl⟩ | ⟨pre, b1, b2, post, hsplit, hi, -, rfl⟩ | ⟨pre, b1, b2, post,
        ⟨hsplit, hi, -⟩, rfl⟩ :=
      mergeStep_cases hstep
    · dsimp only
      omega
    · have hlen : s.1.buckets.length = pre.length + (post.length + 2) := by simp [hsplit]
      dsimp only
      omega
    · have hlen : s.1.buckets.length = pre.length + (post.length + 2) := by simp [hsplit]
      have hpair :=
        length_erase_pair (l := s.1.buckets) (j := pre.length + 1) (Nat.succ_pos _) (by omega)
      have hb1 : s.1.buckets[pre.length + 1 - 1] = b1 := by simp [hsplit]
      have hb2 : s.1.buckets[pre.length + 1] = b2 := by simp [hsplit]
      rw [hb1, hb2] at hpair
      simp only [modify, length_sortBuckets, List.length_append, List.length_singleton, hpair]
      omega
  obtain ⟨n, ⟨T', i⟩, hn, hrounds, hend⟩ := Loop.exists_end _ hmeasure (T, 0)
  have hT' : T.mergeBuckets now = T' := mergeLoop_of_rounds hrounds hend
  subst hT'
  exact ⟨n, i, hn.trans (by dsimp only; omega), hrounds, hend⟩

/-- For every table whose buckets partition the ids, the loop ends, after two rounds for each bucket
and two more at most, and then no two neighbours are siblings whose effective entries fit into one
bucket. -/
theorem mergeBuckets_complete (h : Partition T) (now : UInt64) :
    ∃ n i, n ≤ 2 * T.buckets.length + 2 ∧ Loop.Rounds (mergeStep now) n (T, 0)
      (T.mergeBuckets now, i) ∧ mergeStep now (T.mergeBuckets now, i) = none ∧
        ∀ j (hj : j + 1 < (T.mergeBuckets now).buckets.length),
          (T.mergeBuckets now).buckets[j].pfx.isSiblingOf (T.mergeBuckets now).buckets[j + 1].pfx =
            true → MAX_ENTRIES_PER_BUCKET <
              effectiveSize (T.mergeBuckets now).buckets[j] +
                effectiveSize (T.mergeBuckets now).buckets[j + 1] := by
  obtain ⟨n, i, hn, hrounds, hend⟩ := mergeBuckets_ends T now
  refine ⟨n, i, hn, hrounds, hend, fun j hj hsib => ?_⟩
  have hscanned : Scanned (T.mergeBuckets now, i) :=
    hrounds.inv (fun _ _ hs hstep => hs.step hstep)
      ⟨h.inv, by dsimp only; omega, fun j _ hlt => by dsimp only at hlt; omega⟩
  have hlast : (j : Int) < i := by
    simp only [mergeStep] at hend
    split_ifs at hend with hneg hlt
    omega
  have hnot := hscanned.scanned j hj hlast
  rw [mergeable, hsib, Bool.true_and, decide_eq_false_iff_not, not_le] at hnot
  exact hnot

/-- An entry of a node that has not answered for a moment. -/
def silent : KBucketEntry := { entryOf 0xC7 2 with lastSend := 2, failedRequests := 6 }

/-- One entry of the low half, eight that begin with the bits 110, the silent one last, one that
begins with 111 and eight that begin with 10. -/
def crowdedSiblings : List KBucketEntry :=
  [0x01, 0xC0, 0xC1, 0xC2, 0xC3, 0xC4, 0xC5, 0xC6].map (fun b => entryOf b 1) ++ silent ::
    [0xE0, 0x80, 0x81, 0x82, 0x83, 0x84, 0x85, 0x86, 0x87].map fun b => entryOf b 1

/-- The last two of four buckets are merged. Their parent is too full to be merged with the sibling
before it. -/
theorem mergeBuckets_complete_crowded :
    ∃ T, Reachable Id.zero T ∧
      T.buckets.map (fun b => (b.pfx.depth, effectiveSize b)) = [(0, 1), (1, 8), (2, 7), (2, 1)] ∧
      (T.mergeBuckets 2).buckets.map (fun b => (b.pfx.depth, effectiveSize b)) =
      [(0, 1), (1, 8), (1, 8)] ∧
      ∃ n i, n ≤ 2 * T.buckets.length + 2 ∧ Loop.Rounds (mergeStep 2) n (T, 0)
        (T.mergeBuckets 2, i) ∧ mergeStep 2 (T.mergeBuckets 2, i) = none ∧
          ∀ j (hj : j + 1 < (T.mergeBuckets 2).buckets.length),
            (T.mergeBuckets 2).buckets[j].pfx.isSiblingOf
              (T.mergeBuckets 2).buckets[j + 1].pfx = true → MAX_ENTRIES_PER_BUCKET <
                effectiveSize (T.mergeBuckets 2).buckets[j] +
                  effectiveSize (T.mergeBuckets 2).buckets[j + 1] := by
  have hscan : (scanAll 2 (init Id.zero) crowdedSiblings).map (fun T =>
      (T.buckets.map fun b => (b.pfx.depth, effectiveSize b),
        (scanMerge 2 10 (T, 0)).map fun T' =>
          T'.buckets.map fun b => (b.pfx.depth, effectiveSize b))) =
      some ([(0, 1), (1, 8), (2, 7), (2, 1)], some [(0, 1), (1, 8), (1, 8)]) := by decide +kernel
  obtain ⟨T, hT, heq⟩ := Option.map_eq_some_iff.mp hscan
  obtain ⟨hbefore, hmerge⟩ := Prod.mk.inj heq
  obtain ⟨T', hT', hafter⟩ := Option.map_eq_some_iff.mp hmerge
  have hmerged : T.mergeBuckets 2 = T' := mergeLoop_of_scan hT'
  have hreachable := reachable_of_scan hT
  exact ⟨T, hreachable, hbefore, hmerged ▸ hafter, mergeBuckets_complete hreachable.inv.partition 2⟩

end RoutingTable

end Boson
