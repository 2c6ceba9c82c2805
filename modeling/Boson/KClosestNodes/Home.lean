import Boson.KClosestNodes.Distinct

/-!
# The bucket of the target

`fill` starts with the bucket that the target falls into, and keeps the closest of what it finds.
Where it goes next may be the wrong way (see `ReachesClosest`), but nothing it does makes it worse
than that bucket.

* `mem_fill`: what is returned is from the table, or a bootstrap node, or the node itself.
* `fill_covers`: some node that is returned is no farther from the target than any eligible entry of
  its bucket.
-/

namespace Boson

namespace KClosestNodes

variable {dht : DHTView} {kn : KClosestNodes} {e r : KBucketEntry} {now : UInt64}
    {includeSelf : Bool}

theorem insertEntries_subset (bucket : KBucket) : kn.entries ⊆ (kn.insertEntries bucket).entries :=
  List.subset_append_left _ _

/-- The loop adds entries of the buckets, and takes none away. -/
theorem fillLoop_entries {buckets : List KBucket} (kn : KClosestNodes) {low high : Nat}
    (hlh : low ≤ high) (hh : high < buckets.length) :
    kn.entries ⊆ (kn.fillLoop buckets low high).entries ∧
      ∀ r ∈ (kn.fillLoop buckets low high).entries, r ∈ kn.entries ∨ ∃ b ∈ buckets,
        r ∈ b.entries := by
  have hget {i : Nat} (hi : i < buckets.length) :
      RoutingTable.listGet buckets (i : Nat) ∈ buckets := by
    rw [RoutingTable.listGet_natCast hi]
    exact List.getElem_mem hi
  have hinsert (kn : KClosestNodes) {b : KBucket} (hb : b ∈ buckets) (r : KBucketEntry)
      (hr : r ∈ (kn.insertEntries b).entries) : r ∈ kn.entries ∨ ∃ b ∈ buckets, r ∈ b.entries :=
    (List.mem_append.mp hr).imp_right fun hr => ⟨b, hb, List.mem_of_mem_filter hr⟩
  fun_induction fillLoop buckets kn low high with
  | case1 kn low high hlen hlow lb hhigh hb dir hdir ih =>
    obtain ⟨hsub, hmem⟩ := ih (by omega) hh
    refine ⟨List.Subset.trans (insertEntries_subset lb) hsub, fun r hr =>
      (hmem r hr).elim (fun hr => ?_) .inr⟩
    exact hinsert kn (hget (by omega)) r hr
  | case2 kn low high hlen hlow lb hhigh hb dir hdir hdir' ih =>
    obtain ⟨hsub, hmem⟩ := ih (by omega) (by omega)
    refine ⟨List.Subset.trans (insertEntries_subset hb) hsub, fun r hr =>
      (hmem r hr).elim (fun hr => ?_) .inr⟩
    exact hinsert kn (hget (by omega)) r hr
  | case3 kn low high hlen hlow lb hhigh hb dir hdir hdir' ih =>
    obtain ⟨hsub, hmem⟩ := ih (by omega) (by omega)
    refine ⟨List.Subset.trans (insertEntries_subset lb)
      (List.Subset.trans (insertEntries_subset hb) hsub),
      fun r hr => (hmem r hr).elim (fun hr => ?_) .inr⟩
    exact (hinsert _ (hget (by omega)) r hr).elim (hinsert kn (hget (by omega)) r) .inr
  | case4 kn low high hlen hlow lb hhigh ih =>
    obtain ⟨hsub, hmem⟩ := ih (by omega) hh
    refine ⟨List.Subset.trans (insertEntries_subset lb) hsub, fun r hr =>
      (hmem r hr).elim (fun hr => ?_) .inr⟩
    exact hinsert kn (hget (by omega)) r hr
  | case5 kn low high hlen hlow hhigh ih =>
    obtain ⟨hsub, hmem⟩ := ih (by omega) (by omega)
    refine ⟨List.Subset.trans (insertEntries_subset _) hsub, fun r hr =>
      (hmem r hr).elim (fun hr => ?_) .inr⟩
    exact hinsert kn (hget (by omega)) r hr
  | case6 => exact ⟨List.Subset.refl _, fun r hr => .inl hr⟩
  | case7 => exact ⟨List.Subset.refl _, fun r hr => .inl hr⟩

theorem shave_subset (kn : KClosestNodes) : kn.shave.entries ⊆ kn.entries := fun _ hr =>
  (List.perm_insertionSort _ _).mem_iff.mp (List.mem_of_mem_take ((shave_perm kn).mem_iff.mp hr))

/-- What `shave` takes away is farther than what it leaves, also when one node, that is there once,
does not count. -/
theorem shave_covers {s : Id} (hk : 2 ≤ kn.maxEntries)
    (hs : (kn.entries.map (·.nodeId)).count s ≤ 1) (he : e ∈ kn.entries) (hes : e.nodeId ≠ s) :
    ∃ r ∈ kn.shave.entries, r.nodeId ≠ s ∧
      kn.target.distance r.nodeId ≤ kn.target.distance e.nodeId := by
  have hperm := List.perm_insertionSort (closerEq kn.target) kn.entries
  have hsorted := sorted_insertionSort kn.target kn.entries
  have hcount := (hperm.map (·.nodeId)).count_eq s
  have hmem := hperm.mem_iff.mpr he
  simp only [(shave_perm kn).mem_iff]
  generalize kn.entries.insertionSort (closerEq kn.target) = l at hsorted hcount hmem
  rw [← List.take_append_drop kn.maxEntries l, List.mem_append] at hmem
  obtain htake | hdrop := hmem
  · exact ⟨e, htake, hes, le_rfl⟩
  · have hlen : (l.take kn.maxEntries).length = kn.maxEntries := by
      have hpos := List.length_pos_of_mem hdrop
      rw [List.length_drop] at hpos
      rw [List.length_take]
      omega
    -- not all that stay are the node that does not count
    obtain ⟨r, hr, hrs⟩ : ∃ r ∈ l.take kn.maxEntries, r.nodeId ≠ s := by
      by_contra hall
      push Not at hall
      have hsame : ((l.take kn.maxEntries).map (·.nodeId)).count s = kn.maxEntries := by
        rw [List.count_eq_length.mpr (List.forall_mem_map.mpr fun r hr => (hall r hr).symm),
          List.length_map, hlen]
      have hle := ((List.take_sublist kn.maxEntries l).map (·.nodeId)).count_le s
      omega
    refine ⟨r, hr, hrs, ?_⟩
    rw [← List.take_append_drop kn.maxEntries l, List.pairwise_append] at hsorted
    exact hsorted.2.2 r hr e hdrop

/-- What `fill` adds to the table's entries. -/
theorem mem_addSelf (hr : r ∈ ((kn.addBootstrapNodes dht).addSelf dht now includeSelf).entries) :
    r ∈ kn.entries ∨ r.toNodeInfo ∈ usableBootstrapNodes dht ∨
      r.nodeId = dht.routingTable.localId ∧ r.sockaddr = dht.origin := by
  have hbootstrap : r ∈ (kn.addBootstrapNodes dht).entries →
      r ∈ kn.entries ∨ r.toNodeInfo ∈ usableBootstrapNodes dht := by
    unfold addBootstrapNodes
    split_ifs
    · intro hr
      refine (List.mem_append.mp hr).imp_right fun hr => ?_
      obtain ⟨n, hn, rfl⟩ := List.mem_map.mp hr
      exact hn
    · exact .inl
  unfold addSelf at hr
  split_ifs at hr
  · obtain hr | hr := List.mem_append.mp hr
    · exact (hbootstrap hr).imp_right .inl
    · rw [List.mem_singleton.mp hr]
      exact .inr (.inr ⟨rfl, rfl⟩)
  · exact (hbootstrap hr).imp_right .inl

/-- A node that is neither a bootstrap node nor the node itself is not added. -/
theorem addSelf_fields (kn : KClosestNodes) {s : Id}
    (hbootstraps : ∀ n ∈ usableBootstrapNodes dht, n.nodeId ≠ s)
    (hself : dht.routingTable.localId ≠ s) (now : UInt64) (includeSelf : Bool) :
    ((kn.addBootstrapNodes dht).addSelf dht now includeSelf).target = kn.target ∧
      ((kn.addBootstrapNodes dht).addSelf dht now includeSelf).maxEntries = kn.maxEntries ∧
      ((((kn.addBootstrapNodes dht).addSelf dht now includeSelf).entries.map (·.nodeId)).count s) =
        (kn.entries.map (·.nodeId)).count s := by
  have hnone :
      (((usableBootstrapNodes dht).map fun n => ({ n with } : KBucketEntry)).map
      (·.nodeId)).count s = 0 := by
    rw [List.count_eq_zero, List.map_map]
    intro hs
    obtain ⟨n, hn, heq⟩ := List.mem_map.mp hs
    exact hbootstraps n hn heq
  have hbootstrap : (kn.addBootstrapNodes dht).target = kn.target ∧
      (kn.addBootstrapNodes dht).maxEntries = kn.maxEntries ∧
      ((kn.addBootstrapNodes dht).entries.map (·.nodeId)).count s =
        (kn.entries.map (·.nodeId)).count s := by
    unfold addBootstrapNodes
    split_ifs
    · refine ⟨rfl, rfl, ?_⟩
      dsimp only
      rw [List.map_append, List.count_append, Nat.add_eq_left]
      exact hnone
    · exact ⟨rfl, rfl, rfl⟩
  unfold addSelf
  split_ifs
  · refine ⟨hbootstrap.1, hbootstrap.2.1, ?_⟩
    dsimp only
    rw [List.map_append, List.count_append, hbootstrap.2.2, Nat.add_eq_left, List.count_eq_zero]
    simpa [KBucketEntry.new] using hself.symm
  · exact hbootstrap

theorem subset_addSelf (kn : KClosestNodes) (dht : DHTView) (now : UInt64) (includeSelf : Bool) :
    kn.entries ⊆ ((kn.addBootstrapNodes dht).addSelf dht now includeSelf).entries := by
  have hbootstrap : kn.entries ⊆ (kn.addBootstrapNodes dht).entries := by
    unfold addBootstrapNodes
    split_ifs
    · exact List.subset_append_left _ _
    · exact List.Subset.refl _
  refine List.Subset.trans hbootstrap ?_
  unfold addSelf
  split_ifs
  · exact List.subset_append_left _ _
  · exact List.Subset.refl _

/-- `fill` in three steps: the bucket of the target, what the loop finds, and what is added. -/
theorem fill_eq (kn : KClosestNodes) (hT : RoutingTable.Inv dht.routingTable) (now : UInt64)
    (includeSelf : Bool) :
    ∃ (i : Nat) (hi : i < dht.routingTable.buckets.length),
      dht.routingTable.buckets[i].pfx.isPrefixOf kn.target = true ∧ kn.fill dht now includeSelf =
        ((((kn.insertEntries dht.routingTable.buckets[i]).fillLoop dht.routingTable.buckets i
          i).addBootstrapNodes
          dht).addSelf dht now includeSelf).shave := by
  obtain ⟨i, hi, hidx, -, hcov⟩ := hT.getBucket_spec kn.target
  refine ⟨i, hi, hcov, ?_⟩
  rw [fill, hidx, Int.toNat_natCast, RoutingTable.listGet_natCast hi]

theorem mem_fill (kn : KClosestNodes) (hT : RoutingTable.Inv dht.routingTable)
    (hnil : kn.entries = []) (hr : r ∈ (kn.fill dht now includeSelf).entries) :
    r ∈ dht.routingTable.allEntries ∨ r.toNodeInfo ∈ usableBootstrapNodes dht ∨
      r.nodeId = dht.routingTable.localId ∧ r.sockaddr = dht.origin := by
  obtain ⟨i, hi, -, hfill⟩ := fill_eq kn hT now includeSelf
  rw [hfill] at hr
  refine (mem_addSelf (shave_subset _ hr)).imp_left fun hr => ?_
  obtain hr | ⟨b', hb', hr⟩ := (fillLoop_entries _ le_rfl hi).2 r hr
  · rw [insertEntries, hnil, List.nil_append] at hr
    exact List.mem_flatMap.mpr ⟨_, List.getElem_mem hi, List.mem_of_mem_filter hr⟩
  · exact List.mem_flatMap.mpr ⟨b', hb', hr⟩

theorem fillLoop_nodup (hT : RoutingTable.Inv dht.routingTable) (hnil : kn.entries = [])
    (hk : 0 < kn.maxEntries) {i : Nat} (hi : i < dht.routingTable.buckets.length)
    (hcov : dht.routingTable.buckets[i].pfx.isPrefixOf kn.target = true) :
    (((kn.insertEntries dht.routingTable.buckets[i]).fillLoop dht.routingTable.buckets i
      i).entries.map
      (·.nodeId)).Nodup := by
  obtain ⟨W, hv, -⟩ := fillLoop_visited (kn.insertEntries dht.routingTable.buckets[i]) hT le_rfl hi
    ((inWindow_self hi).mpr hcov) (start_visited hT hnil hk hi hcov)
  exact hv.entries_nodup hT

/-- What is returned is not worse than what the bucket of the target has; this holds also when one
node, that is neither a bootstrap node nor the node itself, does not count. -/
theorem fill_covers (kn : KClosestNodes) (now : UInt64) (includeSelf : Bool)
    (hT : RoutingTable.Inv dht.routingTable) (hnil : kn.entries = [])
    (hk : 2 ≤ kn.maxEntries) {s : Id} (hbootstraps : ∀ n ∈ usableBootstrapNodes dht, n.nodeId ≠ s)
    (hself : dht.routingTable.localId ≠ s) {b : KBucket} (hb : b ∈ dht.routingTable.buckets)
    (htarget : b.pfx.isPrefixOf kn.target = true) (he : e ∈ b.entries)
    (hfilter : kn.filter e = true) (hes : e.nodeId ≠ s) :
    ∃ r ∈ (kn.fill dht now includeSelf).entries, r.nodeId ≠ s ∧
      kn.target.distance r.nodeId ≤ kn.target.distance e.nodeId := by
  obtain ⟨i, hi, hcov, hfill⟩ := fill_eq kn hT now includeSelf
  obtain rfl := hT.cover.eq_of_mem hb (List.getElem_mem hi) htarget hcov
  have hnodup := fillLoop_nodup hT hnil (by omega) hi hcov
  obtain ⟨htargets, hmax, -⟩ := fillLoop_fields dht.routingTable.buckets
    (kn.insertEntries dht.routingTable.buckets[i]) i i
  have hfound :
      e ∈ ((kn.insertEntries dht.routingTable.buckets[i]).fillLoop dht.routingTable.buckets
      i i).entries :=
    (fillLoop_entries _ le_rfl hi).1 (List.mem_append_right _ (List.mem_filter.mpr ⟨he, hfilter⟩))
  rw [hfill]
  generalize (kn.insertEntries dht.routingTable.buckets[i]).fillLoop
    dht.routingTable.buckets i i = found
    at hnodup htargets hmax hfound ⊢
  obtain ⟨htarget', hmax', hcount⟩ := addSelf_fields found hbootstraps hself now includeSelf
  obtain ⟨r, hr, hrs, hle⟩ := shave_covers (s := s) (by rw [hmax', hmax]; exact hk)
    (by rw [hcount]; exact List.nodup_iff_count_le_one.mp hnodup s)
      (subset_addSelf found dht now includeSelf hfound) hes
  rw [htarget', htargets] at hle
  exact ⟨r, hr, hrs, hle⟩

end KClosestNodes

end Boson
