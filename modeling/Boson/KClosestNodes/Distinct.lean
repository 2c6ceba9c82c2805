import Boson.KClosestNodes
import Boson.Lib.Sorting
import Mathlib.Data.List.Count
import Mathlib.Data.List.Dedup

/-!
# Nodes that `fill` returns twice

When the table has too few entries `fill` adds the bootstrap nodes, and the node itself, to what it
found. It does not ask whether one of them is in the table, so a node may be there twice, and take
the place of another.

* `fill_length_le`: there are never more than `maxEntries` entries.
* `fill_distinct_iff`: when all of them are different nodes, and none is missing that there is room
  for.
-/

namespace Boson

open Lowest Sorting

namespace KClosestNodes

variable (dht : DHTView) (t : Id) (k : Nat) (f : KBucketEntry → Bool) (includeSelf : Bool)

/-- The bootstrap nodes of the right family. -/
def usableBootstrapNodes : List NodeInfo :=
  dht.bootstrapNodes.filter fun n => dht.type.canUseSocketAddress n.sockaddr

/-- The ids of all nodes that could be returned. -/
def candidateIds : List Id :=
  (eligible dht.routingTable f).map (·.nodeId) ++ (usableBootstrapNodes dht).map (·.nodeId) ++
    if includeSelf then [dht.routingTable.localId] else []

/-- The ids of the nodes that `fill` chooses from when the table has too few entries. -/
def offeredIds : List Id :=
  (eligible dht.routingTable f).map (·.nodeId) ++ (usableBootstrapNodes dht).map (·.nodeId) ++
    if (eligible dht.routingTable f).length + (usableBootstrapNodes dht).length < k &&
      includeSelf then
      [dht.routingTable.localId] else []

/-- The table has enough entries, or whoever is offered twice is not among the closest. -/
def NoneTwice : Prop :=
  k ≤ (eligible dht.routingTable f).length ∨
    ∀ x, 2 ≤ (offeredIds dht k f includeSelf).count x →
      k ≤ (offeredIds dht k f includeSelf).countP (fun y => t.distance y < t.distance x) + 1

/-- At most `k` entries, of different nodes; and if there are no more candidates than that, all
eligible entries. -/
structure Distinct (result : List KBucketEntry) : Prop where
  length : result.length ≤ k
  nodup : (result.map (·.nodeId)).Nodup
  eligible : (candidateIds dht f includeSelf).dedup.length ≤ k →
    ∀ e ∈ eligible dht.routingTable f, e ∈ result

variable {dht t k f includeSelf} {kn : KClosestNodes} {l : List KBucketEntry} {now : UInt64}

/-- The closest entries are of different nodes exactly if nobody who is there twice is one of
them. -/
theorem nodup_take_insertionSort (t : Id) (k : Nat) (l : List KBucketEntry) :
    (((l.insertionSort (closerEq t)).take k).map (·.nodeId)).Nodup ↔
      ∀ x, 2 ≤ (l.map (·.nodeId)).count x →
      k ≤ (l.map (·.nodeId)).countP (fun y => t.distance y < t.distance x) + 1 := by
  have hinj := Id.distance_injective t
  have hsorted :=
    (List.pairwise_map (f := fun e : KBucketEntry => t.distance e.nodeId)).mpr
      (sorted_insertionSort t l)
  have hperm := (List.perm_insertionSort (closerEq t) l).map fun e : KBucketEntry =>
      t.distance e.nodeId
  have hids : l.map (fun e => t.distance e.nodeId) = (l.map (·.nodeId)).map t.distance := by
    rw [List.map_map]; rfl
  have htake : (((l.insertionSort (closerEq t)).take k).map (·.nodeId)).Nodup ↔
      (((l.insertionSort (closerEq t)).map fun e => t.distance e.nodeId).take k).Nodup := by
    rw [← List.map_take, ← List.nodup_map_iff hinj, List.map_map]
    rfl
  rw [htake, nodup_take_iff hsorted]
  simp only [hperm.count_eq, hperm.countP_eq, hids]
  constructor
  · intro h x hx
    have hle := h (t.distance x) (by rwa [List.count_map_of_injective _ _ hinj])
    rwa [List.countP_map] at hle
  · intro h d hd
    have hmem := List.count_pos_iff.mp (Nat.zero_lt_of_lt hd)
    obtain ⟨x, -, rfl⟩ := List.mem_map.mp hmem
    rw [List.count_map_of_injective _ _ hinj] at hd
    rw [List.countP_map]
    exact h x hd

theorem shave_perm (kn : KClosestNodes) :
    kn.shave.entries.Perm ((kn.entries.insertionSort (closerEq kn.target)).take kn.maxEntries) := by
  unfold shave
  dsimp only
  split_ifs with hle
  · rw [List.take_of_length_le (by rw [List.length_insertionSort]; omega)]
    exact (List.perm_insertionSort _ _).symm
  · exact .refl _

theorem shave_length_le (kn : KClosestNodes) : kn.shave.entries.length ≤ kn.maxEntries := by
  rw [(shave_perm kn).length_eq]
  exact List.length_take_le _ _

theorem shave_nodup_iff (kn : KClosestNodes) :
    (kn.shave.entries.map (·.nodeId)).Nodup ↔ ∀ x, 2 ≤ (kn.entries.map (·.nodeId)).count x →
      kn.maxEntries ≤ (kn.entries.map (·.nodeId)).countP
        (fun y => kn.target.distance y < kn.target.distance x) + 1 := by
  rw [((shave_perm kn).map _).nodup_iff]
  exact nodup_take_insertionSort kn.target kn.maxEntries kn.entries

/-- What is returned has the closest nodes; of those who are there twice it is the first. -/
theorem mem_shave_of_first {e : KBucketEntry} {before after : List KBucketEntry}
    (heq : kn.entries = before ++ e :: after) (hfirst : ∀ x ∈ before, x.nodeId ≠ e.nodeId)
    (hid : e.nodeId ∈ kn.shave.entries.map (·.nodeId)) : e ∈ kn.shave.entries := by
  rw [((shave_perm kn).map _).mem_iff] at hid
  rw [(shave_perm kn).mem_iff]
  have hstable := filter_insertionSort (r := closerEq kn.target) (p := fun x => x.nodeId = e.nodeId)
    (fun a b ha hb => by
      rw [closerEq, of_decide_eq_true ha, of_decide_eq_true hb,
        Id.threeWayCompare_le_iff_distance]) kn.entries
  have hbefore : before.filter (fun x => x.nodeId = e.nodeId) = [] := by
    rw [List.filter_eq_nil_iff]
    exact fun x hx => by simpa using hfirst x hx
  rw [heq, List.filter_append, hbefore, List.nil_append, List.filter_cons_of_pos (by simp),
    ← heq] at hstable
  obtain ⟨y, hy, hyid⟩ := List.mem_map.mp hid
  generalize kn.entries.insertionSort (closerEq kn.target) = sorted at hstable hy ⊢
  rw [← List.take_append_drop kn.maxEntries sorted, List.filter_append] at hstable
  -- the entries with this id among the first ones are not none, so they begin with `e`
  cases hfront : (sorted.take kn.maxEntries).filter (fun x => x.nodeId = e.nodeId) with
  | nil => exact absurd (decide_eq_true hyid) (List.filter_eq_nil_iff.mp hfront y hy)
  | cons z rest =>
    rw [hfront, List.cons_append, List.cons.injEq] at hstable
    have hz : z ∈ (sorted.take kn.maxEntries).filter (fun x => x.nodeId = e.nodeId) :=
      hfront ▸ List.mem_cons_self
    rw [← hstable.1]
    exact List.mem_of_mem_filter hz

theorem fill_maxEntries (kn : KClosestNodes) (dht : DHTView) (now : UInt64) (includeSelf : Bool) :
    ∃ kn' : KClosestNodes, kn'.maxEntries = kn.maxEntries ∧
      kn.fill dht now includeSelf = kn'.shave := by
  refine ⟨_, ?_, rfl⟩
  have hbootstrap (kn : KClosestNodes) : (kn.addBootstrapNodes dht).maxEntries = kn.maxEntries := by
    unfold addBootstrapNodes
    split_ifs <;> rfl
  have hself (kn : KClosestNodes) : (kn.addSelf dht now includeSelf).maxEntries =
      kn.maxEntries := by
    unfold addSelf
    split_ifs <;> rfl
  rw [hself, hbootstrap, (fillLoop_fields _ _ _ _).2.1]
  rfl

theorem shave_of_le (h : kn.entries.length ≤ kn.maxEntries) : kn.shave = kn := by
  unfold shave
  dsimp only
  rw [if_pos (by omega)]

/-- Whatever the table is like, no more than `maxEntries` entries are returned. -/
theorem fill_length_le (kn : KClosestNodes) (dht : DHTView) (now : UInt64) (includeSelf : Bool) :
    (kn.fill dht now includeSelf).entries.length ≤ kn.maxEntries := by
  obtain ⟨kn', hmax, hfill⟩ := fill_maxEntries kn dht now includeSelf
  rw [hfill, ← hmax]
  exact shave_length_le kn'

/-- All eligible entries are candidates, each with an id of its own. -/
theorem eligible_le_candidates (hT : RoutingTable.Inv dht.routingTable) :
    (eligible dht.routingTable f).length ≤ (candidateIds dht f includeSelf).dedup.length := by
  have hsub : (eligible dht.routingTable f).map (·.nodeId) ⊆
      (candidateIds dht f includeSelf).dedup := by
    intro x hx
    rw [List.mem_dedup, candidateIds]
    exact List.mem_append_left _ (List.mem_append_left _ hx)
  have hle := (List.subperm_of_subset (eligible_nodup hT f) hsub).length_le
  rwa [List.length_map] at hle

theorem offeredIds_subset : offeredIds dht k f includeSelf ⊆ candidateIds dht f includeSelf := by
  intro x hx
  unfold offeredIds at hx
  unfold candidateIds
  obtain hx | hx := List.mem_append.mp hx
  · exact List.mem_append_left _ hx
  · split_ifs at hx with hself
    · rw [(Bool.and_eq_true_iff.mp hself).2]
      exact List.mem_append_right _ hx
    · cases hx

/-- With enough entries in the table nobody is returned twice. -/
theorem distinct_of_le (hT : RoutingTable.Inv dht.routingTable)
    (hle : k ≤ (eligible dht.routingTable f).length) :
    Distinct dht k f includeSelf
      (fill { target := t, maxEntries := k, filter := f } dht now includeSelf).entries := by
  have hlength := fill_length_le { target := t, maxEntries := k, filter := f } dht now includeSelf
  rcases Nat.eq_zero_or_pos k with rfl | hk
  · have hnil := List.length_eq_zero_iff.mp (Nat.le_zero.mp hlength)
    refine ⟨hlength, by simp [hnil], fun hcard e he => ?_⟩
    have hnone := (eligible_le_candidates hT).trans hcard
    rw [Nat.le_zero, List.length_eq_zero_iff] at hnone
    simp [hnone] at he
  · obtain ⟨kn, W, hv, rfl, rfl, rfl, hfull, hfill⟩ := fill_visited
      { target := t, maxEntries := k, filter := f } hT rfl hk hle now includeSelf
    change kn.maxEntries ≤ kn.entries.length at hfull
    rw [hfill] at hlength ⊢
    have hnodup := hv.entries_nodup hT
    refine ⟨hlength, (shave_nodup_iff kn).mpr fun x hx => ?_, fun hcard e he => ?_⟩
    · exact absurd (List.nodup_iff_count_le_one.mp hnodup x) (by omega)
    · have hsub : kn.entries ⊆ eligible dht.routingTable kn.filter := fun e he =>
          ((hv.entries e).mp he).1
      have hcard : (eligible dht.routingTable kn.filter).length ≤ kn.maxEntries :=
        (eligible_le_candidates hT).trans hcard
      have hperm := (List.subperm_of_subset hv.nodup hsub).perm_of_length_le (hcard.trans hfull)
      rw [shave_of_le (hperm.length_eq.trans_le hcard)]
      exact hperm.mem_iff.mpr he

theorem addBootstrapNodes_eq (dht : DHTView) (h : kn.entries.length < kn.maxEntries) :
    kn.addBootstrapNodes dht =
    { kn with entries := kn.entries ++ (usableBootstrapNodes dht).map fun n =>
      { toNodeInfo := n } } := by
  rw [addBootstrapNodes, if_pos h]
  rfl

theorem addSelf_eq : kn.addSelf dht now includeSelf = { kn with
    entries := kn.entries ++ if kn.entries.length < kn.maxEntries && includeSelf then
      [KBucketEntry.new now dht.routingTable.localId dht.origin 0] else [] } := by
  unfold addSelf
  split_ifs with h
  · rfl
  · rw [List.append_nil]

/-- With too few entries in the table, what is offered is what there is to choose from. -/
theorem fill_offered (t : Id) (includeSelf : Bool) (now : UInt64)
    (hT : RoutingTable.Inv dht.routingTable) (hlt : (eligible dht.routingTable f).length < k) :
    ∃ (kn : KClosestNodes) (visited others : List KBucketEntry), kn.target = t ∧ kn.maxEntries = k ∧
      visited.Perm (eligible dht.routingTable f) ∧ kn.entries = visited ++ others ∧
      (kn.entries.map (·.nodeId)).Perm (offeredIds dht k f includeSelf) ∧
      fill { target := t, maxEntries := k, filter := f } dht now includeSelf = kn.shave := by
  obtain ⟨kn, W, hv, htarget, hmax, hfilter, hend, hfill⟩ := fill_loop
    { target := t, maxEntries := k, filter := f } hT rfl (Nat.zero_lt_of_lt hlt) now includeSelf
  change kn.filter = f at hfilter
  change kn.maxEntries = k at hmax
  subst hfilter hmax
  have hall : ∀ x, W x := by
    refine hend.resolve_left fun hle => ?_
    have hsub : kn.entries ⊆ eligible dht.routingTable kn.filter := fun e he =>
        ((hv.entries e).mp he).1
    exact absurd (hle.trans (List.subperm_of_subset hv.nodup hsub).length_le) (Nat.not_le.mpr hlt)
  have hperm := hv.perm_eligible hT hall
  have hoffered := addBootstrapNodes_eq dht (hperm.length_eq.trans_lt hlt)
  have hlength : (kn.addBootstrapNodes dht).entries.length =
      (eligible dht.routingTable kn.filter).length + (usableBootstrapNodes dht).length := by
    rw [hoffered, List.length_append, List.length_map, hperm.length_eq]
  refine ⟨(kn.addBootstrapNodes dht).addSelf dht now includeSelf, kn.entries,
    (usableBootstrapNodes dht).map (fun n => { toNodeInfo := n }) ++
      if (kn.addBootstrapNodes dht).entries.length < kn.maxEntries && includeSelf then
        [KBucketEntry.new now dht.routingTable.localId dht.origin 0] else [], ?_, ?_, hperm,
          ?_, ?_, hfill⟩
  · rw [addSelf_eq, hoffered]
    exact htarget
  · rw [addSelf_eq, hoffered]
  · rw [addSelf_eq, hoffered, List.append_assoc]
  · rw [addSelf_eq, hlength, hoffered, offeredIds]
    simp only [List.map_append, List.map_map]
    refine ((hperm.map _).append_right _).append ?_
    split_ifs
    · exact .refl _
    · exact .refl _

/-- Who is chosen from all that is offered is there once exactly if nobody is among the closest
twice. -/
theorem distinct_iff_of_lt (hT : RoutingTable.Inv dht.routingTable)
    (hlt : (eligible dht.routingTable f).length < k) :
    Distinct dht k f includeSelf
        (fill { target := t, maxEntries := k, filter := f } dht now includeSelf).entries ↔
      ∀ x, 2 ≤ (offeredIds dht k f includeSelf).count x →
        k ≤ (offeredIds dht k f includeSelf).countP (fun y => t.distance y < t.distance x) + 1 := by
  obtain ⟨kn, visited, others, rfl, rfl, hvisited, hentries, hids, hfill⟩ :=
    fill_offered t includeSelf now hT hlt
  have hnodup_iff := shave_nodup_iff kn
  simp only [hids.count_eq, hids.countP_eq] at hnodup_iff
  rw [hfill, ← hnodup_iff]
  refine ⟨fun h => h.nodup, fun hnodup => ⟨shave_length_le kn, hnodup, fun hcard e he => ?_⟩⟩
  obtain ⟨before, after, hsplit⟩ := List.append_of_mem (hvisited.mem_iff.mpr he)
  have hdistinct : (visited.map (·.nodeId)).Nodup :=
    (hvisited.map _).nodup_iff.mpr (eligible_nodup hT f)
  rw [hsplit, List.append_assoc, List.cons_append] at hentries
  have hfirst : ∀ x ∈ before, x.nodeId ≠ e.nodeId := by
    intro x hx heq
    rw [hsplit, List.map_append] at hdistinct
    exact (List.nodup_append.mp hdistinct).2.2 _ (List.mem_map_of_mem hx) _ List.mem_cons_self heq
  refine mem_shave_of_first hentries hfirst ?_
  by_contra hnot
  -- the result and the missing one would be too many
  have hmem : e.nodeId ∈ kn.entries.map (·.nodeId) := List.mem_map_of_mem (by rw [hentries]; simp)
  have hcandidate : ∀ x ∈ kn.entries.map (·.nodeId),
      x ∈ (candidateIds dht f includeSelf).dedup := by
    intro x hx
    rw [List.mem_dedup]
    exact offeredIds_subset (hids.mem_iff.mp hx)
  have hshave : ∀ x ∈ kn.shave.entries, x ∈ kn.entries := by
    intro x hx
    exact (List.mem_insertionSort _).mp (List.mem_of_mem_take ((shave_perm kn).mem_iff.mp hx))
  have hsub : e.nodeId :: kn.shave.entries.map (·.nodeId) ⊆
      (candidateIds dht f includeSelf).dedup := by
    refine List.cons_subset.mpr ⟨hcandidate _ hmem, fun x hx => ?_⟩
    obtain ⟨y, hy, rfl⟩ := List.mem_map.mp hx
    exact hcandidate _ (List.mem_map_of_mem (hshave y hy))
  have hle := (List.subperm_of_subset (List.nodup_cons.mpr ⟨hnot, hnodup⟩) hsub).length_le
  have hlength := (shave_perm kn).length_eq
  rw [List.length_take, List.length_insertionSort] at hlength
  rw [List.length_cons, List.length_map, hlength] at hle
  have hall : kn.shave = kn := shave_of_le (by omega)
  rw [hall] at hnot
  exact hnot hmem

/-- The result of `fill` is as it should be exactly if the table has enough entries, or nobody who
is offered twice is among the closest. -/
theorem fill_distinct_iff (dht : DHTView) (hT : RoutingTable.Partition dht.routingTable)
    (t : Id) (k : Nat) (f : KBucketEntry → Bool) (now : UInt64) (includeSelf : Bool) :
    Distinct dht k f includeSelf
        (fill { target := t, maxEntries := k, filter := f } dht now includeSelf).entries ↔
      NoneTwice dht t k f includeSelf := by
  rcases Nat.lt_or_ge (eligible dht.routingTable f).length k with hlt | hle
  · rw [distinct_iff_of_lt hT.inv hlt, NoneTwice, or_iff_right (Nat.not_le.mpr hlt)]
  · exact iff_of_true (distinct_of_le hT.inv hle) (.inl hle)

/-- A crowded table has enough entries for a target. -/
theorem fill_distinct_crowded :
    Distinct { type := .ipv4, routingTable := crowded } 8 KBucketEntry.isEligibleForNodesList true
      (fill { target := Id.zero.setByte 0 0x40, maxEntries := 8 }
        { type := .ipv4, routingTable := crowded } 0 true).entries :=
  (fill_distinct_iff { type := .ipv4, routingTable := crowded } crowded_partition
    (Id.zero.setByte 0 0x40) 8 _ 0 true).mpr (.inl (by decide +kernel))

/-- A table with one node, which is also the bootstrap node. -/
def lonely : DHTView where
  type := .ipv4
  routingTable :=
    ((RoutingTable.init Id.zero).run [.put 0 (entryAt 0x80)]).getD (RoutingTable.init Id.zero)
  bootstrapNodes := [(entryAt 0x80).toNodeInfo]

theorem lonely_partition : RoutingTable.Partition lonely.routingTable := by
  obtain ⟨T, hrun, hT⟩ :=
    RoutingTable.run_inv (RoutingTable.init_inv Id.zero) [.put 0 (entryAt 0x80)]
  rw [lonely, hrun]
  exact hT.partition

/-- The node of `lonely` is returned twice. -/
theorem fill_lonely : RoutingTable.Partition lonely.routingTable ∧
    ¬ Distinct lonely 8 KBucketEntry.isEligibleForNodesList false
      (fill { target := Id.zero, maxEntries := 8 } lonely 0 false).entries := by
  refine ⟨lonely_partition, fun h => ?_⟩
  have hnodup := h.nodup
  revert hnodup
  decide +kernel

end KClosestNodes

end Boson
