import Boson.RoutingTable.Partition
import Boson.Lib.Lowest

/-!
# The closest nodes of a routing table (`src/core/kclosest_nodes.*`)

`fill` collects entries from the bucket of the target outwards, one bucket at a time, until it has
enough, and keeps the closest of them. The next bucket is the neighbour, on either side of the
buckets visited so far, whose end is closer to the target.

* `ReachedBefore`: the order in which the buckets are reached. On one side of the target it is the
  numeric order, across the sides it is the XOR order.
* `Visited`: the state of the loop. The buckets visited so far are an initial part of that order.
* `fill_kLeast_iff`: the result is the closest entries of the table exactly if none of these is in a
  bucket that is reached after enough others.
-/

namespace Boson

open Keyspace Cover Lowest

/-- What `KClosestNodes` reads of its `DHT`. -/
structure DHTView where
  type : Network
  routingTable : RoutingTable
  /-- `getNode().getConfig()->getBootstrapNodes()`. -/
  bootstrapNodes : List NodeInfo := []
  origin : SocketAddress := .empty

/-- `KClosestNodes`. -/
structure KClosestNodes where
  target : Id
  maxEntries : Nat
  filter : KBucketEntry → Bool := KBucketEntry.isEligibleForNodesList
  entries : List KBucketEntry := []

namespace KClosestNodes

/-- `KClosestNodes::insertEntries`. -/
def insertEntries (self : KClosestNodes) (bucket : KBucket) : KClosestNodes :=
  { self with entries := self.entries ++ bucket.entries.filter self.filter }

/-- The order of `KClosestNodes::shave`. -/
def closerEq (target : Id) (a b : KBucketEntry) : Prop :=
  target.threeWayCompare a.nodeId b.nodeId ≤ 0

instance (target : Id) (a b : KBucketEntry) : Decidable (closerEq target a b) :=
  inferInstanceAs (Decidable (_ ≤ _))

/-- `KClosestNodes::shave`. -/
def shave (self : KClosestNodes) : KClosestNodes :=
  let overshoot : Int := self.entries.length - self.maxEntries
  if overshoot ≤ 0 then self
  else
    { self with
      entries := (self.entries.insertionSort (closerEq self.target)).take self.maxEntries }

/-- The loop of `KClosestNodes::fill`. -/
def fillLoop (buckets : List KBucket) (self : KClosestNodes) (low high : Nat) : KClosestNodes :=
  if self.entries.length < self.maxEntries then
    if 0 < low then
      let lowBucket := RoutingTable.listGet buckets (low - 1 : Nat)
      if high < buckets.length - 1 then
        let highBucket := RoutingTable.listGet buckets (high + 1 : Nat)
        let dir := self.target.threeWayCompare lowBucket.pfx.last highBucket.pfx.first
        if dir < 0 then fillLoop buckets (self.insertEntries lowBucket) (low - 1) high
        else if dir > 0 then fillLoop buckets (self.insertEntries highBucket) low (high + 1)
        else
          fillLoop buckets ((self.insertEntries lowBucket).insertEntries highBucket)
            (low - 1) (high + 1)
      else fillLoop buckets (self.insertEntries lowBucket) (low - 1) high
    else if high < buckets.length - 1 then
      fillLoop buckets (self.insertEntries (RoutingTable.listGet buckets (high + 1 : Nat)))
        low (high + 1)
    else self
  else self
termination_by low + (buckets.length - high)
decreasing_by all_goals omega

/-- The bootstrap nodes that `KClosestNodes::fill` adds when the table has too few entries. The
`static_pointer_cast` leaves a node without the fields of an entry. -/
def addBootstrapNodes (self : KClosestNodes) (dht : DHTView) : KClosestNodes :=
  if self.entries.length < self.maxEntries then
    let usable := dht.bootstrapNodes.filter fun n => dht.type.canUseSocketAddress n.sockaddr
    { self with entries := self.entries ++ usable.map fun n => { n with } }
  else self

/-- The node itself, which `KClosestNodes::fill` adds last. -/
def addSelf (self : KClosestNodes) (dht : DHTView) (now : UInt64) (includeSelf : Bool) :
    KClosestNodes :=
  if self.entries.length < self.maxEntries && includeSelf then
    let entry := KBucketEntry.new now dht.routingTable.localId dht.origin 0
    { self with entries := self.entries ++ [entry] }
  else self

/-- `KClosestNodes::fill`. -/
def fill (self : KClosestNodes) (dht : DHTView) (now : UInt64) (includeSelf : Bool) :
    KClosestNodes :=
  let buckets := dht.routingTable.buckets
  let idx := (RoutingTable.indexOf buckets self.target).toNat
  let self := self.insertEntries (RoutingTable.listGet buckets idx)
  let self := self.fillLoop buckets idx idx
  ((self.addBootstrapNodes dht).addSelf dht now includeSelf).shave

/-! ## The order in which buckets are reached -/

/-- A bucket with `x` is reached before a bucket with `e`: `x` lies between the target and `e`, or
on the other side of the target and closer to it. -/
def ReachedBefore (t x e : Id) : Prop :=
  (t ≤ x ∧ x < e) ∨ (e < x ∧ x ≤ t) ∨
    ((x < t ∧ t < e) ∨ (e < t ∧ t < x)) ∧ t.distance x < t.distance e

instance (t x e : Id) : Decidable (ReachedBefore t x e) := by
  unfold ReachedBefore; infer_instance

theorem ReachedBefore.asymm {t x e : Id} (h : ReachedBefore t x e) : ¬ ReachedBefore t e x := by
  unfold ReachedBefore at *
  grind

/-- The two ids fall into one bucket. -/
def sameBucket (T : RoutingTable) (x e : Id) : Bool :=
  T.buckets.any fun b => b.pfx.isPrefixOf x && b.pfx.isPrefixOf e

/-- The entries of the table that pass the filter. -/
def eligible (T : RoutingTable) (f : KBucketEntry → Bool) : List KBucketEntry :=
  T.allEntries.filter f

/-- The eligible entries closer to `t` than `e`. -/
def closerThan (T : RoutingTable) (t : Id) (f : KBucketEntry → Bool) (e : Id) : List KBucketEntry :=
  (eligible T f).filter fun x => t.distance x.nodeId < t.distance e

/-- The eligible entries in buckets that are reached before the bucket of `e`. -/
def reachedBefore (T : RoutingTable) (t : Id) (f : KBucketEntry → Bool) (e : Id) :
    List KBucketEntry :=
  (eligible T f).filter fun x => !sameBucket T x.nodeId e && decide (ReachedBefore t x.nodeId e)

/-- Every entry that belongs to the `k` closest is in a bucket reached before `k` others are
found. -/
def ReachesClosest (T : RoutingTable) (t : Id) (k : Nat) (f : KBucketEntry → Bool) : Prop :=
  ∀ e ∈ eligible T f, (closerThan T t f e.nodeId).length < k →
    (reachedBefore T t f e.nodeId).length < k

variable {T : RoutingTable} {kn : KClosestNodes} {low high : Nat}

/-- The buckets visited so far cover the ids `W`, which come first in the order of
`ReachedBefore`. -/
structure Visited (T : RoutingTable) (kn : KClosestNodes) (W : Id → Prop) : Prop where
  entries : ∀ e, e ∈ kn.entries ↔ e ∈ eligible T kn.filter ∧ W e.nodeId
  nodup : kn.entries.Nodup
  closed : ∀ x e, sameBucket T x e = true → W x → W e
  initial : ∀ x e, W x → ¬ W e → ReachedBefore kn.target x e
  early : ∀ e, W e → (reachedBefore T kn.target kn.filter e).length < kn.maxEntries

theorem eligible_nodup (hT : RoutingTable.Inv T) (f : KBucketEntry → Bool) :
    ((eligible T f).map (·.nodeId)).Nodup :=
  hT.partition.nodup.sublist (List.filter_sublist.map _)

theorem sameBucket_of_mem {b : KBucket} (hb : b ∈ T.buckets) {x e : Id}
    (hx : b.pfx.isPrefixOf x = true) (he : b.pfx.isPrefixOf e = true) : sameBucket T x e = true :=
  List.any_eq_true.mpr ⟨b, hb, by rw [hx, he]; rfl⟩

theorem isPrefixOf_of_sameBucket (hT : RoutingTable.Inv T) {b : KBucket} (hb : b ∈ T.buckets)
    {x e : Id} (h : sameBucket T x e = true) (hx : b.pfx.isPrefixOf x = true) :
    b.pfx.isPrefixOf e = true := by
  obtain ⟨b', hb', hxe⟩ := List.any_eq_true.mp h
  obtain ⟨hx', he⟩ := Bool.and_eq_true_iff.mp hxe
  rwa [hT.cover.eq_of_mem hb hb' hx hx']

/-- One more bucket that comes next in the order. -/
theorem Visited.insertEntries (hT : RoutingTable.Inv T) {W : Id → Prop} (h : Visited T kn W)
    {b : KBucket} (hb : b ∈ T.buckets) (hnew : ∀ x, b.pfx.isPrefixOf x = true → ¬ W x)
    (hlen : kn.entries.length < kn.maxEntries)
    (hnext : ∀ x e, b.pfx.isPrefixOf x = true → ¬ W e → b.pfx.isPrefixOf e = false →
      ReachedBefore kn.target x e) :
    Visited T (kn.insertEntries b) fun x => W x ∨ b.pfx.isPrefixOf x = true := by
  have hcov : ∀ e ∈ b.entries, b.pfx.isPrefixOf e.nodeId = true :=
    fun e he => (hT.ok b hb).covered _ (List.mem_map_of_mem he)
  have hinit : ∀ x e, W x ∨ b.pfx.isPrefixOf x = true → ¬ (W e ∨ b.pfx.isPrefixOf e = true) →
      ReachedBefore kn.target x e := by
    rintro x e (hx | hx) he
    · exact h.initial x e hx fun hw => he (.inl hw)
    · exact hnext x e hx (fun hw => he (.inl hw)) (Bool.eq_false_iff.mpr fun hw => he (.inr hw))
  refine ⟨fun e => ?_, ?_, ?_, hinit, ?_⟩
  · rw [KClosestNodes.insertEntries, List.mem_append, h.entries e, List.mem_filter]
    constructor
    · rintro (⟨he, hw⟩ | ⟨he, hf⟩)
      · exact ⟨he, .inl hw⟩
      · exact ⟨List.mem_filter.mpr ⟨List.mem_flatMap.mpr ⟨b, hb, he⟩, hf⟩, .inr (hcov e he)⟩
    · rintro ⟨he, hw | hw⟩
      · exact .inl ⟨he, hw⟩
      · obtain ⟨he, hf⟩ := List.mem_filter.mp he
        obtain ⟨b', hb', heb'⟩ := List.mem_flatMap.mp he
        have hcov' := (hT.ok b' hb').covered _ (List.mem_map_of_mem heb')
        rw [hT.cover.eq_of_mem hb' hb hcov' hw] at heb'
        exact .inr ⟨heb', hf⟩
  · refine List.nodup_append.mpr ⟨h.nodup, (hT.ok b hb).nodup.of_map.filter _, ?_⟩
    rintro e he _ he' rfl
    exact hnew _ (hcov e (List.mem_of_mem_filter he')) ((h.entries e).mp he).2
  · rintro x e hxe (hx | hx)
    · exact .inl (h.closed x e hxe hx)
    · exact .inr (isPrefixOf_of_sameBucket hT hb hxe hx)
  · rintro e (he | he)
    · exact h.early e he
    -- what is reached before this bucket was visited before
    have hsub : reachedBefore T kn.target kn.filter e ⊆ kn.entries := by
      intro x hx
      obtain ⟨hxe, hx⟩ := List.mem_filter.mp hx
      rw [Bool.and_eq_true_iff, Bool.not_eq_true', decide_eq_true_eq] at hx
      refine (h.entries x).mpr ⟨hxe, ?_⟩
      by_contra hw
      refine hx.2.asymm (hinit e x.nodeId (.inr he) ?_)
      rintro (hw' | hw')
      · exact hw hw'
      · rw [sameBucket_of_mem hb hw' he] at hx
        cases hx.1
    have hnd : (reachedBefore T kn.target kn.filter e).Nodup :=
      (eligible_nodup hT _).of_map.filter _
    exact (List.subperm_of_subset hnd hsub).length_le.trans_lt hlen

/-! ## The loop -/

/-- The id falls into one of the buckets `low` to `high`. -/
def InWindow (T : RoutingTable) (low high : Nat) (x : Id) : Prop :=
  ∃ (i : Nat) (hi : i < T.buckets.length), low ≤ i ∧ i ≤ high ∧ T.buckets[i].pfx.isPrefixOf x = true

theorem inWindow_low {i : Nat} (hi : i < T.buckets.length) (hih : i ≤ high) {x : Id} :
    InWindow T i high x ↔ InWindow T (i + 1) high x ∨ T.buckets[i].pfx.isPrefixOf x = true := by
  constructor
  · rintro ⟨j, hj, h1, h2, hx⟩
    rcases Nat.eq_or_lt_of_le h1 with rfl | hlt
    · exact .inr hx
    · exact .inl ⟨j, hj, hlt, h2, hx⟩
  · rintro (⟨j, hj, h1, h2, hx⟩ | hx)
    · exact ⟨j, hj, by omega, h2, hx⟩
    · exact ⟨i, hi, le_rfl, hih, hx⟩

theorem inWindow_high (hh : high + 1 < T.buckets.length) (hlh : low ≤ high + 1) {x : Id} :
    InWindow T low (high + 1) x ↔
      InWindow T low high x ∨ T.buckets[high + 1].pfx.isPrefixOf x = true := by
  constructor
  · rintro ⟨j, hj, h1, h2, hx⟩
    rcases Nat.eq_or_lt_of_le h2 with rfl | hlt
    · exact .inr hx
    · exact .inl ⟨j, hj, h1, by omega, hx⟩
  · rintro (⟨j, hj, h1, h2, hx⟩ | hx)
    · exact ⟨j, hj, h1, by omega, hx⟩
    · exact ⟨high + 1, hh, hlh, le_rfl, hx⟩

/-- An id outside the window is in a bucket below or above it. -/
theorem index_of_not_inWindow (hT : RoutingTable.Inv T) {e : Id} (h : ¬ InWindow T low high e) :
    ∃ (j : Nat) (hj : j < T.buckets.length), (j < low ∨ high < j) ∧
      T.buckets[j].pfx.isPrefixOf e = true := by
  obtain ⟨b, hb, hbe⟩ := hT.cover.exists_mem e
  obtain ⟨j, hj, rfl⟩ := List.getElem_of_mem hb
  refine ⟨j, hj, ?_, hbe⟩
  by_contra hno
  exact h ⟨j, hj, by omega, by omega, hbe⟩

/-- Only the bucket itself covers the first id of a bucket. -/
theorem isPrefixOf_first_eq_false (hT : RoutingTable.Inv T) {i j : Nat} (hi : i < T.buckets.length)
    (hj : j < T.buckets.length) (hij : i ≠ j) :
    T.buckets[i].pfx.isPrefixOf T.buckets[j].pfx.first = false :=
  Bool.eq_false_iff.mpr fun h => hij (hT.cover.getElem_inj hi hj h T.buckets[j].pfx.isPrefixOf_id)

theorem isPrefixOf_last_eq_false (hT : RoutingTable.Inv T) {i j : Nat} (hi : i < T.buckets.length)
    (hj : j < T.buckets.length) (hij : i ≠ j) :
    T.buckets[i].pfx.isPrefixOf T.buckets[j].pfx.last = false :=
  Bool.eq_false_iff.mpr fun h => hij (hT.cover.getElem_inj hi hj h T.buckets[j].pfx.isPrefixOf_last)

/-- The bucket below the window comes next if it is closer than the one above. -/
theorem reachedBefore_low (hT : RoutingTable.Inv T) {t x e : Id} {i : Nat}
    (hi : i < T.buckets.length) (ht : InWindow T (i + 1) high t)
    (hdir : ∀ h : high + 1 < T.buckets.length,
      t.distance T.buckets[i].pfx.last < t.distance T.buckets[high + 1].pfx.first)
    (hx : T.buckets[i].pfx.isPrefixOf x = true) (he : ¬ InWindow T (i + 1) high e)
    (hxe : T.buckets[i].pfx.isPrefixOf e = false) : ReachedBefore t x e := by
  obtain ⟨m, hm, him, hmh, hmt⟩ := ht
  obtain ⟨j, hj, hside, hje⟩ := index_of_not_inWindow hT he
  have hxt : x < t := hT.lt_of_index him hm hx hmt
  have hij : j ≠ i := by
    rintro rfl
    rw [hje] at hxe
    cases hxe
  rcases hside with hlt | hgt
  · exact .inr (.inl ⟨hT.lt_of_index (by omega) hi hje hx, hxt.le⟩)
  · have hh : high + 1 < T.buckets.length := by omega
    have hfirst := T.buckets[high + 1].pfx.isPrefixOf_id
    have hth : t < T.buckets[high + 1].pfx.first := hT.lt_of_index (by omega) hh hmt hfirst
    have hhe : T.buckets[high + 1].pfx.first ≤ e := by
      rcases Nat.eq_or_lt_of_le (Nat.succ_le_of_lt hgt) with rfl | hlt
      · exact Prefix.id_le_of_isPrefixOf hje
      · exact (hT.lt_of_index hlt hj hfirst hje).le
    have hd := Prefix.distance_lt_of_isPrefixOf T.buckets[i].pfx.isPrefixOf_last hx
      (isPrefixOf_first_eq_false hT hi hh (by omega)) (hdir hh)
    exact .inr (.inr ⟨.inl ⟨hxt, hth.trans_le hhe⟩, Id.distance_lt_of_below hxt hth hhe hd⟩)

/-- The bucket above the window comes next if it is closer than the one below. -/
theorem reachedBefore_high (hT : RoutingTable.Inv T) {t x e : Id} (hh : high + 1 < T.buckets.length)
    (ht : InWindow T low high t)
    (hdir : ∀ i (hi : i < T.buckets.length), i + 1 = low →
      t.distance T.buckets[high + 1].pfx.first < t.distance T.buckets[i].pfx.last)
    (hx : T.buckets[high + 1].pfx.isPrefixOf x = true) (he : ¬ InWindow T low high e)
    (hxe : T.buckets[high + 1].pfx.isPrefixOf e = false) : ReachedBefore t x e := by
  obtain ⟨m, hm, hlm, hmh, hmt⟩ := ht
  obtain ⟨j, hj, hside, hje⟩ := index_of_not_inWindow hT he
  have htx : t < x := hT.lt_of_index (by omega) hh hmt hx
  have hij : j ≠ high + 1 := by
    rintro rfl
    rw [hje] at hxe
    cases hxe
  rcases hside with hlt | hgt
  · obtain ⟨i, rfl⟩ : ∃ i, low = i + 1 := ⟨low - 1, by omega⟩
    have hi : i < T.buckets.length := by omega
    have hlast := T.buckets[i].pfx.isPrefixOf_last
    have hlt' : T.buckets[i].pfx.last < t := hT.lt_of_index hlm hm hlast hmt
    have hel : e ≤ T.buckets[i].pfx.last := by
      rcases Nat.eq_or_lt_of_le (Nat.le_of_lt_succ hlt) with rfl | hji
      · exact Prefix.le_last_of_isPrefixOf hje
      · exact (hT.lt_of_index hji hi hje hlast).le
    have hd := Prefix.distance_lt_of_isPrefixOf T.buckets[high + 1].pfx.isPrefixOf_id hx
      (isPrefixOf_last_eq_false hT hh hi (by omega)) (hdir i hi rfl)
    exact .inr (.inr ⟨.inr ⟨hel.trans_lt hlt', htx⟩, Id.distance_lt_of_above htx hlt' hel hd⟩)
  · exact .inl ⟨htx.le, hT.lt_of_index (by omega) hj hx hje⟩

theorem not_inWindow (hT : RoutingTable.Inv T) {i : Nat} (hi : i < T.buckets.length)
    (hout : i < low ∨ high < i) {x : Id} (hx : T.buckets[i].pfx.isPrefixOf x = true) :
    ¬ InWindow T low high x := by
  rintro ⟨j, hj, h1, h2, hjx⟩
  have := hT.cover.getElem_inj hi hj hx hjx
  omega

/-- The loop moves on to the bucket below. -/
theorem Visited.insert_low (hT : RoutingTable.Inv T) {i : Nat} (hih : i < high)
    (hh : high < T.buckets.length) (ht : InWindow T (i + 1) high kn.target)
    (hv : Visited T kn (InWindow T (i + 1) high)) (hlen : kn.entries.length < kn.maxEntries)
    (hdir : ∀ h : high + 1 < T.buckets.length, kn.target.distance T.buckets[i].pfx.last <
      kn.target.distance T.buckets[high + 1].pfx.first) :
    Visited T (kn.insertEntries T.buckets[i]) (InWindow T i high) := by
  have hi : i < T.buckets.length := hih.trans hh
  have := hv.insertEntries hT (List.getElem_mem hi)
      (fun x hx => not_inWindow hT hi (by omega) hx) hlen
    (fun x e hx he hxe => reachedBefore_low hT hi ht hdir hx he hxe)
  rwa [show InWindow T i high = _ from funext fun x => propext (inWindow_low hi hih.le)]

/-- The loop moves on to the bucket above. -/
theorem Visited.insert_high (hT : RoutingTable.Inv T) (hlh : low ≤ high)
    (hh : high + 1 < T.buckets.length) (ht : InWindow T low high kn.target)
    (hv : Visited T kn (InWindow T low high)) (hlen : kn.entries.length < kn.maxEntries)
    (hdir : ∀ i (hi : i < T.buckets.length), i + 1 = low →
      kn.target.distance T.buckets[high + 1].pfx.first < kn.target.distance T.buckets[i].pfx.last) :
    Visited T (kn.insertEntries T.buckets[high + 1]) (InWindow T low (high + 1)) := by
  have := hv.insertEntries hT (List.getElem_mem hh)
      (fun x hx => not_inWindow hT hh (by omega) hx) hlen
    (fun x e hx he hxe => reachedBefore_high hT hh ht hdir hx he hxe)
  rwa [show InWindow T low (high + 1) = _ from
    funext fun x => propext (inWindow_high hh (by omega))]

theorem InWindow.mono {low' high' : Nat} {x : Id} (h : InWindow T low high x) (hl : low' ≤ low)
    (hh : high ≤ high') : InWindow T low' high' x := by
  obtain ⟨i, hi, h1, h2, hx⟩ := h
  exact ⟨i, hi, by omega, by omega, hx⟩

/-- The ends of two buckets are different ids, so the loop always prefers one of the two sides. -/
theorem threeWayCompare_ends_ne (hT : RoutingTable.Inv T) {i j : Nat} (hi : i < T.buckets.length)
    (hj : j < T.buckets.length) (hij : i ≠ j) :
    kn.target.threeWayCompare T.buckets[i].pfx.last T.buckets[j].pfx.first ≠ 0 := by
  intro hzero
  have hfalse := isPrefixOf_first_eq_false hT hi hj hij
  rw [← Id.threeWayCompare_zero_iff.mp hzero, Prefix.isPrefixOf_last] at hfalse
  cases hfalse

/-- The loop ends with enough entries or with all buckets visited. -/
theorem fillLoop_visited (kn : KClosestNodes) (hT : RoutingTable.Inv T) (hlh : low ≤ high)
    (hh : high < T.buckets.length)
    (ht : InWindow T low high kn.target) (hv : Visited T kn (InWindow T low high)) :
    ∃ W, Visited T (kn.fillLoop T.buckets low high) W ∧
      ((kn.fillLoop T.buckets low high).maxEntries ≤
        (kn.fillLoop T.buckets low high).entries.length ∨
        ∀ x, W x) := by
  generalize hbs : T.buckets = bs
  fun_induction fillLoop bs kn low high with
  | case1 kn low high hlen hlow lb hhigh hb dir hdir ih =>
    subst hbs
    obtain ⟨i, rfl⟩ : ∃ i, low = i + 1 := ⟨low - 1, by omega⟩
    have hi : i < T.buckets.length := by omega
    have hnext : high + 1 < T.buckets.length := by omega
    simp only [Nat.add_sub_cancel, lb, hb, dir, RoutingTable.listGet_natCast hi,
      RoutingTable.listGet_natCast hnext] at hdir ih ⊢
    refine ih (by omega) hh (ht.mono (by omega) le_rfl)
      (hv.insert_low hT (by omega) hh ht hlen fun _ => ?_)
    exact Id.distance_lt_iff.mpr (Id.threeWayCompare_neg_iff.mp hdir)
  | case2 kn low high hlen hlow lb hhigh hb dir hdir hdir' ih =>
    subst hbs
    have hi : low - 1 < T.buckets.length := by omega
    have hnext : high + 1 < T.buckets.length := by omega
    simp only [lb, hb, dir, RoutingTable.listGet_natCast hi,
      RoutingTable.listGet_natCast hnext] at hdir' ih ⊢
    refine ih (by omega) hnext (ht.mono le_rfl (by omega))
      (hv.insert_high hT hlh hnext ht hlen fun j hj hjl => ?_)
    obtain rfl : j = low - 1 := by omega
    exact Id.distance_lt_iff.mpr (Id.threeWayCompare_pos_iff.mp hdir')
  | case3 kn low high hlen hlow lb hhigh hb dir hdir hdir' ih =>
    subst hbs
    have hi : low - 1 < T.buckets.length := by omega
    have hnext : high + 1 < T.buckets.length := by omega
    have hne : dir ≠ 0 := by
      simp only [lb, hb, dir, RoutingTable.listGet_natCast hi, RoutingTable.listGet_natCast hnext]
      exact threeWayCompare_ends_ne hT hi hnext (by omega)
    omega
  | case4 kn low high hlen hlow lb hhigh ih =>
    subst hbs
    obtain ⟨i, rfl⟩ : ∃ i, low = i + 1 := ⟨low - 1, by omega⟩
    have hi : i < T.buckets.length := by omega
    simp only [Nat.add_sub_cancel, lb, RoutingTable.listGet_natCast hi] at ih ⊢
    refine ih (by omega) hh (ht.mono (by omega) le_rfl) (hv.insert_low hT (by omega) hh ht hlen ?_)
    exact fun h => absurd h (by omega)
  | case5 kn low high hlen hlow hhigh ih =>
    subst hbs
    have hnext : high + 1 < T.buckets.length := by omega
    simp only [RoutingTable.listGet_natCast hnext] at ih ⊢
    refine ih (by omega) hnext (ht.mono le_rfl (by omega)) (hv.insert_high hT hlh hnext ht hlen ?_)
    exact fun j hj hjl => absurd hjl (by omega)
  | case6 kn low high hlen hlow hhigh =>
    refine ⟨_, hv, .inr fun x => ?_⟩
    by_contra hx
    obtain ⟨j, hj, hside, -⟩ := index_of_not_inWindow hT hx
    rw [← hbs] at hhigh
    omega
  | case7 kn low high hlen => exact ⟨_, hv, .inl (by omega)⟩

theorem fillLoop_fields (buckets : List KBucket) (kn : KClosestNodes) (low high : Nat) :
    (kn.fillLoop buckets low high).target = kn.target ∧
      (kn.fillLoop buckets low high).maxEntries = kn.maxEntries ∧
      (kn.fillLoop buckets low high).filter = kn.filter := by
  fun_induction fillLoop buckets kn low high <;> first | exact ⟨rfl, rfl, rfl⟩ | assumption

/-! ## What `fill` returns -/

/-- `x` is closer to `t` than `y`. -/
abbrev Closer (t : Id) (x y : KBucketEntry) : Prop := t.distance x.nodeId < t.distance y.nodeId

theorem sorted_insertionSort (t : Id) (l : List KBucketEntry) :
    (l.insertionSort (closerEq t)).Pairwise fun a b =>
      t.distance a.nodeId ≤ t.distance b.nodeId := by
  have htotal : Std.Total (closerEq t) := ⟨fun a b => by
    simp only [closerEq, Id.threeWayCompare_le_iff_distance]
    exact le_total _ _⟩
  have htrans : IsTrans KBucketEntry (closerEq t) := ⟨fun a b c hab hbc => by
    simp only [closerEq, Id.threeWayCompare_le_iff_distance] at *
    exact hab.trans hbc⟩
  exact (List.pairwise_insertionSort (closerEq t) l).imp fun {a b} hab =>
    Id.threeWayCompare_le_iff_distance.mp hab

theorem kLeast_insertionSort (t : Id) (k : Nat) {l : List KBucketEntry}
    (hnd : (l.map (·.nodeId)).Nodup) :
    KLeast (Closer t) k l ((l.insertionSort (closerEq t)).take k) := by
  have hp := List.perm_insertionSort (closerEq t) l
  refine kLeast_take k hp hnd.of_map ?_
  have hne : (l.insertionSort (closerEq t)).Pairwise fun a b => a.nodeId ≠ b.nodeId :=
    List.pairwise_map.mp ((hp.map _).nodup_iff.mpr hnd)
  refine ((sorted_insertionSort t l).and hne).imp fun {a b} hab => ?_
  exact lt_of_le_of_ne hab.1 fun h => hab.2 (Id.distance_injective t h)

/-- `shave` keeps the closest entries. -/
theorem shave_kLeast (hnd : (kn.entries.map (·.nodeId)).Nodup) :
    KLeast (Closer kn.target) kn.maxEntries kn.entries kn.shave.entries := by
  unfold shave
  dsimp only
  split
  · exact ⟨List.Subset.refl _, hnd.of_map, by omega, fun x _ y hy hyn => absurd hy hyn⟩
  · exact kLeast_insertionSort kn.target kn.maxEntries hnd

/-- The bucket of the target comes first. -/
theorem reachedBefore_home (hT : RoutingTable.Inv T) {b : KBucket} (hb : b ∈ T.buckets) {t x e : Id}
    (ht : b.pfx.isPrefixOf t = true) (hx : b.pfx.isPrefixOf x = true)
    (he : b.pfx.isPrefixOf e = false) :
    ReachedBefore t x e := by
  have hd : t.distance x < t.distance e := by
    refine Prefix.distance_lt_of_isPrefixOf ht hx he (Id.distance_self_lt ?_)
    rintro rfl
    rw [ht] at he
    cases he
  obtain ⟨i, hi, rfl⟩ := List.getElem_of_mem hb
  obtain ⟨b', hb', hbe⟩ := hT.cover.exists_mem e
  obtain ⟨j, hj, rfl⟩ := List.getElem_of_mem hb'
  rcases lt_trichotomy i j with hij | rfl | hij
  · have hte := hT.lt_of_index hij hj ht hbe
    have hxe := hT.lt_of_index hij hj hx hbe
    rcases le_or_gt t x with h | h
    · exact .inl ⟨h, hxe⟩
    · exact .inr (.inr ⟨.inl ⟨h, hte⟩, hd⟩)
  · rw [show T.buckets[i].pfx.isPrefixOf e = true from hbe] at he
    cases he
  · have hte := hT.lt_of_index hij hi hbe ht
    have hxe := hT.lt_of_index hij hi hbe hx
    rcases le_or_gt x t with h | h
    · exact .inr (.inl ⟨hxe, h⟩)
    · exact .inr (.inr ⟨.inr ⟨hte, h⟩, hd⟩)

theorem Visited.entries_nodup (hT : RoutingTable.Inv T) {W : Id → Prop} (h : Visited T kn W) :
    (kn.entries.map (·.nodeId)).Nodup :=
  List.Nodup.map_on (fun x hx y hy hxy => List.inj_on_of_nodup_map (eligible_nodup hT kn.filter)
    ((h.entries x).mp hx).1 ((h.entries y).mp hy).1 hxy) h.nodup

theorem inWindow_self {i : Nat} (hi : i < T.buckets.length) {x : Id} :
    InWindow T i i x ↔ T.buckets[i].pfx.isPrefixOf x = true := by
  constructor
  · rintro ⟨j, hj, h1, h2, h⟩
    obtain rfl : j = i := by omega
    exact h
  · exact fun h => ⟨i, hi, le_rfl, le_rfl, h⟩

/-- The state of `fill` before its loop. -/
theorem start_visited (hT : RoutingTable.Inv T) (hnil : kn.entries = []) (hk : 0 < kn.maxEntries)
    {i : Nat} (hi : i < T.buckets.length) (hcov : T.buckets[i].pfx.isPrefixOf kn.target = true) :
    Visited T (kn.insertEntries T.buckets[i]) (InWindow T i i) := by
  have hv : Visited T kn fun _ => False :=
    ⟨fun e => by simp [hnil], by rw [hnil]; exact List.nodup_nil, fun _ _ _ h => h.elim,
      fun _ _ h => h.elim, fun _ h => h.elim⟩
  have := hv.insertEntries hT (List.getElem_mem hi) (fun _ _ h => h) (by rw [hnil]; exact hk)
    (fun x e hx _ he => reachedBefore_home hT (List.getElem_mem hi) hcov hx he)
  simpa only [false_or, ← inWindow_self hi] using this

/-- The state of `fill` after its loop. -/
theorem fill_loop (kn : KClosestNodes) {dht : DHTView} (hT : RoutingTable.Inv dht.routingTable)
    (hnil : kn.entries = []) (hk : 0 < kn.maxEntries) (now : UInt64) (includeSelf : Bool) :
    ∃ (kn' : KClosestNodes) (W : Id → Prop), Visited dht.routingTable kn' W ∧
      kn'.target = kn.target ∧ kn'.maxEntries = kn.maxEntries ∧ kn'.filter = kn.filter ∧
      (kn.maxEntries ≤ kn'.entries.length ∨ ∀ x, W x) ∧
      kn.fill dht now includeSelf =
        ((kn'.addBootstrapNodes dht).addSelf dht now includeSelf).shave := by
  obtain ⟨i, hi, hidx, -, hcov⟩ := hT.getBucket_spec kn.target
  have ht : InWindow dht.routingTable i i kn.target := (inWindow_self hi).mpr hcov
  obtain ⟨W, hv, hend⟩ := fillLoop_visited (kn.insertEntries dht.routingTable.buckets[i]) hT le_rfl
    hi ht (start_visited hT hnil hk hi hcov)
  obtain ⟨htarget, hmax, hfilter⟩ := fillLoop_fields dht.routingTable.buckets
    (kn.insertEntries dht.routingTable.buckets[i]) i i
  rw [hmax] at hend
  refine ⟨_, W, hv, htarget, hmax, hfilter, hend, ?_⟩
  rw [fill, hidx, Int.toNat_natCast, RoutingTable.listGet_natCast hi]

/-- When all buckets were visited, all eligible entries are there. -/
theorem Visited.perm_eligible (hT : RoutingTable.Inv T) {W : Id → Prop} (h : Visited T kn W)
    (hall : ∀ x, W x) :
    kn.entries.Perm (eligible T kn.filter) :=
  (List.perm_ext_iff_of_nodup h.nodup (eligible_nodup hT _).of_map).mpr fun e => by
    rw [h.entries e, and_iff_left (hall _)]

/-- The state of `fill` before `shave`, when the table has enough entries. -/
theorem fill_visited (kn : KClosestNodes) {dht : DHTView} (hT : RoutingTable.Inv dht.routingTable)
    (hnil : kn.entries = [])
    (hk : 0 < kn.maxEntries) (hlen : kn.maxEntries ≤ (eligible dht.routingTable kn.filter).length)
    (now : UInt64) (includeSelf : Bool) :
    ∃ (kn' : KClosestNodes) (W : Id → Prop), Visited dht.routingTable kn' W ∧
      kn'.target = kn.target ∧ kn'.maxEntries = kn.maxEntries ∧ kn'.filter = kn.filter ∧
      kn.maxEntries ≤ kn'.entries.length ∧ kn.fill dht now includeSelf = kn'.shave := by
  obtain ⟨kn', W, hv, htarget, hmax, hfilter, hend, hfill⟩ :=
    fill_loop kn hT hnil hk now includeSelf
  have hfull : kn.maxEntries ≤ kn'.entries.length := by
    rcases hend with hend | hall
    · exact hend
    · rw [(hv.perm_eligible hT hall).length_eq, hfilter]
      exact hlen
  have hnot : ¬ kn'.entries.length < kn'.maxEntries := by
    rw [hmax]
    exact Nat.not_lt.mpr hfull
  refine ⟨kn', W, hv, htarget, hmax, hfilter, hfull, ?_⟩
  rw [hfill, addBootstrapNodes, if_neg hnot, addSelf, if_neg (by simp [hnot])]

/-- `fill` returns the closest eligible entries exactly if each of them is in a bucket that is
reached before enough others are found. -/
theorem fill_kLeast_iff (dht : DHTView) (hT : RoutingTable.Partition dht.routingTable) (t : Id)
    (k : Nat) (hk : 0 < k) (f : KBucketEntry → Bool) (now : UInt64) (includeSelf : Bool)
    (hlen : k ≤ (eligible dht.routingTable f).length) :
    KLeast (Closer t) k (eligible dht.routingTable f)
        (fill { target := t, maxEntries := k, filter := f } dht now includeSelf).entries ↔
      ReachesClosest dht.routingTable t k f := by
  obtain ⟨kn, W, hv, rfl, rfl, rfl, hfull, hfill⟩ := fill_visited
    { target := t, maxEntries := k, filter := f } hT.inv rfl hk hlen now includeSelf
  rw [hfill]
  change kn.maxEntries ≤ kn.entries.length at hfull
  have hshave := shave_kLeast (hv.entries_nodup hT.inv)
  constructor
  · -- an entry that belongs to the result was visited, hence reached early
    intro h e he hcloser
    have hres : e ∈ kn.shave.entries := by
      by_contra hne
      have hsub : kn.shave.entries ⊆ closerThan dht.routingTable kn.target kn.filter e.nodeId :=
        fun x hx => List.mem_filter.mpr ⟨h.subset hx, decide_eq_true (h.least x hx e he hne)⟩
      have hle := (List.subperm_of_subset h.nodup hsub).length_le
      rw [h.length, Nat.min_eq_left hlen] at hle
      omega
    exact hv.early _ ((hv.entries e).mp (hshave.subset hres)).2
  · intro h
    have hM := kLeast_insertionSort kn.target kn.maxEntries (eligible_nodup hT.inv kn.filter)
    generalize ((eligible dht.routingTable kn.filter).insertionSort (closerEq kn.target)).take
      kn.maxEntries = M at hM
    have hcloser : ∀ e ∈ M,
        (closerThan dht.routingTable kn.target kn.filter e.nodeId).length < kn.maxEntries := by
      intro e he
      have hsub : e :: closerThan dht.routingTable kn.target kn.filter e.nodeId ⊆ M := by
        refine List.cons_subset.mpr ⟨he, fun x hx => ?_⟩
        obtain ⟨hx, hlt⟩ := List.mem_filter.mp hx
        by_contra hxM
        exact lt_asymm (of_decide_eq_true hlt) (hM.least e he x hx hxM)
      have hnd : (e :: closerThan dht.routingTable kn.target kn.filter e.nodeId).Nodup := by
        refine List.nodup_cons.mpr ⟨fun hx => ?_, (eligible_nodup hT.inv _).of_map.filter _⟩
        exact lt_irrefl _ (of_decide_eq_true (List.mem_filter.mp hx).2)
      have hle := (List.subperm_of_subset hnd hsub).length_le
      rw [hM.length, Nat.min_eq_left hlen] at hle
      exact hle
    have hsub : M ⊆ kn.entries := by
      intro e he
      have hbefore := h e (hM.subset he) (hcloser e he)
      refine (hv.entries e).mpr ⟨hM.subset he, ?_⟩
      -- otherwise everything visited was reached before `e`
      by_contra hW
      have hall : kn.entries ⊆ reachedBefore dht.routingTable kn.target kn.filter e.nodeId := by
        intro x hx
        obtain ⟨hxe, hWx⟩ := (hv.entries x).mp hx
        refine List.mem_filter.mpr ⟨hxe, ?_⟩
        rw [Bool.and_eq_true_iff, Bool.not_eq_true', decide_eq_true_eq]
        exact ⟨Bool.eq_false_iff.mpr fun hs => hW (hv.closed _ _ hs hWx), hv.initial _ _ hWx hW⟩
      have := (List.subperm_of_subset hv.nodup hall).length_le
      omega
    have hM' := hM.restrict (fun x hx => ((hv.entries x).mp hx).1) hsub hlen hfull
    exact hM.congr hshave.nodup (hM'.subset_of (fun _ _ => lt_asymm) hshave)
      (hshave.subset_of (fun _ _ => lt_asymm) hM')

/-- A reachable node whose id starts with the byte `b`. -/
def entryAt (b : UInt8) : KBucketEntry :=
  { nodeId := Id.zero.setByte 0 b, sockaddr := .inet ⟨[8, 8, 8, b], rfl⟩ 39001,
    reachable := true }

/-- Nine nodes put into an empty table: the buckets are `0`, without entries, `10`, with eight, and
`11`, with one. -/
def crowdedOps : List RoutingTable.Op :=
  [0x80, 0x81, 0x82, 0x83, 0x84, 0x85, 0x86, 0x87, 0xc0].map fun b => .put 0 (entryAt b)

/-- The table after `crowdedOps`. -/
def crowded : RoutingTable :=
  ((RoutingTable.init Id.zero).run crowdedOps).getD (RoutingTable.init Id.zero)

theorem crowded_partition : RoutingTable.Partition crowded := by
  obtain ⟨T, hrun, hT⟩ := RoutingTable.run_inv (RoutingTable.init_inv Id.zero) crowdedOps
  rw [crowded, hrun]
  exact hT.partition

/-- The eight nodes closest to `0x80...` are those of its own bucket. -/
theorem fill_crowded_high :
    KLeast (Closer (Id.zero.setByte 0 0x80)) 8
      (eligible crowded KBucketEntry.isEligibleForNodesList)
      (fill { target := Id.zero.setByte 0 0x80, maxEntries := 8 }
        { type := .ipv4, routingTable := crowded } 0 false).entries :=
  (fill_kLeast_iff { type := .ipv4, routingTable := crowded } crowded_partition
    (Id.zero.setByte 0 0x80)
    8 (by decide) _ 0 false (by decide +kernel)).mpr (by unfold ReachesClosest; decide +kernel)

/-- For the target `0x40...` the bucket `10` is reached before the bucket `11`, and has enough
entries; but the entry in `11` is the closest of all. -/
theorem fill_crowded_low : RoutingTable.Partition crowded ∧
    8 ≤ (eligible crowded KBucketEntry.isEligibleForNodesList).length ∧
    ¬ KLeast (Closer (Id.zero.setByte 0 0x40)) 8
      (eligible crowded KBucketEntry.isEligibleForNodesList)
      (fill { target := Id.zero.setByte 0 0x40, maxEntries := 8 }
        { type := .ipv4, routingTable := crowded } 0 false).entries := by
  refine ⟨crowded_partition, by decide +kernel, fun h => ?_⟩
  have hres : entryAt 0x80 ∈ (fill { target := Id.zero.setByte 0 0x40, maxEntries := 8 }
      { type := .ipv4, routingTable := crowded } 0 false).entries := by decide +kernel
  have hlt := h.least _ hres (entryAt 0xc0) (by decide +kernel) (by decide +kernel)
  revert hlt
  decide +kernel

end KClosestNodes

end Boson
