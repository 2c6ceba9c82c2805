import Boson.KBucket

/-!
# The routing table (`src/core/routing_table.*`)

The table is a list of buckets, sorted by prefix. `indexOf` finds the bucket of an id by binary
search; `put` splits the bucket of a new entry as long as it is full and the entry falls into its
high half; `mergeBuckets` merges sibling buckets whose effective entries fit into one.

The split loop of `put` runs with a bound on its iterations and gives `none` if it is reached;
`Boson.RoutingTable.Partition` shows that it never is.
-/

namespace Boson

/-- `RoutingTable`. `localId` is the id of the node that the table belongs to
(`dht.getNode().getId()`). -/
structure RoutingTable where
  localId : Id
  buckets : List KBucket

namespace RoutingTable

/-- `RoutingTable::RoutingTable`: one home bucket with the prefix `all`. -/
def init (localId : Id) : RoutingTable :=
  { localId := localId, buckets := [{ pfx := Prefix.all, homeBucket := true }] }

/-- The bucket that stands for a read outside the list, which no call does. -/
def noBucket : KBucket := { pfx := Prefix.all, homeBucket := false }

/-- `list_get`. -/
def listGet (bucketsRef : List KBucket) (index : Int) : KBucket :=
  bucketsRef.getD index.toNat noBucket

/-- The loop of `RoutingTable::indexOf`. -/
def indexOfLoop (bucketsRef : List KBucket) (id : Id) (low high mid cmp : Int) : Int :=
  if low ≤ high then
    let mid := (low + high) / 2
    let cmp := id.compareTo (listGet bucketsRef mid).pfx.id
    if cmp > 0 then indexOfLoop bucketsRef id (mid + 1) high mid cmp
    else if cmp < 0 then indexOfLoop bucketsRef id low (mid - 1) mid cmp
    else mid
  else if cmp < 0 then mid - 1 else mid
termination_by (high - low + 1).toNat
decreasing_by all_goals omega

/-- `RoutingTable::indexOf`. -/
def indexOf (bucketsRef : List KBucket) (id : Id) : Int :=
  indexOfLoop bucketsRef id 0 ((bucketsRef.length : Int) - 1) 0 0

/-- `RoutingTable::getBucket`. -/
def getBucket (self : RoutingTable) (id : Id) : KBucket :=
  listGet self.buckets (indexOf self.buckets id)

/-- `RoutingTable::getEntry`. -/
def getEntry (self : RoutingTable) (id : Id) : Option KBucketEntry := (self.getBucket id).get id

/-- All entries, bucket by bucket. -/
def allEntries (self : RoutingTable) : List KBucketEntry := self.buckets.flatMap (·.entries)

/-- `RoutingTable::isHomeBucket`. -/
def isHomeBucket (self : RoutingTable) (pfx : Prefix) : Bool := pfx.isPrefixOf self.localId

/-- The bucket of `id`, changed in place. -/
def modifyBucket (self : RoutingTable) (id : Id) (f : KBucket → KBucket) : RoutingTable :=
  { self with buckets := self.buckets.modify (indexOf self.buckets id).toNat f }

/-- `RoutingTable::_needsSplit`. -/
def needsSplit (now : UInt64) (bucket : KBucket) (newEntry : KBucketEntry) : Bool :=
  if h : bucket.pfx.isSplittable = true then
    if !bucket.isFull || !newEntry.reachable || bucket.exists newEntry.nodeId ||
        bucket.needsReplacement now then false
    else (bucket.pfx.splitBranch true h).isPrefixOf newEntry.nodeId
  else false

theorem isSplittable_of_needsSplit {now : UInt64} {b : KBucket} {e : KBucketEntry}
    (h : needsSplit now b e = true) : b.pfx.isSplittable = true := by
  unfold needsSplit at h
  split at h
  · assumption
  · cases h

/-- `newBuckets.sort(sortKBucket)`: `std::list::sort` is stable. -/
def sortBuckets (buckets : List KBucket) : List KBucket :=
  buckets.insertionSort fun a b => a.pfx.id ≤ b.pfx.id

/-- `list_removeAll`. Distinct buckets are distinct pointers in the source. -/
def listRemoveAll (list toRemove : List KBucket) : List KBucket := toRemove.foldl List.erase list

/-- `RoutingTable::_modify`. -/
def modify (self : RoutingTable) (toRemove toAdd : List KBucket) : RoutingTable :=
  { self with buckets := sortBuckets (listRemoveAll self.buckets toRemove ++ toAdd) }

/-- The loop of `_split` that hands the entries of a bucket to its two halves. -/
def splitEntries (now : UInt64) (entries : List KBucketEntry) (l h : KBucket) : KBucket × KBucket :=
  entries.foldl
    (fun (lh : KBucket × KBucket) entry =>
      if lh.1.pfx.isPrefixOf entry.nodeId then (lh.1.put now entry, lh.2)
      else (lh.1, lh.2.put now entry))
    (l, h)

/-- `RoutingTable::_split`. The caller checked that the prefix is splittable. -/
def split (self : RoutingTable) (now : UInt64) (bucket : KBucket)
    (hs : bucket.pfx.isSplittable = true) : RoutingTable :=
  let pl := bucket.pfx.splitBranch false hs
  let ph := bucket.pfx.splitBranch true hs
  let lh := splitEntries now bucket.entries
    { pfx := pl, homeBucket := self.isHomeBucket pl }
    { pfx := ph, homeBucket := self.isHomeBucket ph }
  self.modify [bucket] [lh.1, lh.2]

/-- The loop of `RoutingTable::_put`, for at most `fuel` splits. -/
def putLoop (now : UInt64) (entry : KBucketEntry) : Nat → RoutingTable → Option RoutingTable
  | 0, _ => none
  | fuel + 1, self =>
    let bucket := self.getBucket entry.nodeId
    if h : needsSplit now bucket entry = true then
      putLoop now entry fuel (self.split now bucket (isSplittable_of_needsSplit h))
    else some (self.modifyBucket entry.nodeId (·.put now entry))

/-- `RoutingTable::_put`. A prefix of depth -1 is split at most 256 times. -/
def put (self : RoutingTable) (now : UInt64) (entry : KBucketEntry) : Option RoutingTable :=
  putLoop now entry 257 self

/-- `RoutingTable::_remove`. -/
def remove (self : RoutingTable) (now : UInt64) (id : Id) : RoutingTable :=
  match (self.getBucket id).get id with
  | some toRemove => self.modifyBucket id (·.removeIfBad now toRemove true)
  | none => self

/-- `RoutingTable::_onTimeout`. -/
def onTimeout (self : RoutingTable) (now : UInt64) (id : Id) : RoutingTable :=
  self.modifyBucket id (·.onTimeout now id)

/-- `RoutingTable::_onSend`. -/
def onSend (self : RoutingTable) (now : UInt64) (id : Id) : RoutingTable :=
  self.modifyBucket id (·.onSend now id)

/-- `getEffectiveSize` of `_mergeBuckets`. -/
def effectiveSize (bucket : KBucket) : Nat :=
  bucket.entries.countP (!·.removableWithoutReplacement)

/-- The bucket that replaces the siblings `b1` and `b2`: their parent, with all their entries put
one after the other. -/
def mergedBucket (self : RoutingTable) (now : UInt64) (b1 b2 : KBucket) : KBucket :=
  let parent := b1.pfx.getParent
  (b1.entries ++ b2.entries).foldl (fun b entry => b.put now entry)
    { pfx := parent, homeBucket := self.isHomeBucket parent }

theorem length_sortBuckets (l : List KBucket) : (sortBuckets l).length = l.length :=
  List.length_insertionSort _ l

/-- Erasing the buckets at two positions of the list takes two buckets away. -/
theorem length_erase_pair {l : List KBucket} {j : Nat} (h0 : 0 < j) (hj : j < l.length) :
    (listRemoveAll l [l[j - 1], l[j]]).length = l.length - 2 := by
  obtain ⟨i, rfl⟩ := Nat.exists_eq_succ_of_ne_zero h0.ne'
  simp only [Nat.succ_eq_add_one, Nat.add_sub_cancel] at hj ⊢
  simp only [listRemoveAll, List.foldl_cons, List.foldl_nil]
  have h1 : (l.erase l[i]).length = l.length - 1 := List.length_erase_of_mem (List.getElem_mem _)
  have hmem : l[i + 1] ∈ l.erase l[i] := by
    by_cases heq : l[i + 1] = l[i]
    · -- two equal buckets: one copy is left
      rw [heq, ← List.count_pos_iff, List.count_erase_self]
      have hcount : 1 < l.count l[i] := by
        have hs : [l[i], l[i + 1]].Sublist l := by
          have h := List.drop_sublist i l
          rw [List.drop_eq_getElem_cons (by omega), List.drop_eq_getElem_cons hj] at h
          exact (((List.nil_sublist _).cons_cons _).cons_cons _).trans h
        have := hs.count_le l[i]
        simp [heq] at this
        omega
      omega
    · exact (List.mem_erase_of_ne heq).mpr (List.getElem_mem _)
  rw [List.length_erase_of_mem hmem, h1]
  omega

/-- The loop of `RoutingTable::_mergeBuckets`; its counter is `i` before the increment at its
top. -/
def mergeLoop (now : UInt64) (self : RoutingTable) (i : Int) : RoutingTable :=
  if i + 1 < 1 then mergeLoop now self (i + 1)
  else if h : (i + 1).toNat < self.buckets.length then
    let b1 := self.buckets[(i + 1).toNat - 1]
    let b2 := self.buckets[(i + 1).toNat]
    if b1.pfx.isSiblingOf b2.pfx && effectiveSize b1 + effectiveSize b2 ≤
      MAX_ENTRIES_PER_BUCKET then
      mergeLoop now (self.modify [b1, b2] [self.mergedBucket now b1 b2]) (i + 1 - 2)
    else mergeLoop now self (i + 1)
  else self
termination_by (2 * self.buckets.length + 2 - i).toNat
decreasing_by
  · omega
  · have hlen := length_erase_pair (l := self.buckets) (j := (i + 1).toNat) (by omega) h
    simp only [modify, length_sortBuckets, List.length_append, hlen, List.length_cons,
      List.length_nil]
    omega
  · omega

/-- `RoutingTable::_mergeBuckets`. -/
def mergeBuckets (self : RoutingTable) (now : UInt64) : RoutingTable := mergeLoop now self 0

/-- `RoutingTable::load`, given what `KBucketEntry::fromJson` makes of each stored node; `none` is a
node that it throws on, which ends the loop. -/
def load (self : RoutingTable) (now : UInt64) : List (Option KBucketEntry) → Option RoutingTable
  | [] => some self
  | none :: _ => some self
  | some entry :: nodes =>
    match self.put now entry with
    | some self => self.load now nodes
    | none => none

/-- An operation on the table, with the time at which it runs. -/
inductive Op where
  | put (now : UInt64) (entry : KBucketEntry)
  | remove (now : UInt64) (id : Id)
  | onSend (now : UInt64) (id : Id)
  | onTimeout (now : UInt64) (id : Id)
  | mergeBuckets (now : UInt64)
  | load (now : UInt64) (nodes : List (Option KBucketEntry))

/-- One operation. -/
def step (self : RoutingTable) : Op → Option RoutingTable
  | .put now entry => self.put now entry
  | .remove now id => some (self.remove now id)
  | .onSend now id => some (self.onSend now id)
  | .onTimeout now id => some (self.onTimeout now id)
  | .mergeBuckets now => some (self.mergeBuckets now)
  | .load now nodes => self.load now nodes

/-- A sequence of operations. -/
def run (self : RoutingTable) (ops : List Op) : Option RoutingTable := ops.foldlM step self

end RoutingTable

end Boson
