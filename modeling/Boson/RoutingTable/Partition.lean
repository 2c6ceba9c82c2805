import Boson.RoutingTable
import Boson.Lib.Cover
import Mathlib.Data.List.Pairwise

/-!
# The buckets partition the id space

Over every sequence of operations from the initial table (`run_partition`): the buckets are sorted
by prefix, every id is covered by exactly one bucket, exactly one bucket is the home bucket and it
covers the local id, and every entry lies in the bucket that covers its id, so no id occurs twice.

* `Inv`: the invariant. The buckets are an exact cover (`Cover.ExactCover`) in order, and each
  bucket is well formed (`BucketOk`).
* `indexOf_spec`: the binary search finds the last bucket that starts at or before the id, which is
  the bucket that covers it (`getBucket_spec`).
* A change inside one bucket keeps `Inv` if it keeps the prefix and takes in only ids that the
  bucket covers (`Inv.modifyBucket`); a replacement of buckets keeps it if the new buckets cover the
  same ids (`Inv.modify`). Split and merge are such replacements.
* The split loop of `put` ends since each split makes the bucket of the new entry one bit deeper
  (`Inv.putLoop`).
-/

namespace Boson

open Cover

namespace RoutingTable

/-- The bucket covers the id. -/
def covers (b : KBucket) (x : Id) : Bool := b.pfx.isPrefixOf x

/-- A bucket in itself: its home flag tells if it covers the local id, its ids are distinct and it
covers them. -/
structure BucketOk (localId : Id) (b : KBucket) : Prop where
  home : b.homeBucket = b.pfx.isPrefixOf localId
  nodup : b.ids.Nodup
  covered : ∀ x ∈ b.ids, b.pfx.isPrefixOf x = true

/-- The invariant of the table. -/
structure Inv (T : RoutingTable) : Prop where
  cover : ExactCover covers T.buckets
  sorted : T.buckets.Pairwise fun a b => a.pfx.id ≤ b.pfx.id
  ok : ∀ b ∈ T.buckets, BucketOk T.localId b

/-- What the invariant says about the table as a whole. -/
structure Partition (T : RoutingTable) : Prop where
  /-- The bucket list is strictly sorted by prefix. -/
  sorted : T.buckets.Pairwise fun a b => a.pfx.id < b.pfx.id
  /-- Every id is covered by exactly one bucket. -/
  covered : ∀ x : Id, T.buckets.countP (fun b => b.pfx.isPrefixOf x) = 1
  /-- Exactly one bucket is flagged as home bucket, and it covers the local id. -/
  home : T.buckets.countP (·.homeBucket) = 1 ∧
    ∀ b ∈ T.buckets, b.homeBucket = true → b.pfx.isPrefixOf T.localId = true
  /-- Every entry is in a bucket that covers its id. -/
  entries : ∀ b ∈ T.buckets, ∀ e ∈ b.entries, b.pfx.isPrefixOf e.nodeId = true
  /-- No id occurs twice in the table. -/
  nodup : (T.allEntries.map (·.nodeId)).Nodup

variable {T : RoutingTable} {now : UInt64} {id : Id} {e : KBucketEntry}

theorem init_inv (localId : Id) : Inv (init localId) where
  cover x := by simp [init, covers]
  sorted := by simp [init]
  ok := by
    intro b hb
    simp only [init, List.mem_singleton] at hb
    subst hb
    exact ⟨by simp, List.nodup_nil, by simp [KBucket.ids]⟩

theorem Inv.sorted_lt (h : Inv T) : T.buckets.Pairwise fun a b => a.pfx.id < b.pfx.id :=
  h.cover.sorted_lt (fun b _ => b.pfx.isPrefixOf_id) h.sorted

theorem flatMap_ids (l : List KBucket) :
    (l.flatMap (·.entries)).map (·.nodeId) = l.flatMap KBucket.ids := by
  simp only [List.map_flatMap]
  rfl

theorem Inv.partition (h : Inv T) : Partition T where
  sorted := h.sorted_lt
  covered := h.cover
  home := by
    constructor
    · rw [← h.cover T.localId]
      refine List.countP_congr fun b hb => ?_
      rw [(h.ok b hb).home]
      rfl
    · intro b hb hhome
      rw [← (h.ok b hb).home]
      exact hhome
  entries b hb e he := (h.ok b hb).covered _ (List.mem_map_of_mem he)
  nodup := by
    rw [allEntries, flatMap_ids, List.nodup_flatMap]
    refine ⟨fun b hb => (h.ok b hb).nodup, ?_⟩
    rw [List.pairwise_iff_getElem]
    intro i j hi hj hij x hxi hxj
    have hci := (h.ok _ (List.getElem_mem hi)).covered x hxi
    have hcj := (h.ok _ (List.getElem_mem hj)).covered x hxj
    exact absurd (h.cover.getElem_inj hi hj hci hcj) (by omega)

/-! ## The bucket of an id -/

theorem listGet_natCast {l : List KBucket} {i : Nat} (hi : i < l.length) : listGet l i = l[i] := by
  simp [listGet, List.getD_eq_getElem?_getD, hi]

/-- The middle bucket, and what the comparison says of it. -/
theorem exists_middle (l : List KBucket) (id : Id) {mid : Int} (h0 : 0 ≤ mid)
    (hl : mid < l.length) :
    ∃ (m : Nat) (hm : m < l.length), mid = m ∧
      (0 < id.compareTo (listGet l mid).pfx.id → l[m].pfx.id < id) ∧
      (id.compareTo (listGet l mid).pfx.id < 0 → id < l[m].pfx.id) ∧
      (id.compareTo (listGet l mid).pfx.id = 0 → id = l[m].pfx.id) := by
  obtain ⟨m, rfl⟩ := Int.eq_ofNat_of_zero_le h0
  have hm : m < l.length := by omega
  rw [listGet_natCast hm]
  refine ⟨m, hm, rfl, fun hgt => ?_, fun hlt => hlt, Id.compareTo_zero_iff.mp⟩
  show Id.compareTo _ _ < 0
  rw [Id.compareTo_swap (a := id)]
  omega

theorem sorted_mono {l : List KBucket} (hs : l.Pairwise fun a b => a.pfx.id < b.pfx.id) {i j : Nat}
    (hij : i ≤ j) (hj : j < l.length) : l[i].pfx.id ≤ l[j].pfx.id := by
  rcases Nat.lt_or_eq_of_le hij with hlt | rfl
  · exact (List.pairwise_iff_getElem.mp hs i j (by omega) hj hlt).le
  · exact le_rfl

/-- The binary search, from any state of its loop: all buckets below `low` start at or before `id`,
all above `high` after it. -/
theorem indexOfLoop_spec {l : List KBucket} (hs : l.Pairwise fun a b => a.pfx.id < b.pfx.id)
    (id : Id) (low high mid cmp : Int) (h0 : 0 ≤ low) (hlh : low ≤ high + 1) (hh : high < l.length)
    (hlo : ∀ j (hj : j < l.length), (j : Int) < low → l[j].pfx.id ≤ id)
    (hhi : ∀ j (hj : j < l.length), high < j → id < l[j].pfx.id)
    (hm : low ≤ high ∨ (cmp < 0 ∧ mid = high + 1) ∨ (¬ cmp < 0 ∧ mid = high)) :
    low - 1 ≤ indexOfLoop l id low high mid cmp ∧ indexOfLoop l id low high mid cmp ≤ high ∧
      ∀ j (hj : j < l.length), (j : Int) ≤ indexOfLoop l id low high mid cmp ↔
        l[j].pfx.id ≤ id := by
  fun_induction indexOfLoop l id low high mid cmp with
  | case1 low high _ _ hle mid cmp hgt ih =>
    -- the middle bucket starts before `id`, so every bucket up to it does
    obtain ⟨m, hml, hm, hlt, -, -⟩ := exists_middle l id (show 0 ≤ mid by omega) (by omega)
    have hlo' : ∀ j (hj : j < l.length), (j : Int) < mid + 1 → l[j].pfx.id ≤ id := fun j hj hjm =>
      (sorted_mono hs (by omega) hml).trans (hlt hgt).le
    obtain ⟨h1, h2, h3⟩ := ih (by omega) (by omega) hh hlo' hhi (by omega)
    exact ⟨by omega, h2, h3⟩
  | case2 low high _ _ hle mid cmp hgt hlt ih =>
    -- the middle bucket starts after `id`, so every bucket from it on does
    obtain ⟨m, hml, hm, -, hafter, -⟩ := exists_middle l id (show 0 ≤ mid by omega) (by omega)
    have hhi' : ∀ j (hj : j < l.length), mid - 1 < j → id < l[j].pfx.id := fun j hj hjm =>
      (hafter hlt).trans_le (sorted_mono hs (by omega) hj)
    obtain ⟨h1, h2, h3⟩ := ih h0 (by omega) (by omega) hlo hhi' (by omega)
    exact ⟨h1, by omega, h3⟩
  | case3 low high _ _ hle mid cmp hgt hlt =>
    obtain ⟨m, hml, hm, -, -, heq⟩ := exists_middle l id (show 0 ≤ mid by omega) (by omega)
    refine ⟨by omega, by omega, fun j hj => ?_⟩
    rw [heq (show cmp = 0 by omega)]
    by_cases hjm : j ≤ m
    · exact iff_of_true (by omega) (sorted_mono hs hjm hml)
    · refine iff_of_false (by omega) (not_le.mpr ?_)
      exact List.pairwise_iff_getElem.mp hs m j hml hj (by omega)
  | case4 low high mid cmp hle hneg | case5 low high mid cmp hle hneg =>
    refine ⟨by omega, by omega, fun j hj => ?_⟩
    by_cases hjl : (j : Int) < low
    · exact iff_of_true (by omega) (hlo j hj hjl)
    · exact iff_of_false (by omega) (not_le.mpr (hhi j hj (by omega)))

/-- `indexOf` gives the last bucket that starts at or before `id`. -/
theorem indexOf_spec {l : List KBucket} (hs : l.Pairwise fun a b => a.pfx.id < b.pfx.id)
    (hne : l ≠ []) (hex : ∃ b ∈ l, b.pfx.id ≤ id) :
    ∃ i : Nat, indexOf l id = i ∧ i < l.length ∧
      ∀ j (hj : j < l.length), j ≤ i ↔ l[j].pfx.id ≤ id := by
  have hpos : 0 < l.length := List.length_pos_iff.mpr hne
  obtain ⟨h1, h2, h3⟩ := indexOfLoop_spec hs id 0 ((l.length : Int) - 1) 0 0 (by omega)
    (by omega) (by omega) (fun j hj hlt => by omega) (fun j hj hgt => by omega) (by omega)
  obtain ⟨b, hb, hle⟩ := hex
  obtain ⟨k, hk, rfl⟩ := List.getElem_of_mem hb
  have hk' := (h3 k hk).mpr hle
  obtain ⟨i, hi⟩ := Int.eq_ofNat_of_zero_le (show 0 ≤ indexOf l id by unfold indexOf; omega)
  have hi' : indexOfLoop l id 0 ((l.length : Int) - 1) 0 0 = i := hi
  refine ⟨i, hi, by omega, fun j hj => ?_⟩
  rw [← h3 j hj, hi']
  omega

/-- In a sorted list of buckets that partition the id space, the binary search finds the bucket that
covers the id. -/
theorem indexOf_covers {l : List KBucket} (hs : l.Pairwise fun a b => a.pfx.id < b.pfx.id)
    (hc : ExactCover covers l) (id : Id) :
    ∃ (i : Nat) (hi : i < l.length), indexOf l id = i ∧ l[i].pfx.isPrefixOf id = true := by
  obtain ⟨b, hb, hbx⟩ := hc.exists_mem id
  obtain ⟨i, hi, hlen, hspec⟩ := indexOf_spec hs (List.ne_nil_of_mem hb)
    ⟨b, hb, Prefix.id_le_of_isPrefixOf hbx⟩
  refine ⟨i, hlen, hi, ?_⟩
  have hs' := List.pairwise_iff_getElem.mp hs
  change covers l[i] id = true
  refine hc.cov_of_last_le (fun b => b.pfx.id) (fun b _ => b.pfx.isPrefixOf_id)
    (fun b _ x => Prefix.id_le_of_isPrefixOf)
    (fun b _ x y => Prefix.isPrefixOf_of_between) hlen ((hspec i hlen).mp le_rfl) fun j hj hle => ?_
  rcases Nat.lt_or_ge j i with hlt | hge
  · exact (hs' j i hj hlen hlt).le
  · obtain rfl : j = i := Nat.le_antisymm ((hspec j hj).mpr hle) hge
    exact le_rfl

/-- `indexOf` gives an index within the list, and the bucket there is the only one that covers the
id. -/
theorem indexOf_unique (l : List KBucket) (hne : l ≠ [])
    (hs : l.Pairwise fun a b => a.pfx.id < b.pfx.id)
    (hc : ∀ x, l.countP (fun b => b.pfx.isPrefixOf x) = 1) (id : Id) :
    ∃ (i : Nat) (hi : i < l.length), indexOf l id = i ∧ l[i].pfx.isPrefixOf id = true ∧
      ∀ (j : Nat) (hj : j < l.length), l[j].pfx.isPrefixOf id = true → j = i := by
  have hcov : ExactCover covers l := hc
  have hpos : 0 < l.length := List.length_pos_iff.mpr hne
  obtain ⟨i, hi, hidx, hbi⟩ := indexOf_covers hs hcov id
  refine ⟨i, hi, hidx, hbi, ?_⟩
  intro j hj hbj
  exact hcov.getElem_inj hj hi hbj hbi

/-- The two halves of the id space. -/
def halves : List KBucket :=
  [{ pfx := Prefix.all.splitBranch false Prefix.isSplittable_all, homeBucket := true },
    { pfx := Prefix.all.splitBranch true Prefix.isSplittable_all, homeBucket := false }]

theorem halves_indexOf_maxId :
    ∃ (i : Nat) (hi : i < halves.length), indexOf halves Id.MAX_ID = i ∧
      halves[i].pfx.isPrefixOf Id.MAX_ID = true ∧
      ∀ (j : Nat) (hj : j < halves.length), halves[j].pfx.isPrefixOf Id.MAX_ID = true → j = i := by
  refine indexOf_unique halves (List.cons_ne_nil _ _) ?_ ?_ Id.MAX_ID
  · simp only [halves, List.pairwise_cons, List.mem_singleton, forall_eq, List.not_mem_nil,
      false_implies, implies_true, List.Pairwise.nil, and_true]
    decide
  · intro x
    simp only [halves, List.countP_cons, List.countP_nil, Prefix.isPrefixOf_splitBranch,
      Prefix.isPrefixOf_all, true_and]
    cases x.bit Prefix.all.len <;> rfl

/-- The bucket that the binary search finds covers the id. -/
theorem Inv.getBucket_spec (h : Inv T) (id : Id) :
    ∃ (i : Nat) (hi : i < T.buckets.length), indexOf T.buckets id = i ∧
      T.getBucket id = T.buckets[i] ∧ T.buckets[i].pfx.isPrefixOf id = true := by
  obtain ⟨i, hlen, hi, hcov⟩ := indexOf_covers h.sorted_lt h.cover id
  exact ⟨i, hlen, hi, by rw [getBucket, hi, listGet_natCast hlen], hcov⟩

theorem Inv.getBucket_mem (h : Inv T) (id : Id) : T.getBucket id ∈ T.buckets := by
  obtain ⟨i, hi, -, hget, -⟩ := h.getBucket_spec id
  rw [hget]
  exact List.getElem_mem hi

theorem Inv.getBucket_covers (h : Inv T) (id : Id) : (T.getBucket id).pfx.isPrefixOf id = true := by
  obtain ⟨i, hi, -, hget, hcov⟩ := h.getBucket_spec id
  rw [hget]
  exact hcov

/-- The bucket of an id is the only one that covers it. -/
theorem Inv.getBucket_eq (h : Inv T) {b : KBucket} (hb : b ∈ T.buckets)
    (hcov : b.pfx.isPrefixOf id = true) : T.getBucket id = b :=
  h.cover.eq_of_mem (h.getBucket_mem id) hb (h.getBucket_covers id) hcov

/-- The ids of the buckets follow the order of the buckets. -/
theorem Inv.lt_of_index (h : Inv T) {i j : Nat} (hij : i < j) (hj : j < T.buckets.length) {x y : Id}
    (hx : T.buckets[i].pfx.isPrefixOf x = true) (hy : T.buckets[j].pfx.isPrefixOf y = true) :
    x < y := by
  have hs := List.pairwise_iff_getElem.mp h.sorted_lt i j (hij.trans hj) hj hij
  by_contra hle
  have hyi : T.buckets[i].pfx.isPrefixOf y = true :=
    Prefix.isPrefixOf_of_between hx (hs.le.trans (Prefix.id_le_of_isPrefixOf hy)) (not_lt.mp hle)
  exact absurd (h.cover.getElem_inj (hij.trans hj) hj hyi hy) (by omega)

/-- `Inv` says no more than `Partition`. -/
theorem Partition.inv (h : Partition T) : Inv T where
  cover := h.covered
  sorted := h.sorted.imp le_of_lt
  ok b hb := by
    have hcov : ExactCover covers T.buckets := h.covered
    refine ⟨?_, ?_, ?_⟩
    · -- the home bucket covers the local id, and no other bucket does
      obtain ⟨b', hb', hhome⟩ := List.countP_pos_iff.mp (h.home.1 ▸ Nat.one_pos)
      cases hl : b.pfx.isPrefixOf T.localId
      · exact Bool.eq_false_iff.mpr fun hh => by simp [h.home.2 b hb hh] at hl
      · rwa [hcov.eq_of_mem hb hb' hl (h.home.2 b' hb' hhome)]
    · have hnd := h.nodup
      rw [allEntries, flatMap_ids, List.nodup_flatMap] at hnd
      exact hnd.1 b hb
    · intro x hx
      obtain ⟨e, he, rfl⟩ := List.mem_map.mp hx
      exact h.entries b hb e he

/-! ## Changes inside one bucket -/

/-- A bucket stays well formed if it takes in only ids that it covers. -/
theorem BucketOk.keeps {localId : Id} {b b' : KBucket} {new : Id → Prop} (h : BucketOk localId b)
    (hk : KBucket.Keeps b b' new) (hnew : ∀ x, new x → b.pfx.isPrefixOf x = true) :
    BucketOk localId b' where
  home := by rw [hk.home, hk.pfx]; exact h.home
  nodup := hk.nodup h.nodup
  covered x hx := by
    rw [hk.pfx]
    exact (hk.mem x hx).elim (h.covered x) (hnew x)

/-- Cover and order depend only on the prefixes. -/
theorem map_modify_pfx {l : List KBucket} {i : Nat} {f : KBucket → KBucket}
    (hf : ∀ hi : i < l.length, (f l[i]).pfx = l[i].pfx) :
    (l.modify i f).map (·.pfx) = l.map (·.pfx) := by
  apply List.ext_getElem
  · simp
  · intro j h1 h2
    simp only [List.getElem_map, List.getElem_modify]
    split
    · subst_vars
      exact hf _
    · rfl

/-- A change inside of a bucket that takes in only ids that the bucket covers. -/
theorem Inv.modifyAt (h : Inv T) {i : Nat} {f : KBucket → KBucket} {new : Id → Prop}
    (hf : ∀ hi : i < T.buckets.length, KBucket.Keeps T.buckets[i] (f T.buckets[i]) new)
    (hnew : ∀ hi : i < T.buckets.length, ∀ x, new x → T.buckets[i].pfx.isPrefixOf x = true) :
    Inv { T with buckets := T.buckets.modify i f } := by
  have hpfx : (T.buckets.modify i f).map (·.pfx) = T.buckets.map (·.pfx) :=
    map_modify_pfx fun hi => (hf hi).pfx
  refine ⟨fun x => ?_, ?_, fun b hbm => ?_⟩
  · have hc := h.cover x
    have hcount : ∀ l : List KBucket,
        l.countP (covers · x) = (l.map (·.pfx)).countP (·.isPrefixOf x) := by
      intro l
      rw [List.countP_map]
      rfl
    rw [hcount] at hc ⊢
    rw [hpfx]
    exact hc
  · have hs : (T.buckets.map (·.pfx)).Pairwise fun p q => p.id ≤ q.id :=
      List.pairwise_map.mpr h.sorted
    rw [← hpfx, List.pairwise_map] at hs
    exact hs
  · obtain ⟨j, hj, rfl⟩ := List.getElem_of_mem hbm
    have hj' : j < T.buckets.length := by simpa using hj
    rw [List.getElem_modify]
    split
    · subst_vars
      exact (h.ok _ (List.getElem_mem hj')).keeps (hf hj') (hnew hj')
    · exact h.ok _ (List.getElem_mem hj')

theorem Inv.modifyBucket (h : Inv T) (id : Id) {f : KBucket → KBucket} {new : Id → Prop}
    (hf : KBucket.Keeps (T.getBucket id) (f (T.getBucket id)) new)
    (hnew : ∀ x, new x → (T.getBucket id).pfx.isPrefixOf x = true) : Inv (T.modifyBucket id f) := by
  obtain ⟨i, hi, hidx, hget, -⟩ := h.getBucket_spec id
  rw [hget] at hf hnew
  have hb : T.modifyBucket id f = { T with buckets := T.buckets.modify i f } := by
    simp [RoutingTable.modifyBucket, hidx]
  rw [hb]
  exact h.modifyAt (fun _ => hf) fun _ => hnew

theorem remove_inv (h : Inv T) : Inv (T.remove now id) := by
  unfold remove
  split
  · exact h.modifyBucket id (KBucket.removeIfBad_keeps _ now _ true fun _ => False) (by simp)
  · exact h

theorem onTimeout_inv (h : Inv T) : Inv (T.onTimeout now id) :=
  h.modifyBucket id (KBucket.onTimeout_keeps _ now id fun _ => False) (by simp)

theorem onSend_inv (h : Inv T) : Inv (T.onSend now id) :=
  h.modifyBucket id (KBucket.onSend_keeps _ now id fun _ => False) (by simp)

theorem putBucket_inv (h : Inv T) : Inv (T.modifyBucket e.nodeId (·.put now e)) := by
  refine h.modifyBucket e.nodeId (KBucket.put_keeps _ now e) ?_
  rintro x rfl
  exact h.getBucket_covers e.nodeId

/-! ## Replacement of buckets -/

theorem sortBuckets_perm (l : List KBucket) : (sortBuckets l).Perm l := List.perm_insertionSort _ l

theorem sortBuckets_sorted (l : List KBucket) :
    (sortBuckets l).Pairwise fun a b => a.pfx.id ≤ b.pfx.id := by
  have : Std.Total fun a b : KBucket => a.pfx.id ≤ b.pfx.id := ⟨fun a b => le_total _ _⟩
  have : IsTrans KBucket fun a b => a.pfx.id ≤ b.pfx.id := ⟨fun _ _ _ => le_trans⟩
  exact List.pairwise_insertionSort _ l

/-- Buckets may be replaced by well-formed buckets that cover the same ids. -/
theorem Inv.modify (h : Inv T) {out into : List KBucket}
    (hperm : T.buckets.Perm (out ++ listRemoveAll T.buckets out))
    (heq : ∀ x, into.countP (covers · x) = out.countP (covers · x))
    (hok : ∀ b ∈ into, BucketOk T.localId b) : Inv (T.modify out into) where
  cover := (h.cover.replace hperm heq).perm (sortBuckets_perm _).symm
  sorted := sortBuckets_sorted _
  ok b hb := by
    rcases List.mem_append.mp ((sortBuckets_perm _).mem_iff.mp hb) with hb | hb
    · exact h.ok b (hperm.mem_iff.mpr (List.mem_append_right _ hb))
    · exact hok b hb

theorem perm_removeAll_one {l : List KBucket} {b : KBucket} (hb : b ∈ l) :
    l.Perm ([b] ++ listRemoveAll l [b]) := List.perm_cons_erase hb

theorem perm_removeAll_two {l : List KBucket} {a b : KBucket} (ha : a ∈ l) (hb : b ∈ l)
    (hne : a ≠ b) : l.Perm ([a, b] ++ listRemoveAll l [a, b]) := by
  have hb' : b ∈ l.erase a := (List.mem_erase_of_ne hne.symm).mpr hb
  exact (List.perm_cons_erase ha).trans ((List.perm_cons_erase hb').cons a)

/-- Putting entries into a bucket that covers them keeps it well formed. -/
theorem foldl_put_ok (now : UInt64) {localId : Id} {b : KBucket} (h : BucketOk localId b)
    (entries : List KBucketEntry) (hcov : ∀ x ∈ entries, b.pfx.isPrefixOf x.nodeId = true) :
    BucketOk localId (entries.foldl (fun b entry => b.put now entry) b) ∧
      (entries.foldl (fun b entry => b.put now entry) b).pfx = b.pfx := by
  induction entries generalizing b with
  | nil => exact ⟨h, rfl⟩
  | cons x xs ih =>
    have hk := KBucket.put_keeps b now x
    have hx := hcov x List.mem_cons_self
    obtain ⟨h1, h2⟩ := ih (h.keeps hk (by rintro y rfl; exact hx)) fun y hy => by
      rw [hk.pfx]
      exact hcov y (List.mem_cons_of_mem _ hy)
    exact ⟨h1, h2.trans hk.pfx⟩

/-- The two halves of a split: each is well formed and keeps its prefix. -/
theorem splitEntries_ok (now : UInt64) {localId : Id} {l h : KBucket} (hl : BucketOk localId l)
    (hh : BucketOk localId h) (entries : List KBucketEntry)
    (hcov : ∀ x ∈ entries, l.pfx.isPrefixOf x.nodeId = true ∨ h.pfx.isPrefixOf x.nodeId = true) :
    BucketOk localId (splitEntries now entries l h).1 ∧
      BucketOk localId (splitEntries now entries l h).2 ∧
      (splitEntries now entries l h).1.pfx = l.pfx ∧
      (splitEntries now entries l h).2.pfx = h.pfx := by
  induction entries generalizing l h with
  | nil => exact ⟨hl, hh, rfl, rfl⟩
  | cons x xs ih =>
    have hx := hcov x List.mem_cons_self
    have hxs := fun y hy => hcov y (List.mem_cons_of_mem x hy)
    simp only [splitEntries, List.foldl_cons] at ih ⊢
    by_cases hlx : l.pfx.isPrefixOf x.nodeId = true
    · have hk := KBucket.put_keeps l now x
      simp only [hlx, ↓reduceIte]
      obtain ⟨h1, h2, h3, h4⟩ := ih (hl.keeps hk (by rintro y rfl; exact hlx)) hh
        fun y hy => by rw [hk.pfx]; exact hxs y hy
      exact ⟨h1, h2, h3.trans hk.pfx, h4⟩
    · have hk := KBucket.put_keeps h now x
      have hhx := hx.resolve_left hlx
      simp only [hlx, Bool.false_eq_true, ↓reduceIte]
      obtain ⟨h1, h2, h3, h4⟩ := ih hl (hh.keeps hk (by rintro y rfl; exact hhx))
        fun y hy => by rw [hk.pfx]; exact hxs y hy
      exact ⟨h1, h2, h3, h4.trans hk.pfx⟩

theorem bucketOk_empty (localId : Id) (p : Prefix) :
    BucketOk localId { pfx := p, homeBucket := p.isPrefixOf localId } :=
  ⟨rfl, List.nodup_nil, by simp [KBucket.ids]⟩

/-- A split keeps the invariant, and puts the two branches of the prefix into the table. -/
theorem split_inv (now : UInt64) (h : Inv T) {b : KBucket} (hb : b ∈ T.buckets)
    (hs : b.pfx.isSplittable = true) :
    Inv (T.split now b hs) ∧
      ∀ high, ∃ b' ∈ (T.split now b hs).buckets, b'.pfx = b.pfx.splitBranch high hs := by
  have hok := h.ok b hb
  obtain ⟨hl, hh, hlp, hhp⟩ := splitEntries_ok now
    (bucketOk_empty T.localId (b.pfx.splitBranch false hs))
    (bucketOk_empty T.localId (b.pfx.splitBranch true hs)) b.entries (by
      intro x hx
      have hcov := hok.covered _ (List.mem_map_of_mem hx)
      simp only [Prefix.isPrefixOf_splitBranch, hcov, true_and]
      cases x.nodeId.bit b.pfx.len <;> simp)
  refine ⟨h.modify (perm_removeAll_one hb) (fun x => ?_) ?_, fun high => ?_⟩
  · simp only [List.countP_cons, List.countP_nil, covers, isHomeBucket, hlp, hhp, Nat.zero_add]
    -- an id of the prefix is in exactly one branch, by its next bit
    have hf := Prefix.isPrefixOf_splitBranch (x := x) (b := false) hs
    have ht := Prefix.isPrefixOf_splitBranch (x := x) (b := true) hs
    by_cases hx : b.pfx.isPrefixOf x = true
    · cases hbit : x.bit b.pfx.len <;> simp_all
    · simp_all
  · intro b' hb'
    simp only [List.mem_cons, List.not_mem_nil, or_false] at hb'
    rcases hb' with rfl | rfl
    · exact hl
    · exact hh
  · cases high with
    | false =>
      refine ⟨_, (sortBuckets_perm _).mem_iff.mpr (List.mem_append_right _ List.mem_cons_self), ?_⟩
      exact hlp
    | true =>
      refine ⟨_, (sortBuckets_perm _).mem_iff.mpr
        (List.mem_append_right _ (List.mem_cons_of_mem _ List.mem_cons_self)), ?_⟩
      exact hhp

/-- Merging two different siblings keeps the invariant. -/
theorem merge_inv (h : Inv T) {b1 b2 : KBucket} (h1 : b1 ∈ T.buckets) (h2 : b2 ∈ T.buckets)
    (hne : b1.pfx ≠ b2.pfx) (hs : b1.pfx.isSiblingOf b2.pfx = true) :
    Inv (T.modify [b1, b2] [T.mergedBucket now b1 b2]) := by
  have hsib := fun x => Prefix.isPrefixOf_sibling (x := x) hs hne
  obtain ⟨hok, hpfx⟩ := foldl_put_ok now (bucketOk_empty T.localId b1.pfx.getParent)
    (b1.entries ++ b2.entries) (by
      intro x hx
      rw [(hsib x.nodeId).1]
      rcases List.mem_append.mp hx with hx | hx
      · exact .inl ((h.ok b1 h1).covered _ (List.mem_map_of_mem hx))
      · exact .inr ((h.ok b2 h2).covered _ (List.mem_map_of_mem hx)))
  refine h.modify (perm_removeAll_two h1 h2 fun he => hne (he ▸ rfl)) (fun x => ?_) ?_
  · have hp : (T.mergedBucket now b1 b2).pfx = b1.pfx.getParent := hpfx
    obtain ⟨hx, hnot⟩ := hsib x
    simp only [List.countP_cons, List.countP_nil, covers, hp, Nat.zero_add]
    by_cases hx1 : b1.pfx.isPrefixOf x = true <;> by_cases hx2 : b2.pfx.isPrefixOf x = true <;>
      simp_all
  · intro b hb
    rw [List.mem_singleton.mp hb]
    exact hok

/-! ## The loops -/

/-- The split loop: each split makes the bucket of the entry one bit deeper, so it ends. -/
theorem Inv.putLoop (h : Inv T) (fuel : Nat)
    (hfuel : 256 < fuel + (T.getBucket e.nodeId).pfx.len) :
    ∃ T', RoutingTable.putLoop now e fuel T = some T' ∧ Inv T' := by
  induction fuel generalizing T with
  | zero =>
    have := (T.getBucket e.nodeId).pfx.len_le
    omega
  | succ fuel ih =>
    unfold RoutingTable.putLoop
    simp only
    split
    · rename_i hsplit
      have hs := isSplittable_of_needsSplit hsplit
      obtain ⟨hinv, hbr⟩ := split_inv now h (h.getBucket_mem e.nodeId) hs
      obtain ⟨b', hb', hp'⟩ := hbr true
      -- the new entry falls into the high branch
      have hcov : b'.pfx.isPrefixOf e.nodeId = true := by
        rw [hp']
        unfold needsSplit at hsplit
        rw [dif_pos hs] at hsplit
        split at hsplit
        · cases hsplit
        · exact hsplit
      refine ih hinv ?_
      rw [hinv.getBucket_eq hb' hcov, hp', Prefix.splitBranch_len]
      omega
    · exact ⟨_, rfl, putBucket_inv h⟩

theorem put_inv (now : UInt64) (e : KBucketEntry) (h : Inv T) : ∃ T',
    T.put now e = some T' ∧ Inv T' :=
  h.putLoop 257 (by omega)

theorem mergeLoop_inv (h : Inv T) (i : Int) : Inv (mergeLoop now T i) := by
  fun_induction mergeLoop now T i with
  | case1 T i _ ih => exact ih h
  | case2 T i hi hlt b1 b2 hmerge ih =>
    simp only [Bool.and_eq_true] at hmerge
    refine ih (merge_inv h (List.getElem_mem _) (List.getElem_mem _) ?_ hmerge.1)
    -- two positions of the sorted list have different prefixes
    have hs := List.pairwise_iff_getElem.mp h.sorted_lt ((i + 1).toNat - 1) (i + 1).toNat (by omega)
      hlt (by omega)
    exact fun he => absurd (congrArg Prefix.id he) (ne_of_lt hs)
  | case3 T i _ hlt b1 b2 _ ih => exact ih h
  | case4 T i _ _ => exact h

theorem load_inv (h : Inv T) (nodes : List (Option KBucketEntry)) :
    ∃ T', T.load now nodes = some T' ∧ Inv T' := by
  induction nodes generalizing T with
  | nil => exact ⟨T, rfl, h⟩
  | cons node nodes ih =>
    cases node with
    | none => exact ⟨T, rfl, h⟩
    | some entry =>
      obtain ⟨T', hput, hinv⟩ := put_inv now entry h
      simpa only [load, hput] using ih hinv

/-- Every operation ends and keeps the invariant. -/
theorem step_inv (h : Inv T) (op : Op) : ∃ T', T.step op = some T' ∧ Inv T' := by
  cases op with
  | put now entry => exact put_inv now entry h
  | remove now id => exact ⟨_, rfl, remove_inv h⟩
  | onSend now id => exact ⟨_, rfl, onSend_inv h⟩
  | onTimeout now id => exact ⟨_, rfl, onTimeout_inv h⟩
  | mergeBuckets now => exact ⟨_, rfl, mergeLoop_inv h 0⟩
  | load now nodes => exact load_inv h nodes

theorem run_inv (h : Inv T) (ops : List Op) : ∃ T', T.run ops = some T' ∧ Inv T' := by
  induction ops generalizing T with
  | nil => exact ⟨T, rfl, h⟩
  | cons op ops ih =>
    obtain ⟨T₁, h₁, hinv₁⟩ := step_inv h op
    obtain ⟨T₂, h₂, hinv₂⟩ := ih hinv₁
    refine ⟨T₂, ?_, hinv₂⟩
    simpa [run, List.foldlM_cons, h₁] using h₂

/-- After any sequence of operations from the initial table, the buckets partition the id space. -/
theorem run_partition (localId : Id) (ops : List Op) :
    ∃ T, (init localId).run ops = some T ∧ Partition T := by
  obtain ⟨T, hrun, hinv⟩ := run_inv (init_inv localId) ops
  exact ⟨T, hrun, hinv.partition⟩

end RoutingTable

end Boson
