import Boson.Lib.Runs
import Boson.RoutingTable.Contents

/-!
# Runs of one bucket

The operations on a bucket (`Op`), called with any entries and ids, at any times.

* `run_tidy`: the bucket has room for its entries, they are reachable, and no two of them have the
  same id or the same address.
* `put_result`: what `put` can do to such a bucket.
* `run_ageOrder_iff`: the entries stay in the order of their creation exactly if no entry takes the
  news of one that was created before another entry further ahead in the list. An update that
  inserts puts the list in order; a merge sets the time of creation back and leaves the entry where
  it is.
-/

namespace Boson

namespace KBucket

/-- A call of an operation. An entry is removed by its pointer: `held` tells if `toRemove` is the
entry of the list, and not another one, which may have the same fields. -/
inductive Op where
  | put (now : UInt64) (newEntry : KBucketEntry)
  | removeIfBad (now : UInt64) (toRemove : KBucketEntry) (force held : Bool)
  | refresh (toRefresh : KBucketEntry)
  | onTimeout (now : UInt64) (id : Id)
  | onSend (now : UInt64) (id : Id)

/-- One call. -/
def step (self : KBucket) : Op → KBucket
  | .put now newEntry => self.put now newEntry
  | .removeIfBad now toRemove force held =>
    if held then self.removeIfBad now toRemove force else self
  | .refresh toRefresh => self.refresh toRefresh
  | .onTimeout now id => self.onTimeout now id
  | .onSend now id => self.onSend now id

/-- A sequence of calls. -/
def run (self : KBucket) (ops : List Op) : KBucket := ops.foldl step self

/-- A new bucket. -/
def new (pfx : Prefix) (homeBucket : Bool) : KBucket := { pfx := pfx, homeBucket := homeBucket }

variable {b : KBucket} {now : UInt64} {e : KBucketEntry}

@[simp] theorem run_concat (b : KBucket) (ops : List Op) (op : Op) : b.run (ops ++ [op]) =
    (b.run ops).step op := by
  simp [run]

theorem Tidy.step (h : b.Tidy) (op : Op) : (b.step op).Tidy := by
  cases op with
  | put now newEntry => exact h.put now newEntry
  | removeIfBad now toRemove force held =>
    cases held with
    | false => exact h
    | true => exact h.removeIfBad now toRemove force
  | refresh toRefresh => exact h.refresh toRefresh
  | onTimeout now id => exact h.onTimeout now id
  | onSend now id => exact h.onSend now id

theorem Tidy.run (h : b.Tidy) (ops : List Op) : (b.run ops).Tidy := by
  induction ops using List.reverseRecOn with
  | nil => exact h
  | append_singleton ops op ih =>
    rw [run_concat]
    exact ih.step op

/-- After any calls on a new bucket it holds at most 8 entries, which are reachable, and of which no
two have the same id or the same address. -/
theorem run_tidy (pfx : Prefix) (homeBucket : Bool) (ops : List Op) :
    ((new pfx homeBucket).run ops).entries.length ≤ MAX_ENTRIES_PER_BUCKET ∧
      (∀ x ∈ ((new pfx homeBucket).run ops).entries, x.reachable = true) ∧
      ((new pfx homeBucket).run ops).entries.Pairwise fun x y => x.nodeId ≠ y.nodeId ∧
        x.sockaddr ≠ y.sockaddr := by
  have htidy : ((new pfx homeBucket).run ops).Tidy := (Tidy.empty pfx homeBucket).run ops
  refine ⟨htidy.room, htidy.reachable, htidy.apart.imp fun hxy => ?_⟩
  exact NodeInfo.not_matches_iff.mp hxy

/-! ## What `put` can do -/

/-- The result of `put`: the entry is merged into one that is the same node, ignored, added, or put
in the place of an entry that is bad, or the last one and younger. -/
inductive PutResult (now : UInt64) (e : KBucketEntry) (b : KBucket) : KBucket → Prop where
  | merged (pre : List KBucketEntry) (x : KBucketEntry) (post : List KBucketEntry) :
      b.entries = pre ++ x :: post → x.equals e.toNodeInfo = true →
        PutResult now e b { b with entries := pre ++ x.merge e :: post }
  | ignored : (∀ x ∈ b.entries, x.equals e.toNodeInfo = false) → PutResult now e b b
  | inserted : (∀ x ∈ b.entries, x.matches e.toNodeInfo = false) → e.reachable = true →
      b.entries.length < MAX_ENTRIES_PER_BUCKET → PutResult now e b (b.update none (some e))
  | replaced (r : KBucketEntry) : (∀ x ∈ b.entries, x.matches e.toNodeInfo = false) →
      e.reachable = true →
      r ∈ b.entries → r.needsReplacement now = true ∨
        b.entries.getLast? = some r ∧ e.created < r.created →
        PutResult now e b (b.update (some r) (some e))

/-- The first element with a property, changed in place. -/
theorem modify_findIdx {l : List KBucketEntry} {p : KBucketEntry → Bool} {i : Nat}
    (h : l.findIdx? p = some i) :
    ∃ pre x post, l = pre ++ x :: post ∧ p x = true ∧ (∀ y ∈ pre, p y = false) ∧
      ∀ f, l.modify i f = pre ++ f x :: post := by
  obtain ⟨hi, hp, hfirst⟩ := List.findIdx?_eq_some_iff_getElem.mp h
  refine ⟨l.take i, l[i], l.drop (i + 1), ?_, hp, ?_, fun f => List.modify_eq_take_cons_drop hi⟩
  · rw [← List.drop_eq_getElem_cons hi, List.take_append_drop]
  · intro y hy
    obtain ⟨j, hj, rfl⟩ := List.mem_take_iff_getElem.mp hy
    simpa using hfirst j (by omega)

theorem equals_matches {x y : NodeInfo} (h : x.equals y = true) : x.matches y = true := by
  simp only [NodeInfo.equals, Bool.and_eq_true] at h
  simp [NodeInfo.matches, h.1]

/-- In a tidy bucket no other entry matches one that is the same node. -/
theorem Tidy.eq_of_equals (h : b.Tidy) {x y : KBucketEntry} (hx : x ∈ b.entries)
    (hy : y ∈ b.entries)
    (hxe : x.matches e.toNodeInfo = true) (hye : y.equals e.toNodeInfo = true) : x = y := by
  by_contra hne
  have hsymm : Std.Symm fun x y : KBucketEntry => x.matches y.toNodeInfo = false :=
    ⟨fun x y hxy => (NodeInfo.matches_comm _ _).trans hxy⟩
  have hapart := NodeInfo.not_matches_iff.mp (h.apart.forall hx hy hne)
  simp only [NodeInfo.equals, Bool.and_eq_true, beq_iff_eq] at hye
  simp only [NodeInfo.matches, Bool.or_eq_true, beq_iff_eq] at hxe
  obtain hid | haddr := hxe
  · exact hapart.1 (hid.trans hye.1.symm)
  · exact hapart.2 (haddr.trans hye.2.symm)

theorem Tidy.put_result (h : b.Tidy) (now : UInt64) (e : KBucketEntry) :
    PutResult now e b (b.put now e) := by
  unfold KBucket.put
  cases hidx : b.entries.findIdx? (·.matches e.toNodeInfo) with
  | some i =>
    obtain ⟨pre, x, post, hsplit, hmatch, -, hmodify⟩ := modify_findIdx hidx
    have hx : x ∈ b.entries := by simp [hsplit]
    dsimp only
    rw [hmodify]
    cases heq : x.equals e.toNodeInfo with
    | true => exact .merged pre x post hsplit heq
    | false =>
      rw [if_neg (by simp), ← hsplit]
      refine .ignored fun y hy => Bool.eq_false_iff.mpr fun hye => ?_
      rw [h.eq_of_equals hx hy hmatch hye, hye] at heq
      cases heq
  | none =>
    have hno : ∀ x ∈ b.entries, x.matches e.toNodeInfo = false := fun x hx => by
      simpa using List.findIdx?_eq_none_iff.mp hidx x hx
    have hignored : PutResult now e b b := .ignored fun x hx => by
      have hxe := hno x hx
      contrapose! hxe
      simpa using equals_matches (by simpa using hxe)
    dsimp only
    split_ifs with hr hroom
    · exact .inserted hno hr hroom
    · split
      · next bad hbad =>
        exact .replaced bad hno hr (List.mem_of_find?_eq_some hbad)
          (.inl (by simpa using List.find?_some hbad))
      · split
        · next youngest hyoungest =>
          split_ifs with hlt
          · exact .replaced youngest hno hr (List.mem_of_getLast? hyoungest) (.inr ⟨hyoungest, hlt⟩)
          · exact hignored
        · exact hignored
    · exact hignored

/-! ## The order of creation -/

/-- The entries are in the order of their creation, so that the last one is the youngest. -/
structure AgeOrder (b : KBucket) : Prop where
  sorted : b.entries.Pairwise fun x y => x.created ≤ y.created
  youngest : ∀ x, b.entries.getLast? = some x → ∀ y ∈ b.entries, y.created ≤ x.created

theorem ageOrder_iff : b.AgeOrder ↔ b.entries.Pairwise fun x y => x.created ≤ y.created := by
  refine ⟨fun h => h.sorted, fun h => ⟨h, fun x hx y hy => ?_⟩⟩
  obtain ⟨pre, hpre⟩ := List.getLast?_eq_some_iff.mp hx
  rw [hpre] at h hy
  obtain hy | hy := List.mem_append.mp hy
  · exact (List.pairwise_append.mp h).2.2 y hy x List.mem_cons_self
  · rw [List.mem_singleton.mp hy]
    exact UInt64.le_refl _

/-- An entry that a call takes out for a newcomer is bad, or the newcomer is older and it is the
youngest one. -/
def DisplacesYoungest (b : KBucket) : Op → Prop
  | .put now newEntry => ∀ x ∈ b.entries, x.nodeId ∉ (b.put now newEntry).ids →
      x.needsReplacement now = true ∨
        newEntry ∈ (b.put now newEntry).entries ∧ newEntry.created < x.created ∧
          ∀ y ∈ b.entries, y.created ≤ x.created
  | _ => True

/-- An entry that takes the news of one that was created earlier has no entry before it that was
created later than that. -/
def InOrder (b : KBucket) : Op → Prop
  | .put _ newEntry | .refresh newEntry => ∀ pre x post, b.entries = pre ++ x :: post →
      x.equals newEntry.toNodeInfo = true → ∀ y ∈ pre, y.created ≤ newEntry.created
  | _ => True

variable {l pre post : List KBucketEntry} {x : KBucketEntry}

theorem sortByCreation_sorted (l : List KBucketEntry) :
    (sortByCreation l).Pairwise fun x y => x.created ≤ y.created := by
  have htotal : Std.Total fun x y : KBucketEntry => x.created ≤ y.created :=
    ⟨fun _ _ => UInt64.le_total _ _⟩
  have htrans : IsTrans KBucketEntry fun x y => x.created ≤ y.created :=
    ⟨fun _ _ _ => UInt64.le_trans⟩
  exact List.pairwise_insertionSort _ l

/-- An entry that is added goes to its place. -/
theorem insert_sorted (h : l.Pairwise fun x y => x.created ≤ y.created) (ins : KBucketEntry)
    (added : Bool) :
    (if l.getLast?.any (ins.created < ·.created) then
      sortByCreation (if added then l ++ [ins] else l)
      else if added then l ++ [ins] else l).Pairwise fun x y => x.created ≤ y.created := by
  split_ifs with hunordered hadded
  · exact sortByCreation_sorted _
  · exact sortByCreation_sorted _
  · -- the last entry is no younger than the new one
    refine List.pairwise_append.mpr ⟨h, List.pairwise_singleton _ _, fun y hy z hz => ?_⟩
    rw [List.mem_singleton.mp hz]
    have hlast : l.getLast? = some (l.getLast (List.ne_nil_of_mem hy)) :=
      List.getLast?_eq_some_getLast _
    rw [hlast, Option.any_some, decide_eq_true_eq, UInt64.not_lt] at hunordered
    have hage : ({ pfx := Prefix.all, homeBucket := false, entries := l } : KBucket).AgeOrder :=
      ageOrder_iff.mpr h
    exact UInt64.le_trans (hage.youngest _ hlast y hy) hunordered
  · exact h

theorem update_sorted (h : b.entries.Pairwise fun x y => x.created ≤ y.created)
    (toRemove toInsert : Option KBucketEntry) :
    (b.update toRemove toInsert).entries.Pairwise fun x y => x.created ≤ y.created := by
  have hfilter (r : KBucketEntry) : (b.entries.filter (· != r)).Pairwise fun x y =>
      x.created ≤ y.created :=
    h.sublist List.filter_sublist
  unfold update
  split_ifs
  · exact h
  cases toInsert with
  | none =>
    cases toRemove with
    | none => exact h
    | some r => exact hfilter r
  | some ins =>
    cases toRemove with
    | none =>
      dsimp only
      split
      · exact insert_sorted h ins _
      · exact h
    | some r =>
      dsimp only
      split
      · exact insert_sorted (hfilter r) ins _
      · exact h

/-- A merge sets the time of creation back: the list stays in order if no entry before was created
later than the other one. -/
theorem merge_sorted_iff (h : (pre ++ x :: post).Pairwise fun x y => x.created ≤ y.created)
    (heq : x.equals e.toNodeInfo = true) :
    (pre ++ x.merge e :: post).Pairwise (fun x y => x.created ≤ y.created) ↔ ∀ y ∈ pre,
      y.created ≤ e.created := by
  have hcreated : (x.merge e).created = min x.created e.created := by simp [KBucketEntry.merge, heq]
  obtain ⟨hpre, hpost, hcross⟩ := List.pairwise_append.mp h
  obtain ⟨hx, hpost⟩ := List.pairwise_cons.mp hpost
  rw [List.pairwise_append, List.pairwise_cons]
  constructor
  · rintro ⟨-, -, hle⟩ y hy
    have hy := hle y hy _ List.mem_cons_self
    rw [hcreated] at hy
    exact (Std.le_min_iff.mp hy).2
  · intro hle
    refine ⟨hpre, ⟨fun z hz => ?_, hpost⟩, fun y hy =>
      List.forall_mem_cons.mpr ⟨?_, fun z hz => ?_⟩⟩
    · rw [hcreated]
      exact UInt64.le_trans Std.min_le_left (hx z hz)
    · rw [hcreated]
      exact Std.le_min_iff.mpr ⟨hcross y hy x List.mem_cons_self, hle y hy⟩
    · exact hcross y hy z (List.mem_cons_of_mem _ hz)

/-- A change in place that keeps the times of creation. -/
theorem modify_sorted (h : l.Pairwise fun x y => x.created ≤ y.created) (i : Nat)
    {f : KBucketEntry → KBucketEntry}
    (hf : ∀ x, (f x).created = x.created) : (l.modify i f).Pairwise fun x y =>
      x.created ≤ y.created := by
  have hmap : (l.modify i f).map (·.created) = l.map (·.created) := by
    apply List.ext_getElem
    · simp
    · intro j _ _
      simp only [List.getElem_map, List.getElem_modify]
      split_ifs
      · exact hf _
      · rfl
  have h' : (l.map (·.created)).Pairwise (· ≤ ·) := List.pairwise_map.mpr h
  rw [← hmap] at h'
  exact List.pairwise_map.mp h'

theorem removeIfBad_sorted (h : b.entries.Pairwise fun x y => x.created ≤ y.created)
    (force : Bool) :
    (b.removeIfBad now e force).entries.Pairwise fun x y => x.created ≤ y.created := by
  unfold removeIfBad
  split_ifs
  · exact update_sorted h _ _
  · exact h

/-- The entry that is the same node stands at one place. -/
theorem Tidy.split_unique (h : b.Tidy) {pre' post' : List KBucketEntry} {x' : KBucketEntry}
    (hsplit : b.entries = pre ++ x :: post) (hsplit' : b.entries = pre' ++ x' :: post')
    (heq : x.equals e.toNodeInfo = true) (heq' : x'.equals e.toNodeInfo = true) : pre' = pre := by
  have hsame : x' = x :=
    h.eq_of_equals (by simp [hsplit']) (by simp [hsplit]) (equals_matches heq') heq
  subst hsame
  have hself : ¬ x'.matches x'.toNodeInfo = false := by simp [NodeInfo.matches]
  have happart := h.apart
  rw [hsplit] at happart hsplit'
  rw [List.pairwise_append, List.pairwise_cons] at happart
  obtain ⟨-, ⟨hpost, -⟩, hcross⟩ := happart
  obtain ⟨mid, hpre', hmid⟩ | ⟨mid, hpre, hmid⟩ := List.append_eq_append_iff.mp hsplit'
  · cases mid with
    | nil => simp [hpre']
    | cons y mid =>
      obtain ⟨rfl, hpost'⟩ := List.cons.inj hmid
      have hmem : x' ∈ post := hpost' ▸ List.mem_append_right _ List.mem_cons_self
      exact absurd (hpost x' hmem) hself
  · cases mid with
    | nil => simp [hpre]
    | cons y mid =>
      obtain ⟨rfl, -⟩ := List.cons.inj hmid
      exact absurd (hcross x' (by simp [hpre]) x' List.mem_cons_self) hself

theorem merged_ageOrder_iff (ht : b.Tidy) (h : b.AgeOrder) (hsplit : b.entries = pre ++ x :: post)
    (heq : x.equals e.toNodeInfo = true) :
    AgeOrder { b with entries := pre ++ x.merge e :: post } ↔ b.InOrder (.refresh e) := by
  rw [ageOrder_iff, merge_sorted_iff (hsplit ▸ h.sorted) heq]
  refine ⟨fun hle pre' x' post' hsplit' heq' => ?_, fun hle => hle pre x post hsplit heq⟩
  rw [ht.split_unique hsplit hsplit' heq heq']
  exact hle

theorem inOrder_refresh (hno : ∀ x ∈ b.entries, x.equals e.toNodeInfo = false) :
    b.InOrder (.refresh e) := by
  intro pre x post hsplit heq
  rw [hno x (by simp [hsplit])] at heq
  cases heq

theorem put_ageOrder_iff (ht : b.Tidy) (h : b.AgeOrder) (now : UInt64) (e : KBucketEntry) :
    (b.put now e).AgeOrder ↔ b.InOrder (.refresh e) := by
  have hupdate (toRemove : Option KBucketEntry)
      (hno : ∀ x ∈ b.entries, x.matches e.toNodeInfo = false) :
      (b.update toRemove (some e)).AgeOrder ↔ b.InOrder (.refresh e) := by
    refine iff_of_true (ageOrder_iff.mpr (update_sorted h.sorted _ _))
      (inOrder_refresh fun x hx => ?_)
    have hxe := hno x hx
    contrapose! hxe
    simpa using equals_matches (by simpa using hxe)
  have hput := ht.put_result now e
  generalize b.put now e = b' at hput ⊢
  cases hput with
  | merged pre x post hsplit heq => exact merged_ageOrder_iff ht h hsplit heq
  | ignored hno => exact iff_of_true h (inOrder_refresh hno)
  | inserted hno _ _ => exact hupdate none hno
  | replaced r hno _ _ _ => exact hupdate (some r) hno

theorem refresh_ageOrder_iff (ht : b.Tidy) (h : b.AgeOrder) (e : KBucketEntry) :
    (b.refresh e).AgeOrder ↔ b.InOrder (.refresh e) := by
  unfold KBucket.refresh
  cases hidx : b.entries.findIdx? (·.equals e.toNodeInfo) with
  | none =>
    exact iff_of_true h (inOrder_refresh fun x hx => by
      simpa using List.findIdx?_eq_none_iff.mp hidx x hx)
  | some i =>
    obtain ⟨pre, x, post, hsplit, heq, -, hmodify⟩ := modify_findIdx hidx
    dsimp only
    rw [hmodify]
    exact merged_ageOrder_iff ht h hsplit heq

theorem onTimeout_sorted (h : b.entries.Pairwise fun x y => x.created ≤ y.created) (id : Id) :
    (b.onTimeout now id).entries.Pairwise fun x y => x.created ≤ y.created := by
  unfold KBucket.onTimeout
  split
  · exact h
  · next i _ =>
    have hmod := modify_sorted h i (f := (·.signalRequestTimeout)) fun _ => rfl
    dsimp only
    split
    · exact removeIfBad_sorted (b := { b with entries := _ }) hmod false
    · exact hmod

theorem onSend_sorted (h : b.entries.Pairwise fun x y => x.created ≤ y.created) (id : Id) :
    (b.onSend now id).entries.Pairwise fun x y => x.created ≤ y.created := by
  unfold KBucket.onSend
  split
  · exact h
  · exact modify_sorted h _ fun _ => rfl

/-- One call keeps the order exactly if it does not set the time of creation of an entry back too
far. -/
theorem step_ageOrder_iff (ht : b.Tidy) (h : b.AgeOrder) (op : Op) : (b.step op).AgeOrder ↔
    b.InOrder op := by
  cases op with
  | put now e => exact put_ageOrder_iff ht h now e
  | refresh e => exact refresh_ageOrder_iff ht h e
  | removeIfBad now e force held =>
    refine iff_of_true ?_ trivial
    cases held with
    | false => exact h
    | true => exact ageOrder_iff.mpr (removeIfBad_sorted h.sorted force)
  | onTimeout now id => exact iff_of_true (ageOrder_iff.mpr (onTimeout_sorted h.sorted id)) trivial
  | onSend now id => exact iff_of_true (ageOrder_iff.mpr (onSend_sorted h.sorted id)) trivial

/-- In a bucket in order, what gives way to a newcomer is bad or the youngest. -/
theorem AgeOrder.displacesYoungest (ht : b.Tidy) (h : b.AgeOrder) (op : Op) :
    b.DisplacesYoungest op := by
  cases op with
  | put now e =>
    intro x hx hgone
    have hkept {b' : KBucket} (hx' : x ∈ b'.entries) : x.nodeId ∈ b'.ids := List.mem_map_of_mem hx'
    have hput := ht.put_result now e
    generalize b.put now e = b' at hput hgone ⊢
    cases hput with
    | merged pre y post hsplit _ =>
      refine absurd ?_ hgone
      have hids : x.nodeId ∈ b.ids := hkept hx
      simpa [ids, hsplit] using hids
    | ignored _ => exact absurd (hkept hx) hgone
    | inserted hno _ hroom =>
      exact absurd
        (hkept ((update_newcomer_perm hno hroom).mem_iff.mpr (List.mem_cons_of_mem _ hx))) hgone
    | replaced r hno _ hr hwhy =>
      have hperm := ht.update_replace_perm hno hr
      have hxr : x = r := by
        by_contra hne
        refine hgone
          (hkept (hperm.mem_iff.mpr (List.mem_cons_of_mem _ (List.mem_filter.mpr ⟨hx, ?_⟩))))
        simpa using hne
      subst hxr
      obtain hbad | ⟨hlast, hlt⟩ := hwhy
      · exact .inl hbad
      · exact .inr ⟨hperm.mem_iff.mpr List.mem_cons_self, hlt, h.youngest x hlast⟩
  | _ => trivial

/-- In every run of a new bucket: in every state the entries are in the order of their creation, and
what a call takes out for a newcomer is bad, or the youngest and younger than the newcomer, exactly
if no call gives an entry the news of one that was created before another entry further ahead. -/
theorem run_ageOrder_iff (pfx : Prefix) (homeBucket : Bool) (ops : List Op) :
    ((∀ pre, pre <+: ops → ((new pfx homeBucket).run pre).AgeOrder) ∧
        Runs.Every (fun pre op => ((new pfx homeBucket).run pre).DisplacesYoungest op) ops) ↔
      Runs.Every (fun pre op => ((new pfx homeBucket).run pre).InOrder op) ops := by
  have htidy (pre : List Op) : ((new pfx homeBucket).run pre).Tidy :=
    (Tidy.empty pfx homeBucket).run pre
  have hnil : ((new pfx homeBucket).run []).AgeOrder := ageOrder_iff.mpr .nil
  have hsteps : (∀ pre, pre <+: ops → ((new pfx homeBucket).run pre).AgeOrder) ↔
      Runs.Every (fun pre op => ((new pfx homeBucket).run pre).InOrder op) ops := by
    rw [Runs.forall_initial_iff hnil]
    refine Runs.every_iff_of_inv (I := fun pre => ((new pfx homeBucket).run pre).AgeOrder) hnil
      (fun _ _ _ h => h) (fun pre op h => ?_) ops
    rw [run_concat]
    exact step_ageOrder_iff (htidy pre) h op
  rw [← hsteps]
  refine and_iff_left_of_imp fun h => ?_
  rintro pre op post rfl
  exact (h pre ⟨op :: post, rfl⟩).displacesYoungest (htidy pre) op

/-- Two nodes get into a bucket, and the second one again with an earlier time of creation, as a
routing table that is loaded has it. -/
def backdated : List Op :=
  [.put 30
      { nodeId := Id.zero, sockaddr := .inet ⟨[20, 51, 100, 1], by simp⟩ 39001, created := 10,
        reachable := true },
    .put 30
      { nodeId := Id.MAX_ID, sockaddr := .inet ⟨[20, 51, 100, 2], by simp⟩ 39001, created := 20,
        reachable := true },
    .put 30
      { nodeId := Id.MAX_ID, sockaddr := .inet ⟨[20, 51, 100, 2], by simp⟩ 39001, created := 5,
        reachable := true }]

theorem backdated_not_ageOrder :
    ¬ ((∀ pre, pre <+: backdated → ((new Prefix.all true).run pre).AgeOrder) ∧
      Runs.Every (fun pre op => ((new Prefix.all true).run pre).DisplacesYoungest op)
        backdated) := by
  rintro ⟨h, -⟩
  have htimes : (((new Prefix.all true).run backdated).entries.map (·.created)).Pairwise (· ≤ ·) :=
    List.pairwise_map.mpr (h backdated List.prefix_rfl).sorted
  revert htimes
  decide +kernel

end KBucket

end Boson
