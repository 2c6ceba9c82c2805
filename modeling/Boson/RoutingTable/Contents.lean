import Boson.RoutingTable.Partition

/-!
# What the buckets hold

* `KBucket.put_cases`: what `put` does to a bucket, and when.
* `KBucket.Tidy`: a bucket has room for its entries, they are reachable, and no two of them have the
  same id or address.
* `put_rule`: the rule of the loop of `put`; `Stable`: a property of buckets that all operations
  keep, such as `Tidy` (`tidy_stable`).
* A split of a tidy bucket loses no entry (`split_perm`), and `put` adds at most one
  (`put_length_le`).
* The entries of the table that a bucket covers are its own (`Inv.filter_covers`).
* The search for a bucket finds the first one that covers the id (`Inv.indexOf_eq`), so that `put`
  can be evaluated by structural recursion (`Inv.run_puts`, `Inv.load_entries`).
-/

namespace Boson

namespace NodeInfo

theorem matches_comm (a b : NodeInfo) : a.matches b = b.matches a := by
  simp only [NodeInfo.matches, BEq.comm]

theorem not_matches_iff {a b : NodeInfo} :
    a.matches b = false ↔ a.nodeId ≠ b.nodeId ∧ a.sockaddr ≠ b.sockaddr := by
  simp [NodeInfo.matches]

end NodeInfo

namespace KBucketEntry

theorem merge_sockaddr (e e' : KBucketEntry) : (e.merge e').sockaddr = e.sockaddr := by
  unfold merge
  split <;> rfl

theorem merge_reachable (e e' : KBucketEntry) (h : e.reachable = true) :
    (e.merge e').reachable = true := by
  unfold merge
  split
  · simp [h]
  · exact h

end KBucketEntry

namespace KBucket

variable {b : KBucket} {now : UInt64} {e : KBucketEntry} {id : Id}

/-- An insertion that finds room: the entry is added. -/
theorem update_insert_perm (toRemove : Option KBucketEntry)
    (hno : ∀ x ∈ b.entries, e.matches x.toNodeInfo = false)
    (hroom : (toRemove.elim b.entries fun r => b.entries.filter (· != r)).length <
      MAX_ENTRIES_PER_BUCKET) :
    (b.update toRemove (some e)).entries.Perm
      (e :: toRemove.elim b.entries fun r => b.entries.filter (· != r)) := by
  have hany : (b.entries.any fun x => e.matches x.toNodeInfo) = false := by
    rw [List.any_eq_false]
    exact fun x hx => by simp [hno x hx]
  have happ (new : List KBucketEntry) : (new ++ [e]).Perm (e :: new) :=
    List.perm_append_singleton e new
  have hsort (new : List KBucketEntry) (unordered : Bool) :
      (if unordered then sortByCreation (new ++ [e]) else new ++ [e]).Perm (e :: new) := by
    split_ifs
    · exact (sortByCreation_perm _).trans (happ new)
    · exact happ new
  unfold update
  cases toRemove with
  | none =>
    have hnot : ¬ b.entries.length ≥ MAX_ENTRIES_PER_BUCKET := Nat.not_le.mpr hroom
    simp only [Option.any_some, hany, Bool.false_eq_true, hnot, decide_false, Bool.not_false,
      Bool.true_or, ↓reduceIte]
    exact hsort _ _
  | some r =>
    have hnot : ¬ (b.entries.filter (· != r)).length ≥ MAX_ENTRIES_PER_BUCKET :=
      Nat.not_le.mpr hroom
    simp only [Option.any_some, hany, Bool.false_eq_true, hnot, decide_false, Bool.not_false,
      Bool.true_or, ↓reduceIte]
    exact hsort _ _

/-- An entry that matches none is added where there is room. -/
theorem update_newcomer_perm (hno : ∀ x ∈ b.entries, x.matches e.toNodeInfo = false)
    (hroom : b.entries.length < MAX_ENTRIES_PER_BUCKET) :
    (b.update none (some e)).entries.Perm (e :: b.entries) :=
  update_insert_perm none (fun x hx => (NodeInfo.matches_comm _ _).trans (hno x hx)) hroom

/-- What `put` does: an entry with the same id or address stays, and takes the news of an entry that
is the same node; otherwise a reachable entry is added if there is room, or takes the place of
another one. -/
theorem put_cases (b : KBucket) (now : UInt64) (e : KBucketEntry) :
    (∃ x ∈ b.entries, x.matches e.toNodeInfo = true) ∧
        (∃ i, b.put now e = { b with
          entries := b.entries.modify i fun x => if x.equals e.toNodeInfo then x.merge e else x }) ∨
      (∀ x ∈ b.entries, x.matches e.toNodeInfo = false) ∧
        (b.put now e = b ∧ (e.reachable = false ∨ MAX_ENTRIES_PER_BUCKET ≤ b.entries.length) ∨
          e.reachable = true ∧ b.entries.length < MAX_ENTRIES_PER_BUCKET ∧
            b.put now e = b.update none (some e) ∨
          e.reachable = true ∧ MAX_ENTRIES_PER_BUCKET ≤ b.entries.length ∧
            ∃ r ∈ b.entries, b.put now e = b.update (some r) (some e)) := by
  unfold put
  cases hidx : b.entries.findIdx? (·.matches e.toNodeInfo) with
  | some i =>
    obtain ⟨hi, hmatch, -⟩ := List.findIdx?_eq_some_iff_getElem.mp hidx
    exact .inl ⟨⟨b.entries[i], List.getElem_mem hi, hmatch⟩, i, rfl⟩
  | none =>
    refine .inr ⟨fun x hx => by simpa using List.findIdx?_eq_none_iff.mp hidx x hx, ?_⟩
    dsimp only
    cases hr : e.reachable with
    | false => simp
    | true =>
      simp only [↓reduceIte, true_and]
      split_ifs with hroom
      · exact .inr (.inl ⟨hroom, rfl⟩)
      · have hfull := Nat.not_lt.mp hroom
        split
        · next bad hbad => exact .inr (.inr ⟨hfull, bad, List.mem_of_find?_eq_some hbad, rfl⟩)
        · split
          · next youngest hyoungest =>
            split_ifs
            · exact .inr (.inr ⟨hfull, youngest, List.mem_of_getLast? hyoungest, rfl⟩)
            · exact .inl ⟨rfl, .inr hfull⟩
          · exact .inl ⟨rfl, .inr hfull⟩

/-- `put` adds at most one entry. -/
theorem put_length_le (b : KBucket) (now : UInt64) (e : KBucketEntry) :
    (b.put now e).entries.length ≤ b.entries.length + 1 := by
  have hupdate (toRemove : Option KBucketEntry) :
      (b.update toRemove (some e)).entries.length ≤ b.entries.length + 1 := by
    obtain ⟨-, -, hsub | ⟨ins, kept, -, hsub, -, hperm⟩⟩ := update_spec b toRemove (some e)
    · exact hsub.length_le.trans (Nat.le_succ _)
    · rw [hperm.length_eq, List.length_cons]
      exact Nat.succ_le_succ hsub.length_le
  obtain ⟨-, i, h⟩ | ⟨-, ⟨h, -⟩ | ⟨-, -, h⟩ | ⟨-, -, r, -, h⟩⟩ := put_cases b now e
  · simp [h]
  · simp [h]
  · rw [h]
    exact hupdate none
  · rw [h]
    exact hupdate (some r)

/-! ## Tidy buckets -/

/-- There is room for the entries, they are reachable, and no two have the same id or address. -/
structure Tidy (b : KBucket) : Prop where
  room : b.entries.length ≤ MAX_ENTRIES_PER_BUCKET
  reachable : ∀ x ∈ b.entries, x.reachable = true
  apart : b.entries.Pairwise fun x y => x.matches y.toNodeInfo = false

namespace Tidy

theorem empty (p : Prefix) (home : Bool) : Tidy { pfx := p, homeBucket := home } :=
  ⟨Nat.zero_le _, by simp, .nil⟩

/-- Another list of entries that are some of the old ones. -/
theorem sublist (h : b.Tidy) {b' : KBucket} (hsub : b'.entries.Sublist b.entries) : b'.Tidy where
  room := hsub.length_le.trans h.room
  reachable x hx := h.reachable x (hsub.subset hx)
  apart := h.apart.sublist hsub

/-- An entry that matches none takes the place of another one. -/
theorem update_replace_perm (h : b.Tidy) (hno : ∀ x ∈ b.entries, x.matches e.toNodeInfo = false)
    {r : KBucketEntry} (hr : r ∈ b.entries) :
    (b.update (some r) (some e)).entries.Perm (e :: b.entries.filter (· != r)) :=
  update_insert_perm (some r) (fun x hx => (NodeInfo.matches_comm _ _).trans (hno x hx))
    ((List.length_filter_lt_length_iff_exists.mpr ⟨r, hr, by simp⟩).trans_le h.room)

/-- A change of one entry that keeps its id and its address, and that it is reachable. -/
theorem modify (h : b.Tidy) (i : Nat) {f : KBucketEntry → KBucketEntry}
    (hf : ∀ x, (f x).nodeId = x.nodeId ∧ (f x).sockaddr = x.sockaddr ∧
      (x.reachable = true → (f x).reachable = true)) :
    Tidy { b with entries := b.entries.modify i f } where
  room := by simpa using h.room
  reachable x hx := by
    obtain ⟨j, hj, rfl⟩ := List.getElem_of_mem hx
    simp only [List.length_modify] at hj
    have hold := h.reachable _ (List.getElem_mem hj)
    simp only [List.getElem_modify]
    split_ifs
    · exact (hf _).2.2 hold
    · exact hold
  apart := by
    have hinfo (j : Nat) (hj : j < (b.entries.modify i f).length) (hj' : j < b.entries.length) :
        (b.entries.modify i f)[j].nodeId = b.entries[j].nodeId ∧
          (b.entries.modify i f)[j].sockaddr = b.entries[j].sockaddr := by
      rw [List.getElem_modify]
      split_ifs
      · exact ⟨(hf _).1, (hf _).2.1⟩
      · exact ⟨rfl, rfl⟩
    rw [List.pairwise_iff_getElem]
    intro j k hj hk hjk
    have hj' : j < b.entries.length := by simpa using hj
    have hk' : k < b.entries.length := by simpa using hk
    have hold := List.pairwise_iff_getElem.mp h.apart j k hj' hk' hjk
    rw [NodeInfo.not_matches_iff] at hold ⊢
    rw [(hinfo j hj hj').1, (hinfo j hj hj').2, (hinfo k hk hk').1, (hinfo k hk hk').2]
    exact hold

/-- One more entry, which is reachable and matches none of those that stay. -/
theorem insert {b' : KBucket} {kept : List KBucketEntry} (h : b.Tidy)
    (hsub : kept.Sublist b.entries) (hroom : kept.length < MAX_ENTRIES_PER_BUCKET)
    (hr : e.reachable = true) (hno : ∀ x ∈ b.entries, x.matches e.toNodeInfo = false)
    (hperm : b'.entries.Perm (e :: kept)) :
    b'.Tidy where
  room := by
    rw [hperm.length_eq]
    exact hroom
  reachable x hx := by
    obtain rfl | hx := List.mem_cons.mp (hperm.mem_iff.mp hx)
    · exact hr
    · exact h.reachable x (hsub.subset hx)
  apart := by
    refine (hperm.pairwise_iff fun {x y} hxy => ?_).mpr ?_
    · rw [NodeInfo.matches_comm]
      exact hxy
    · refine List.pairwise_cons.mpr ⟨fun x hx => ?_, h.apart.sublist hsub⟩
      rw [NodeInfo.matches_comm]
      exact hno x (hsub.subset hx)

theorem put (h : b.Tidy) (now : UInt64) (e : KBucketEntry) : (b.put now e).Tidy := by
  obtain ⟨-, i, hput⟩ | ⟨hno, hcases⟩ := put_cases b now e
  · rw [hput]
    refine h.modify i fun x => ?_
    split_ifs
    · exact ⟨x.merge_nodeId e, x.merge_sockaddr e, x.merge_reachable e⟩
    · exact ⟨rfl, rfl, fun hx => hx⟩
  · obtain ⟨hput, -⟩ | ⟨hr, hroom, hput⟩ | ⟨hr, -, r, hmem, hput⟩ := hcases
    · rw [hput]
      exact h
    · rw [hput]
      exact h.insert (.refl _) hroom hr hno (update_newcomer_perm hno hroom)
    · have hroom : (b.entries.filter (· != r)).length < MAX_ENTRIES_PER_BUCKET :=
        (List.length_filter_lt_length_iff_exists.mpr ⟨r, hmem, by simp⟩).trans_le h.room
      rw [hput]
      exact h.insert List.filter_sublist hroom hr hno (h.update_replace_perm hno hmem)

theorem removeIfBad (h : b.Tidy) (now : UInt64) (e : KBucketEntry) (force : Bool) :
    (b.removeIfBad now e force).Tidy := by
  unfold KBucket.removeIfBad
  split_ifs
  · obtain ⟨-, -, hsub | ⟨ins, kept, hins, -⟩⟩ := update_spec b (some e) none
    · exact h.sublist hsub
    · cases hins
  · exact h

theorem onTimeout (h : b.Tidy) (now : UInt64) (id : Id) : (b.onTimeout now id).Tidy := by
  unfold KBucket.onTimeout
  split
  · exact h
  · next i _ =>
    have hmod := h.modify i (f := (·.signalRequestTimeout)) fun _ => ⟨rfl, rfl, fun hx => hx⟩
    dsimp only
    split
    · exact hmod.removeIfBad now _ false
    · exact hmod

theorem onSend (h : b.Tidy) (now : UInt64) (id : Id) : (b.onSend now id).Tidy := by
  unfold KBucket.onSend
  split
  · exact h
  · exact h.modify _ fun _ => ⟨rfl, rfl, fun hx => hx⟩

theorem refresh (h : b.Tidy) (e : KBucketEntry) : (b.refresh e).Tidy := by
  unfold KBucket.refresh
  split
  · exact h.modify _ fun x => ⟨x.merge_nodeId e, x.merge_sockaddr e, x.merge_reachable e⟩
  · exact h

end Tidy

/-- An entry that is reachable and matches none gets into a bucket that has room. -/
theorem put_perm (hno : ∀ x ∈ b.entries, x.matches e.toNodeInfo = false) (hr : e.reachable = true)
    (hroom : b.entries.length < MAX_ENTRIES_PER_BUCKET) :
    (b.put now e).entries.Perm (e :: b.entries) := by
  obtain ⟨⟨x, hx, hmatch⟩, -⟩ | ⟨-, ⟨-, hr' | hfull⟩ | ⟨-, -, hput⟩ | ⟨-, hfull, -⟩⟩ :=
    put_cases b now e
  · rw [hno x hx] at hmatch
    cases hmatch
  · rw [hr] at hr'
    cases hr'
  · omega
  · rw [hput]
    exact update_newcomer_perm hno hroom
  · omega

/-- An entry that matches another one, or that finds no room, adds nothing to a tidy bucket. -/
theorem Tidy.put_length_le (h : b.Tidy) (now : UInt64)
    (hnot : (∃ x ∈ b.entries, x.matches e.toNodeInfo = true) ∨
      MAX_ENTRIES_PER_BUCKET ≤ b.entries.length) :
    (b.put now e).entries.length ≤ b.entries.length := by
  obtain ⟨-, i, hput⟩ | ⟨hno, ⟨hput, -⟩ | ⟨-, hroom, -⟩ | ⟨-, hfull, -⟩⟩ := put_cases b now e
  · simp [hput]
  · rw [hput]
  · obtain ⟨x, hx, hmatch⟩ | hfull := hnot
    · rw [hno x hx] at hmatch
      cases hmatch
    · omega
  · exact (h.put now e).room.trans hfull

end KBucket

namespace RoutingTable

variable {T T' : RoutingTable} {now : UInt64} {id : Id} {e : KBucketEntry} {b : KBucket}

/-- The rule of the loop of `put`: what holds of the table and is kept by the splits holds of the
table whose bucket takes the entry. -/
theorem put_rule {R : RoutingTable → Prop}
    (hsplit : ∀ T, R T → ∀ hs : needsSplit now (T.getBucket e.nodeId) e = true,
      R (T.split now (T.getBucket e.nodeId) (isSplittable_of_needsSplit hs)))
    (h : R T) (hput : T.put now e = some T') :
    ∃ T₁, R T₁ ∧ needsSplit now (T₁.getBucket e.nodeId) e = false ∧
      T' = T₁.modifyBucket e.nodeId (·.put now e) := by
  have hloop (fuel : Nat) {T : RoutingTable} (h : R T) (hput : putLoop now e fuel T = some T') :
      ∃ T₁, R T₁ ∧ needsSplit now (T₁.getBucket e.nodeId) e = false ∧
        T' = T₁.modifyBucket e.nodeId (·.put now e) := by
    induction fuel generalizing T with
    | zero => cases hput
    | succ fuel ih =>
      unfold putLoop at hput
      dsimp only at hput
      split_ifs at hput with hs
      · exact ih (hsplit T h hs) hput
      · cases hput
        exact ⟨T, h, by simpa using hs, rfl⟩
  exact hloop 257 h hput

/-! ## Properties of all buckets -/

/-- All buckets of the table have a property. -/
def Each (Q : KBucket → Prop) (T : RoutingTable) : Prop := ∀ b ∈ T.buckets, Q b

/-- A property that an empty bucket has and that the operations on a bucket keep, as long as the
entries that are put are fit for it, as those of the bucket are. -/
structure Stable (Q : KBucket → Prop) (Fit : KBucketEntry → Prop) : Prop where
  empty : ∀ p home, Q { pfx := p, homeBucket := home }
  fit : ∀ {b}, Q b → ∀ e ∈ b.entries, Fit e
  put : ∀ {b}, Q b → ∀ now {e}, Fit e → Q (b.put now e)
  removeIfBad : ∀ {b}, Q b → ∀ now e force, Q (b.removeIfBad now e force)
  onTimeout : ∀ {b}, Q b → ∀ now id, Q (b.onTimeout now id)
  onSend : ∀ {b}, Q b → ∀ now id, Q (b.onSend now id)

variable {Q : KBucket → Prop} {Fit : KBucketEntry → Prop}

theorem Each.modifyAt (h : T.Each Q) (i : Nat) {f : KBucket → KBucket} (hf : ∀ b, Q b → Q (f b)) :
    Each Q { T with buckets := T.buckets.modify i f } := by
  intro b hb
  obtain ⟨j, hj, rfl⟩ := List.getElem_of_mem hb
  rw [List.length_modify] at hj
  have hold := h _ (List.getElem_mem hj)
  simp only [List.getElem_modify]
  split_ifs
  · exact hf _ hold
  · exact hold

theorem listRemoveAll_sublist (l out : List KBucket) : (listRemoveAll l out).Sublist l := by
  induction out generalizing l with
  | nil => exact .refl l
  | cons b out ih => exact (ih (l.erase b)).trans List.erase_sublist

theorem Each.modify (h : T.Each Q) (out : List KBucket) {into : List KBucket}
    (hinto : ∀ b ∈ into, Q b) :
    (T.modify out into).Each Q := by
  intro b hb
  obtain hb | hb := List.mem_append.mp ((sortBuckets_perm _).mem_iff.mp hb)
  · exact h b ((listRemoveAll_sublist T.buckets out).subset hb)
  · exact hinto b hb

namespace Stable

theorem getD (s : Stable Q Fit) (h : T.Each Q) (i : Nat) : Q (T.buckets.getD i noBucket) := by
  rw [List.getD_eq_getElem?_getD]
  cases hi : T.buckets[i]? with
  | none => exact s.empty Prefix.all false
  | some b => exact h b (List.mem_of_getElem? hi)

/-- Putting entries that are fit for the bucket. -/
theorem foldl_put (s : Stable Q Fit) (h : Q b) {entries : List KBucketEntry}
    (he : ∀ x ∈ entries, Fit x) :
    Q (entries.foldl (fun b entry => b.put now entry) b) := by
  induction entries generalizing b with
  | nil => exact h
  | cons x entries ih =>
    rw [List.forall_mem_cons] at he
    exact ih (s.put h now he.1) he.2

theorem splitEntries (s : Stable Q Fit) {l r : KBucket} (hl : Q l) (hr : Q r)
    {entries : List KBucketEntry} (he : ∀ x ∈ entries, Fit x) :
    Q (RoutingTable.splitEntries now entries l r).1 ∧
      Q (RoutingTable.splitEntries now entries l r).2 := by
  induction entries generalizing l r with
  | nil => exact ⟨hl, hr⟩
  | cons x entries ih =>
    rw [List.forall_mem_cons] at he
    unfold RoutingTable.splitEntries at ih ⊢
    rw [List.foldl_cons]
    dsimp only
    split_ifs
    · exact ih (s.put hl now he.1) hr he.2
    · exact ih hl (s.put hr now he.1) he.2

theorem split (s : Stable Q Fit) (h : T.Each Q) (hb : Q b) (hs : b.pfx.isSplittable = true) :
    (T.split now b hs).Each Q := by
  refine h.modify _ (List.forall_mem_cons.mpr ⟨?_, List.forall_mem_cons.mpr ⟨?_, by simp⟩⟩)
  · exact (s.splitEntries (s.empty _ _) (s.empty _ _) (s.fit hb)).1
  · exact (s.splitEntries (s.empty _ _) (s.empty _ _) (s.fit hb)).2

theorem putTable (s : Stable Q Fit) (h : T.Each Q) (hnew : Fit e) (hput : T.put now e = some T') :
    T'.Each Q := by
  obtain ⟨T₁, h₁, -, rfl⟩ := put_rule (R := Each Q) (fun T h hs => s.split h (s.getD h _) _) h hput
  exact h₁.modifyAt _ fun b hb => s.put hb now hnew

theorem remove (s : Stable Q Fit) (h : T.Each Q) : (T.remove now id).Each Q := by
  unfold RoutingTable.remove
  split
  · exact h.modifyAt _ fun b hb => s.removeIfBad hb now _ true
  · exact h

theorem mergeLoop (s : Stable Q Fit) (h : T.Each Q) (i : Int) :
    (RoutingTable.mergeLoop now T i).Each Q := by
  fun_induction RoutingTable.mergeLoop now T i with
  | case1 T i _ ih => exact ih h
  | case2 T i _ hlt b1 b2 _ ih =>
    refine ih (h.modify _ fun b hb => ?_)
    rw [List.mem_singleton.mp hb]
    refine s.foldl_put (s.empty _ _) (List.forall_mem_append.mpr ⟨?_, ?_⟩)
    · exact s.fit (h b1 (List.getElem_mem _))
    · exact s.fit (h b2 (List.getElem_mem _))
  | case3 T i _ hlt b1 b2 _ ih => exact ih h
  | case4 T i _ _ => exact h

theorem load (s : Stable Q Fit) (h : T.Each Q) {nodes : List (Option KBucketEntry)}
    (hfit : ∀ e, some e ∈ nodes → Fit e) (hload : T.load now nodes = some T') : T'.Each Q := by
  induction nodes generalizing T with
  | nil =>
    cases hload
    exact h
  | cons node nodes ih =>
    cases node with
    | none =>
      cases hload
      exact h
    | some entry =>
      unfold RoutingTable.load at hload
      split at hload
      · next T₁ hput =>
        have h₁ := s.putTable h (hfit entry List.mem_cons_self) hput
        exact ih h₁ (fun e he => hfit e (List.mem_cons_of_mem _ he)) hload
      · cases hload

/-- A property that every entry is fit for holds after any sequence of operations. -/
theorem run (s : Stable Q fun _ => True) (h : T.Each Q) {ops : List Op}
    (hrun : T.run ops = some T') :
    T'.Each Q := by
  induction ops generalizing T with
  | nil =>
    cases hrun
    exact h
  | cons op ops ih =>
    rw [RoutingTable.run, List.foldlM_cons] at hrun
    obtain ⟨T₁, hstep, hrun⟩ := Option.bind_eq_some_iff.mp hrun
    refine ih ?_ hrun
    cases op with
    | put now entry => exact s.putTable h trivial hstep
    | remove now id =>
      cases hstep
      exact s.remove h
    | onSend now id =>
      cases hstep
      exact h.modifyAt _ fun b hb => s.onSend hb now id
    | onTimeout now id =>
      cases hstep
      exact h.modifyAt _ fun b hb => s.onTimeout hb now id
    | mergeBuckets now =>
      cases hstep
      exact s.mergeLoop h 0
    | load now nodes => exact s.load h (fun _ _ => trivial) hstep

end Stable

/-- All buckets are tidy. -/
def Tidy (T : RoutingTable) : Prop := T.Each KBucket.Tidy

theorem tidy_stable : Stable KBucket.Tidy fun _ => True where
  empty := .empty
  fit _ _ _ := trivial
  put h now e _ := h.put now e
  removeIfBad h := h.removeIfBad
  onTimeout h := h.onTimeout
  onSend h := h.onSend

theorem init_tidy (localId : Id) : (init localId).Tidy := by
  intro b hb
  rw [List.mem_singleton.mp hb]
  exact .empty _ _

/-! ## The entries of the table -/

theorem flatMap_entries_mid (pre : List KBucket) (b : KBucket) (post : List KBucket) :
    ((pre ++ b :: post).flatMap (·.entries)).Perm
    (b.entries ++ (pre ++ post).flatMap (·.entries)) := by
  rw [List.flatMap_append, List.flatMap_append, List.flatMap_cons, ← List.append_assoc,
    ← List.append_assoc]
  exact List.perm_append_comm.append_right _

/-- The bucket of an id within the list of buckets. -/
theorem Inv.modifyBucket_at (h : Inv T) (id : Id) :
    ∃ pre post, T.buckets = pre ++ T.getBucket id :: post ∧
      ∀ f, (T.modifyBucket id f).buckets = pre ++ f (T.getBucket id) :: post := by
  obtain ⟨i, hi, hidx, hget, -⟩ := h.getBucket_spec id
  refine ⟨T.buckets.take i, T.buckets.drop (i + 1), ?_, fun f => ?_⟩
  · rw [hget, ← List.drop_eq_getElem_cons hi, List.take_append_drop]
  · rw [hget]
    simp only [RoutingTable.modifyBucket, hidx, Int.toNat_natCast]
    exact List.modify_eq_take_cons_drop hi

/-- A change in one bucket that keeps its prefix keeps the prefix of the bucket of every id. -/
theorem Inv.modifyBucket_pfx (h : Inv T) {f : KBucket → KBucket} (h' : Inv (T.modifyBucket id f))
    (hf : (f (T.getBucket id)).pfx = (T.getBucket id).pfx) (x : Id) :
    ((T.modifyBucket id f).getBucket x).pfx = (T.getBucket x).pfx := by
  obtain ⟨pre, post, hsplit, hmod⟩ := h.modifyBucket_at id
  have hmem := h.getBucket_mem x
  have hnew : ∃ b ∈ (T.modifyBucket id f).buckets, b.pfx = (T.getBucket x).pfx := by
    rw [hmod f]
    rw [hsplit, List.mem_append, List.mem_cons] at hmem
    obtain hpre | heq | hpost := hmem
    · exact ⟨_, List.mem_append_left _ hpre, rfl⟩
    · exact ⟨_, List.mem_append_right _ List.mem_cons_self, by rw [hf, heq]⟩
    · exact ⟨_, List.mem_append_right _ (List.mem_cons_of_mem _ hpost), rfl⟩
  obtain ⟨b, hb, hpfx⟩ := hnew
  rw [h'.getBucket_eq hb (by rw [hpfx]; exact h.getBucket_covers x), hpfx]

/-- The entries that a bucket covers are its own. -/
theorem Inv.filter_covers (h : Inv T) (hb : b ∈ T.buckets) :
    T.allEntries.filter (fun x => b.pfx.isPrefixOf x.nodeId) = b.entries := by
  obtain ⟨pre, post, hsplit⟩ := List.append_of_mem hb
  have hown (b' : KBucket) (hb' : b' ∈ T.buckets) (x : KBucketEntry) (hx : x ∈ b'.entries) :
      covers b' x.nodeId = true := (h.ok b' hb').covered _ (List.mem_map_of_mem hx)
  -- an id that two buckets cover, one at the place of `b`
  have hpair (x : Id) := h.cover.pairwise x
  simp only [hsplit, List.pairwise_append, List.pairwise_cons] at hpair
  have hpre : (pre.flatMap (·.entries)).filter (fun x => b.pfx.isPrefixOf x.nodeId) = [] := by
    rw [List.filter_eq_nil_iff]
    intro x hx hcov
    obtain ⟨b', hb', hx'⟩ := List.mem_flatMap.mp hx
    have hmem : b' ∈ T.buckets := by
      rw [hsplit]
      exact List.mem_append_left _ hb'
    exact (hpair x.nodeId).2.2 b' hb' b List.mem_cons_self ⟨hown b' hmem x hx', hcov⟩
  have hpost : (post.flatMap (·.entries)).filter (fun x => b.pfx.isPrefixOf x.nodeId) = [] := by
    rw [List.filter_eq_nil_iff]
    intro x hx hcov
    obtain ⟨b', hb', hx'⟩ := List.mem_flatMap.mp hx
    have hmem : b' ∈ T.buckets := by
      rw [hsplit]
      exact List.mem_append_right _ (List.mem_cons_of_mem _ hb')
    exact (hpair x.nodeId).2.1.1 b' hb' ⟨hcov, hown b' hmem x hx'⟩
  rw [allEntries, hsplit, List.flatMap_append, List.flatMap_cons, List.filter_append,
    List.filter_append, hpre, hpost, List.nil_append, List.append_nil, List.filter_eq_self]
  exact hown b hb

/-- The two halves of a tidy bucket have all its entries. -/
theorem splitEntries_perm {l r : KBucket} {entries : List KBucketEntry}
    (hreach : ∀ x ∈ entries, x.reachable = true)
    (hapart : (l.entries ++ r.entries ++ entries).Pairwise fun x y =>
      x.matches y.toNodeInfo = false)
    (hroom : (l.entries ++ r.entries ++ entries).length ≤ MAX_ENTRIES_PER_BUCKET) :
    ((splitEntries now entries l r).1.entries ++ (splitEntries now entries l r).2.entries).Perm
      (l.entries ++ r.entries ++ entries) := by
  induction entries generalizing l r with
  | nil => simp [splitEntries]
  | cons x entries ih =>
    rw [List.forall_mem_cons] at hreach
    have hno : ∀ y ∈ l.entries ++ r.entries, y.matches x.toNodeInfo = false := fun y hy =>
      (List.pairwise_append.mp hapart).2.2 y hy x List.mem_cons_self
    simp only [List.length_append, List.length_cons] at hroom
    -- the half that takes `x` grows by it, and the rest goes on from there
    have hgo {l' r' : KBucket}
        (hperm : (l'.entries ++ r'.entries).Perm (x :: (l.entries ++ r.entries))) :
        ((splitEntries now entries l' r').1.entries ++
          (splitEntries now entries l' r').2.entries).Perm
          (l.entries ++ r.entries ++ x :: entries) := by
      have hall :
          (l'.entries ++ r'.entries ++ entries).Perm (l.entries ++ r.entries ++ x :: entries) :=
        (hperm.append_right entries).trans List.perm_middle.symm
      refine (ih hreach.2 ?_ ?_).trans hall
      · refine (hall.pairwise_iff fun {x y} hxy => ?_).mpr hapart
        rw [NodeInfo.matches_comm]
        exact hxy
      · rw [hall.length_eq]
        simp only [List.length_append, List.length_cons]
        exact hroom
    unfold splitEntries at hgo ⊢
    rw [List.foldl_cons]
    dsimp only
    split_ifs
    · refine hgo
        ((KBucket.put_perm (fun y hy => hno y (List.mem_append_left _ hy)) hreach.1
        ?_).append_right _)
      omega
    · refine hgo
        (((KBucket.put_perm (fun y hy => hno y (List.mem_append_right _ hy)) hreach.1
        ?_).append_left _).trans List.perm_middle)
      omega

/-- A split leaves the other buckets. -/
theorem mem_split_of_ne {b' : KBucket} (hb' : b' ∈ T.buckets) (hne : b' ≠ b)
    (hs : b.pfx.isSplittable = true) : b' ∈ (T.split now b hs).buckets :=
  (sortBuckets_perm _).mem_iff.mpr (List.mem_append_left _ ((List.mem_erase_of_ne hne).mpr hb'))

/-- A split of a tidy bucket loses no entry. -/
theorem split_perm (hb : b ∈ T.buckets) (ht : b.Tidy) (hs : b.pfx.isSplittable = true) :
    (T.split now b hs).allEntries.Perm T.allEntries := by
  have hhalves (l r : KBucket) (hl : l.entries = []) (hr : r.entries = []) :
      ((splitEntries now b.entries l r).1.entries ++
        (splitEntries now b.entries l r).2.entries).Perm
        b.entries := by
    have hnil : l.entries ++ r.entries ++ b.entries = b.entries := by
      rw [hl, hr, List.nil_append, List.nil_append]
    have hperm : ((splitEntries now b.entries l r).1.entries ++
        (splitEntries now b.entries l r).2.entries).Perm (l.entries ++ r.entries ++ b.entries) :=
      splitEntries_perm ht.reachable (hnil.symm ▸ ht.apart) (hnil.symm ▸ ht.room)
    rwa [hnil] at hperm
  refine ((sortBuckets_perm _).flatMap_right _).trans ?_
  rw [List.flatMap_append]
  simp only [List.flatMap_cons, List.flatMap_nil, List.append_nil]
  refine ((hhalves _ _ rfl rfl).append_left _).trans (List.perm_append_comm.trans ?_)
  exact ((perm_removeAll_one hb).flatMap_right _).symm

/-- The entries of the bucket of an id and the others, which a change in that bucket leaves
alone. -/
theorem Inv.entries_around (h : Inv T) (id : Id) :
    ∃ others, T.allEntries.Perm ((T.getBucket id).entries ++ others) ∧
      ∀ f, (T.modifyBucket id f).allEntries.Perm ((f (T.getBucket id)).entries ++ others) := by
  obtain ⟨pre, post, hsplit, hmod⟩ := h.modifyBucket_at id
  refine ⟨(pre ++ post).flatMap (·.entries), ?_, fun f => ?_⟩
  · have hmid := flatMap_entries_mid pre (T.getBucket id) post
    rwa [← hsplit] at hmid
  · rw [allEntries, hmod f]
    exact flatMap_entries_mid _ _ _

/-- A change in the bucket of an id changes the number of entries as it changes that of the
bucket. -/
theorem Inv.modifyBucket_length (h : Inv T) (id : Id) (f : KBucket → KBucket) :
    (T.modifyBucket id f).allEntries.length + (T.getBucket id).entries.length =
      T.allEntries.length + (f (T.getBucket id)).entries.length := by
  obtain ⟨others, hbefore, hafter⟩ := h.entries_around id
  rw [hbefore.length_eq, (hafter f).length_eq, List.length_append, List.length_append]
  omega

theorem Inv.modifyBucket_perm (h : Inv T) {f : KBucket → KBucket}
    (hf : (f (T.getBucket id)).entries.Perm (e :: (T.getBucket id).entries)) :
    (T.modifyBucket id f).allEntries.Perm (e :: T.allEntries) := by
  obtain ⟨others, hbefore, hafter⟩ := h.entries_around id
  exact (hafter f).trans ((hf.append_right others).trans (hbefore.symm.cons e))

/-- `put` adds at most one entry. -/
theorem put_length_le (h : Inv T) (ht : T.Tidy) (hput : T.put now e = some T') :
    T'.allEntries.length ≤ T.allEntries.length + 1 := by
  obtain ⟨T₁, ⟨h₁, -, hperm⟩, -, rfl⟩ :=
    put_rule (R := fun T₁ => Inv T₁ ∧ T₁.Tidy ∧ T₁.allEntries.Perm T.allEntries)
      (fun T₁ ⟨h₁, ht₁, hperm⟩ hs => by
        have hb := h₁.getBucket_mem e.nodeId
        refine ⟨(split_inv now h₁ hb _).1, tidy_stable.split ht₁ (ht₁ _ hb) _, ?_⟩
        exact (split_perm hb (ht₁ _ hb) _).trans hperm)
      ⟨h, ht, .refl _⟩ hput
  have hlen := h₁.modifyBucket_length e.nodeId (·.put now e)
  have hle := KBucket.put_length_le (T₁.getBucket e.nodeId) now e
  rw [← hperm.length_eq]
  omega

/-! ## Evaluation -/

/-- The binary search finds the first bucket that covers the id. -/
theorem Inv.indexOf_eq (h : Inv T) (id : Id) :
    indexOf T.buckets id = T.buckets.findIdx (·.pfx.isPrefixOf id) := by
  obtain ⟨i, hi, hidx, -, hcov⟩ := h.getBucket_spec id
  rw [hidx, (List.findIdx_eq hi).mpr ⟨hcov, fun j hj => ?_⟩]
  by_contra hne
  have hj' : covers T.buckets[j] id = true := by
    unfold covers
    simpa using hne
  exact absurd (h.cover.getElem_inj (hj.trans hi) hi hj' hcov) (by omega)

/-- The loop of `put` with a search from the first bucket on. -/
def scanLoop (now : UInt64) (entry : KBucketEntry) : Nat → RoutingTable → Option RoutingTable
  | 0, _ => none
  | fuel + 1, self =>
    let i := self.buckets.findIdx (·.pfx.isPrefixOf entry.nodeId)
    let bucket := self.buckets.getD i noBucket
    if h : needsSplit now bucket entry = true then
      scanLoop now entry fuel (self.split now bucket (isSplittable_of_needsSplit h))
    else some { self with buckets := self.buckets.modify i (·.put now entry) }

theorem Inv.put_eq_scan (h : Inv T) (now : UInt64) (e : KBucketEntry) :
    T.put now e = scanLoop now e 257 T := by
  have hloop (fuel : Nat) {T : RoutingTable} (h : Inv T) :
      RoutingTable.putLoop now e fuel T = scanLoop now e fuel T := by
    induction fuel generalizing T with
    | zero => rfl
    | succ fuel ih =>
      have hidx := h.indexOf_eq e.nodeId
      have hget : T.getBucket e.nodeId =
          T.buckets.getD (T.buckets.findIdx (·.pfx.isPrefixOf e.nodeId)) noBucket := by
        rw [getBucket, listGet, hidx, Int.toNat_natCast]
      unfold RoutingTable.putLoop scanLoop
      simp only [← hget, RoutingTable.modifyBucket, hidx, Int.toNat_natCast]
      split_ifs with hs
      · exact ih (split_inv now h (h.getBucket_mem e.nodeId) _).1
      · rfl
  exact hloop 257 h

/-- Entries put one after the other. -/
def scanAll (now : UInt64) (self : RoutingTable) (entries : List KBucketEntry) :
    Option RoutingTable :=
  entries.foldlM (fun self entry => scanLoop now entry 257 self) self

theorem Inv.run_puts (h : Inv T) (now : UInt64) (entries : List KBucketEntry) :
    T.run (entries.map (.put now)) = scanAll now T entries := by
  induction entries generalizing T with
  | nil => rfl
  | cons x entries ih =>
    obtain ⟨T₁, hput, h₁⟩ := put_inv now x h
    simp only [List.map_cons, run, scanAll, List.foldlM_cons, step, ← h.put_eq_scan, hput,
      Option.bind_eq_bind, Option.bind_some]
    exact ih h₁

theorem Inv.load_entries (h : Inv T) (now : UInt64) (entries : List KBucketEntry) :
    T.load now (entries.map some) = scanAll now T entries := by
  induction entries generalizing T with
  | nil => rfl
  | cons x entries ih =>
    obtain ⟨T₁, hput, h₁⟩ := put_inv now x h
    simp only [List.map_cons, load, scanAll, List.foldlM_cons, ← h.put_eq_scan, hput,
      Option.bind_eq_bind, Option.bind_some]
    exact ih h₁

end RoutingTable

end Boson
