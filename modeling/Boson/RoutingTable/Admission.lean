import Boson.RoutingTable.Contents

/-!
# Who gets into the routing table

A property of the id and the address of a node that all entries of a table have is kept by every
operation; only the entry that is put has to have it as well, and this only if it is reachable
(`all_stable`). A split, a merge and the maintenance put entries that are there already.

* `KBucketEntry.Closed`: what a property of single entries needs for this (`Closed.stable`,
  `Stable.maintenance`).
* `mem_modifyBucket`: the entry of an id, after a change in its bucket; `remove_all`: it is gone
  after `remove`.
-/

namespace Boson

/-- All entries of the bucket have the property. -/
def KBucket.Every (P : KBucketEntry → Prop) (b : KBucket) : Prop := ∀ e ∈ b.entries, P e

/-- All entries of the bucket have the property, which is about their id and address. -/
def KBucket.All (P : Id → SocketAddress → Prop) (b : KBucket) : Prop :=
  ∀ e ∈ b.entries, P e.nodeId e.sockaddr

/-- A property of entries that the operations on a bucket keep, as long as the entries that are put
are fit. -/
structure KBucketEntry.Closed (P Fit : KBucketEntry → Prop) : Prop where
  fit : ∀ {e : KBucketEntry}, P e → Fit e
  admitted : ∀ {e : KBucketEntry}, Fit e → e.reachable = true → P e
  merge : ∀ {x e : KBucketEntry}, P x → Fit e → P (x.merge e)
  timeout : ∀ {x : KBucketEntry}, P x → P x.signalRequestTimeout
  request : ∀ {x : KBucketEntry}, P x → ∀ now, P (x.signalRequest now)

namespace KBucket.Every

variable {P Fit : KBucketEntry → Prop} {b : KBucket} {e : KBucketEntry}

theorem modify (h : b.Every P) (i : Nat) {f : KBucketEntry → KBucketEntry}
    (hf : ∀ x, P x → P (f x)) :
    KBucket.Every P { b with entries := b.entries.modify i f } := by
  intro x hx
  obtain ⟨j, hj, rfl⟩ := List.getElem_of_mem hx
  simp only [List.getElem_modify]
  rw [List.length_modify] at hj
  have hold := h _ (List.getElem_mem hj)
  split_ifs
  · exact hf _ hold
  · exact hold

theorem update (h : b.Every P) (toRemove : Option KBucketEntry) {toInsert : Option KBucketEntry}
    (hins : ∀ e, toInsert = some e → P e) : (b.update toRemove toInsert).Every P := by
  obtain ⟨-, -, hsub | ⟨ins, kept, rfl, hsub, -, hperm⟩⟩ := update_spec b toRemove toInsert
  · exact fun x hx => h x (hsub.subset hx)
  · intro x hx
    obtain rfl | hx := List.mem_cons.mp (hperm.mem_iff.mp hx)
    · exact hins _ rfl
    · exact h x (hsub.subset hx)

theorem put (h : b.Every P) (hP : KBucketEntry.Closed P Fit) (now : UInt64) (he : Fit e) :
    (b.put now e).Every P := by
  have hins (hr : e.reachable = true) : ∀ x, some e = some x → P x := by
    rintro x ⟨⟩
    exact hP.admitted he hr
  obtain ⟨-, i, hput⟩ | ⟨-, ⟨hput, -⟩ | ⟨hr, -, hput⟩ | ⟨hr, -, r, -, hput⟩⟩ := put_cases b now e
  · rw [hput]
    refine h.modify i fun x hx => ?_
    split_ifs
    · exact hP.merge hx he
    · exact hx
  · rw [hput]
    exact h
  · rw [hput]
    exact h.update none (hins hr)
  · rw [hput]
    exact h.update (some r) (hins hr)

theorem removeIfBad (h : b.Every P) (now : UInt64) (e : KBucketEntry) (force : Bool) :
    (b.removeIfBad now e force).Every P := by
  unfold KBucket.removeIfBad
  split_ifs
  · exact h.update _ (by simp)
  · exact h

theorem onTimeout (h : b.Every P) (hP : KBucketEntry.Closed P Fit) (now : UInt64) (id : Id) :
    (b.onTimeout now id).Every P := by
  unfold KBucket.onTimeout
  split
  · exact h
  · next i _ =>
    have hmod : KBucket.Every P { b with entries := b.entries.modify i (·.signalRequestTimeout) } :=
      h.modify i fun _ hx => hP.timeout hx
    dsimp only
    split
    · exact hmod.removeIfBad now _ false
    · exact hmod

theorem onSend (h : b.Every P) (hP : KBucketEntry.Closed P Fit) (now : UInt64) (id : Id) :
    (b.onSend now id).Every P := by
  unfold KBucket.onSend
  split
  · exact h
  · exact h.modify _ fun _ hx => hP.request hx now

end KBucket.Every

/-- The operations of a table keep it as well. -/
theorem KBucketEntry.Closed.stable {P Fit : KBucketEntry → Prop} (hP : KBucketEntry.Closed P Fit) :
    RoutingTable.Stable (KBucket.Every P) Fit where
  empty _ _ e he := by cases he
  fit h e he := hP.fit (h e he)
  put h now _ he := h.put hP now he
  removeIfBad h := h.removeIfBad
  onTimeout h := h.onTimeout hP
  onSend h := h.onSend hP

namespace RoutingTable

/-! ## The maintenance -/

/-- The bucket at a position, changed in place. -/
def modifyAt (self : RoutingTable) (i : Nat) (f : KBucket → KBucket) : RoutingTable :=
  { self with buckets := self.buckets.modify i f }

/-- The body of the inner loop of `RoutingTable::_maintenance`, for the bucket at `i`. -/
def maintainEntry (now : UInt64) (bootstrapIds : List Id) (i : Nat) (wasFull : Bool)
    (self : RoutingTable) (entry : KBucketEntry) : RoutingTable :=
  if entry.nodeId = self.localId || (wasFull && bootstrapIds.contains entry.nodeId) then
    self.modifyAt i (·.removeIfBad now entry true)
  else if !(self.buckets.getD i noBucket).pfx.isPrefixOf entry.nodeId then
    -- never so: the buckets partition the ids
    let self := self.modifyAt i (·.removeIfBad now entry true)
    (self.put now entry).getD self
  else self

/-- The body of the outer loop. -/
def maintainBucket (now : UInt64) (bootstrapIds : List Id) (self : RoutingTable) (i : Nat) :
    RoutingTable :=
  let bucket := self.buckets.getD i noBucket
  bucket.entries.foldl (maintainEntry now bootstrapIds i bucket.isFull) self

/-- `RoutingTable::_maintenance`, when it is time for it. A refresh of a bucket is only queued. -/
def maintenance (self : RoutingTable) (now : UInt64) (bootstrapIds : List Id) : RoutingTable :=
  let self := self.mergeBuckets now
  (List.range self.buckets.length).foldl (maintainBucket now bootstrapIds) self

variable {T : RoutingTable} {now : UInt64} {id : Id} {e : KBucketEntry} {bootstrapIds : List Id}

theorem maintainEntry_inv (h : Inv T) (i : Nat) (wasFull : Bool) :
    Inv (maintainEntry now bootstrapIds i wasFull T e) := by
  have hremove : Inv (T.modifyAt i (·.removeIfBad now e true)) :=
    h.modifyAt (fun _ => KBucket.removeIfBad_keeps _ now e true fun _ => False) (by simp)
  unfold maintainEntry
  split_ifs
  · exact hremove
  · obtain ⟨T', hput, hinv⟩ := put_inv now e hremove
    dsimp only
    rw [hput]
    exact hinv
  · exact h

theorem maintenance_inv (h : Inv T) : Inv (T.maintenance now bootstrapIds) := by
  refine List.foldlRecOn (motive := Inv) _ _ (mergeLoop_inv h 0) fun T hT i _ => ?_
  exact List.foldlRecOn (motive := Inv) _ _ hT fun T hT x _ => maintainEntry_inv hT i _

theorem Stable.maintainEntry {Q : KBucket → Prop} {Fit : KBucketEntry → Prop} (s : Stable Q Fit)
    (h : T.Each Q) (he : Fit e) (i : Nat) (wasFull : Bool) :
    (RoutingTable.maintainEntry now bootstrapIds i wasFull T e).Each Q := by
  have hremove : (T.modifyAt i (·.removeIfBad now e true)).Each Q :=
    h.modifyAt i fun b hb => s.removeIfBad hb now e true
  unfold RoutingTable.maintainEntry
  split_ifs
  · exact hremove
  · dsimp only
    cases hput : (T.modifyAt i (·.removeIfBad now e true)).put now e with
    | none => exact hremove
    | some T' => exact s.putTable hremove he hput
  · exact h

/-- The maintenance keeps a stable property of the buckets. -/
theorem Stable.maintenance {Q : KBucket → Prop} {Fit : KBucketEntry → Prop} (s : Stable Q Fit)
    (h : T.Each Q) :
    (T.maintenance now bootstrapIds).Each Q := by
  refine List.foldlRecOn (motive := Each Q) _ _ (s.mergeLoop h 0) fun T hT i _ => ?_
  refine List.foldlRecOn (motive := Each Q) _ _ hT fun T' hT' x hx => ?_
  -- the inner loop goes over the entries that the bucket had before it
  exact s.maintainEntry hT' (s.fit (s.getD hT i) x hx) i _

/-! ## A property of all entries -/

/-- All entries of the table have the property. -/
def All (P : Id → SocketAddress → Prop) (T : RoutingTable) : Prop := ∀ b ∈ T.buckets, b.All P

variable {P : Id → SocketAddress → Prop}

theorem each_every_iff {P : KBucketEntry → Prop} : T.Each (KBucket.Every P) ↔
    ∀ e ∈ T.allEntries, P e := by
  simp only [Each, KBucket.Every, allEntries, List.mem_flatMap, forall_exists_index, and_imp]
  exact ⟨fun h e b hb he => h b hb e he, fun h b hb e he => h e b hb he⟩

theorem all_iff : T.All P ↔ ∀ e ∈ T.allEntries, P e.nodeId e.sockaddr :=
  each_every_iff (P := fun e => P e.nodeId e.sockaddr)

theorem getEntry_of_mem (h : Inv T) (he : e ∈ T.allEntries) : T.getEntry e.nodeId = some e := by
  obtain ⟨b, hb, he⟩ := List.mem_flatMap.mp he
  have hok := h.ok b hb
  rw [getEntry, h.getBucket_eq hb (hok.covered _ (List.mem_map_of_mem he)), KBucket.get]
  cases hfind : b.entries.find? (·.nodeId == e.nodeId) with
  | none =>
    have hne := List.find?_eq_none.mp hfind e he
    simp at hne
  | some x =>
    have hid : x.nodeId = e.nodeId := by simpa using List.find?_some hfind
    rw [List.inj_on_of_nodup_map hok.nodup (List.mem_of_find?_eq_some hfind) he hid]

theorem getEntry_eq_none (h : Inv T) (hne : ∀ x ∈ T.allEntries, x.nodeId ≠ id) :
    T.getEntry id = none := by
  rw [getEntry, KBucket.get, List.find?_eq_none]
  intro x hx
  simpa using hne x (List.mem_flatMap.mpr ⟨_, h.getBucket_mem id, hx⟩)

/-- The entry of an id, after a change in its bucket, comes out of that bucket. -/
theorem mem_modifyBucket (h : Inv T) {f : KBucket → KBucket} (h' : Inv (T.modifyBucket id f))
    (hf : (f (T.getBucket id)).pfx = (T.getBucket id).pfx)
    (he : e ∈ (T.modifyBucket id f).allEntries)
    (hid : e.nodeId = id) : e ∈ (f (T.getBucket id)).entries := by
  obtain ⟨pre, post, -, hmod⟩ := h.modifyBucket_at id
  have hbucket : (T.modifyBucket id f).getBucket id = f (T.getBucket id) := by
    refine h'.getBucket_eq ?_ ?_
    · rw [hmod]
      exact List.mem_append_right _ List.mem_cons_self
    · rw [hf]
      exact h.getBucket_covers id
  have hget := getEntry_of_mem h' he
  rw [hid, getEntry, hbucket] at hget
  exact List.mem_of_find?_eq_some hget

/-- After `remove`, no entry has the id. -/
theorem remove_all (h : Inv T) : (T.remove now id).All fun i _ => i ≠ id := by
  rw [all_iff]
  intro e he hid
  cases hget : (T.getBucket id).get id with
  | none =>
    rw [show T.remove now id = T by simp only [remove, hget]] at he
    have hmem := getEntry_of_mem h he
    rw [hid, getEntry, hget] at hmem
    cases hmem
  | some r =>
    have hremove : T.remove now id = T.modifyBucket id (·.removeIfBad now r true) := by
      simp only [remove, hget]
    have hinv : Inv (T.remove now id) := remove_inv h
    rw [hremove] at he hinv
    have hkept :=
      mem_modifyBucket h hinv (KBucket.removeIfBad_keeps _ now r true fun _ => False).pfx he hid
    -- the bucket had one entry with the id, and it is filtered out
    have hr := List.mem_of_find?_eq_some hget
    have hrid : r.nodeId = id := by simpa using List.find?_some hget
    have hexists : (T.getBucket id).exists r.nodeId = true := List.any_eq_true.mpr ⟨r, hr, by simp⟩
    have hentries : ((T.getBucket id).removeIfBad now r true).entries =
        (T.getBucket id).entries.filter (· != r) := by
      simp [KBucket.removeIfBad, hexists, KBucket.update]
    rw [hentries] at hkept
    obtain ⟨hmem, hne⟩ := List.mem_filter.mp hkept
    have hsame :=
      List.inj_on_of_nodup_map (h.ok _ (h.getBucket_mem id)).nodup hmem hr (hid.trans hrid.symm)
    simp [hsame] at hne

/-- A property of the id and the address holds of all entries, if it does of those that are put and
reachable. -/
theorem all_closed : KBucketEntry.Closed (fun e => P e.nodeId e.sockaddr)
    fun e => e.reachable = true → P e.nodeId e.sockaddr where
  fit h _ := h
  admitted h hr := h hr
  merge {x e} h _ := by
    rw [x.merge_nodeId e, x.merge_sockaddr e]
    exact h
  timeout h := h
  request h _ := h

theorem all_stable : Stable (KBucket.All P) fun e => e.reachable = true → P e.nodeId e.sockaddr :=
  all_closed.stable

theorem All.remove (h : T.All P) : (T.remove now id).All P := all_stable.remove h

end RoutingTable

end Boson
