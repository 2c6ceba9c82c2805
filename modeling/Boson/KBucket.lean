import Boson.Prefix
import Boson.SocketAddress
import Mathlib.Data.List.Sort
import Mathlib.Data.List.Nodup

/-!
# Buckets and their entries (`src/core/kbucket_entry.*`, `src/core/kbucket.*`)

The list of a bucket holds shared pointers in the source. No two pointers of one list are to the
same entry, and nothing changes an entry through a pointer held elsewhere, so the model holds the
entries themselves. An operation that reads the clock takes the time `now` as an argument;
`uint64_t` times wrap as in the source.

Each operation keeps the prefix, the home flag and the distinctness of the ids, and takes no id from
elsewhere (`Keeps`: `put_keeps`, `removeIfBad_keeps`, `onTimeout_keeps`, `onSend_keeps`,
`refresh_keeps`).
-/

namespace Boson

/-- `Constants`: routing table and bucket constants. -/
def MAX_ENTRIES_PER_BUCKET : Nat := 8
def KBUCKET_MAX_TIMEOUTS : Int := 5
def KBUCKET_OLD_AND_STALE_TIMEOUTS : Int := 2
def KBUCKET_OLD_AND_STALE_TIME : UInt64 := 15 * 60 * 1000

/-- `NodeInfo`. -/
structure NodeInfo where
  nodeId : Id
  sockaddr : SocketAddress
  version : Int := 0
  deriving DecidableEq

namespace NodeInfo

/-- `NodeInfo::matches`: the same id or the same address. -/
def «matches» (self other : NodeInfo) : Bool :=
  self.nodeId == other.nodeId || self.sockaddr == other.sockaddr

/-- `NodeInfo::equals`. -/
def equals (self other : NodeInfo) : Bool :=
  self.nodeId == other.nodeId && self.sockaddr == other.sockaddr

theorem nodeId_ne_of_not_matches {a b : NodeInfo} (h : a.matches b = false) :
    a.nodeId ≠ b.nodeId := by
  intro heq
  simp [NodeInfo.matches, heq] at h

end NodeInfo

/-- `KBucketEntry`. -/
structure KBucketEntry extends NodeInfo where
  created : UInt64 := 0
  lastSeen : UInt64 := 0
  lastSend : UInt64 := 0
  reachable : Bool := false
  failedRequests : Int := 0
  deriving DecidableEq

namespace KBucketEntry

/-- `KBucketEntry(id, addr, version)` at time `now`. -/
def new (now : UInt64) (id : Id) (addr : SocketAddress) (version : Int) : KBucketEntry :=
  { nodeId := id, sockaddr := addr, version := version, created := now, lastSeen := now }

/-- `KBucketEntry::isEligibleForNodesList`. -/
def isEligibleForNodesList (self : KBucketEntry) : Bool := self.reachable && self.failedRequests < 3

/-- `KBucketEntry::oldAndStale`. -/
def oldAndStale (self : KBucketEntry) (now : UInt64) : Bool :=
  self.failedRequests > KBUCKET_OLD_AND_STALE_TIMEOUTS &&
    now - self.lastSeen > KBUCKET_OLD_AND_STALE_TIME

/-- `KBucketEntry::removableWithoutReplacement`. -/
def removableWithoutReplacement (self : KBucketEntry) : Bool :=
  let seenSinceLastPing : Bool := self.lastSeen > self.lastSend
  self.failedRequests > KBUCKET_MAX_TIMEOUTS && !seenSinceLastPing

/-- `KBucketEntry::needsReplacement`. -/
def needsReplacement (self : KBucketEntry) (now : UInt64) : Bool :=
  (self.failedRequests > 1 && !self.reachable) ||
    (self.failedRequests > KBUCKET_MAX_TIMEOUTS && self.oldAndStale now)

/-- `KBucketEntry::signalResponse`. -/
def signalResponse (self : KBucketEntry) (now : UInt64) : KBucketEntry :=
  { self with lastSeen := now, failedRequests := 0, reachable := true }

/-- `KBucketEntry::signalRequest`. -/
def signalRequest (self : KBucketEntry) (now : UInt64) : KBucketEntry :=
  { self with lastSend := now }

/-- `KBucketEntry::mergeRequestTime`. -/
def mergeRequestTime (self : KBucketEntry) (requestSent : UInt64) : KBucketEntry :=
  { self with lastSend := max self.lastSend requestSent }

/-- `KBucketEntry::signalRequestTimeout`. -/
def signalRequestTimeout (self : KBucketEntry) : KBucketEntry :=
  { self with failedRequests := if self.failedRequests ≤ 0 then 1 else self.failedRequests + 1 }

/-- `KBucketEntry::merge`. Merging an entry into itself changes nothing, so the pointer comparison
of the source is left out. -/
def merge (self other : KBucketEntry) : KBucketEntry :=
  if self.equals other.toNodeInfo then
    { self with
      created := min self.created other.created
      lastSeen := max self.lastSeen other.lastSeen
      lastSend := max self.lastSend other.lastSend
      reachable := self.reachable || other.reachable
      failedRequests :=
        if other.failedRequests > 0 then min self.failedRequests other.failedRequests
        else self.failedRequests }
  else self

@[simp] theorem signalRequest_nodeId (e : KBucketEntry) (now : UInt64) :
    (e.signalRequest now).nodeId = e.nodeId := rfl

@[simp] theorem signalRequestTimeout_nodeId (e : KBucketEntry) :
    e.signalRequestTimeout.nodeId = e.nodeId := rfl

@[simp] theorem merge_nodeId (e e' : KBucketEntry) : (e.merge e').nodeId = e.nodeId := by
  unfold merge
  split <;> rfl

end KBucketEntry

/-- `KBucket`. -/
structure KBucket where
  pfx : Prefix
  homeBucket : Bool
  entries : List KBucketEntry := []
  lastRefresh : UInt64 := 0
  deriving DecidableEq

namespace KBucket

/-- `KBucket::isFull`. -/
def isFull (self : KBucket) : Bool := self.entries.length ≥ MAX_ENTRIES_PER_BUCKET

/-- `KBucket::get`. -/
def get (self : KBucket) (id : Id) : Option KBucketEntry := self.entries.find? (·.nodeId == id)

/-- `KBucket::exists`. -/
def «exists» (self : KBucket) (id : Id) : Bool := self.entries.any (·.nodeId == id)

/-- `KBucket::needsReplacement`. -/
def needsReplacement (self : KBucket) (now : UInt64) : Bool :=
  self.entries.any (·.needsReplacement now)

/-- `newEntries.sort(sortKBucketEntry)`: `std::list::sort` is stable. -/
def sortByCreation (entries : List KBucketEntry) : List KBucketEntry :=
  entries.insertionSort fun a b => a.created ≤ b.created

/-- `KBucket::_update(toRemove, toInsert)`. -/
def update (self : KBucket) (toRemove toInsert : Option KBucketEntry) : KBucket :=
  if toInsert.any fun ins => self.entries.any fun entry => ins.matches entry.toNodeInfo then self
  else
    let newEntries :=
      match toRemove with
      | some r => self.entries.filter (· != r)
      | none => self.entries
    let removed := toRemove.isSome
    match toInsert with
    | none => if removed then { self with entries := newEntries } else self
    | some ins =>
      let wasFull := newEntries.length ≥ MAX_ENTRIES_PER_BUCKET
      let youngest := newEntries.getLast?
      let unorderedInsert := youngest.any (ins.created < ·.created)
      let added := !wasFull || unorderedInsert
      let newEntries := if added then newEntries ++ [ins] else newEntries
      let newEntries := if unorderedInsert then sortByCreation newEntries else newEntries
      if added || removed then { self with entries := newEntries } else self

/-- `KBucket::_put`. -/
def put (self : KBucket) (now : UInt64) (newEntry : KBucketEntry) : KBucket :=
  -- an entry that equals the new one also matches it, so the loop stops at the first match
  match self.entries.findIdx? (·.matches newEntry.toNodeInfo) with
  | some i =>
    { self with
      entries := self.entries.modify i fun entry =>
        if entry.equals newEntry.toNodeInfo then entry.merge newEntry else entry }
  | none =>
    if newEntry.reachable then
      if self.entries.length < MAX_ENTRIES_PER_BUCKET then self.update none (some newEntry)
      else
        match self.entries.find? (·.needsReplacement now) with
        | some bad => self.update (some bad) (some newEntry)
        | none =>
          match self.entries.getLast? with
          | some youngest =>
            if youngest.created > newEntry.created then self.update (some youngest) (some newEntry)
            else self
          | none => self
    else self

/-- `KBucket::_removeIfBad`. -/
def removeIfBad (self : KBucket) (now : UInt64) (toRemove : KBucketEntry)
    (force : Bool) : KBucket :=
  if (force || toRemove.needsReplacement now) && self.exists toRemove.nodeId then
    self.update (some toRemove) none
  else self

/-- `KBucket::_onTimeout`. -/
def onTimeout (self : KBucket) (now : UInt64) (id : Id) : KBucket :=
  match self.entries.findIdx? (·.nodeId == id) with
  | none => self
  | some i =>
    let self := { self with entries := self.entries.modify i (·.signalRequestTimeout) }
    match self.entries[i]? with
    | some entry => self.removeIfBad now entry false
    | none => self

/-- `KBucket::_onSend`. -/
def onSend (self : KBucket) (now : UInt64) (id : Id) : KBucket :=
  match self.entries.findIdx? (·.nodeId == id) with
  | none => self
  | some i => { self with entries := self.entries.modify i (·.signalRequest now) }

/-- `KBucket::_update(toRefresh)`. -/
def refresh (self : KBucket) (toRefresh : KBucketEntry) : KBucket :=
  match self.entries.findIdx? (·.equals toRefresh.toNodeInfo) with
  | some i => { self with entries := self.entries.modify i (·.merge toRefresh) }
  | none => self

/-! ## The ids of a bucket -/

/-- The ids of the entries. -/
def ids (self : KBucket) : List Id := self.entries.map (·.nodeId)

variable {b : KBucket} {e : KBucketEntry} {now : UInt64} {id : Id}

/-- Changing one entry in place without touching its id. -/
theorem map_modify_nodeId {l : List KBucketEntry} {i : Nat} {f : KBucketEntry → KBucketEntry}
    (hf : ∀ x, (f x).nodeId = x.nodeId) : (l.modify i f).map (·.nodeId) = l.map (·.nodeId) := by
  apply List.ext_getElem
  · simp
  · intro j h1 h2
    simp only [List.getElem_map, List.getElem_modify]
    split
    · exact hf _
    · rfl

theorem sortByCreation_perm (l : List KBucketEntry) : (sortByCreation l).Perm l :=
  List.perm_insertionSort _ l

/-- What an update does to a bucket: it keeps the flags, and its entries are, up to order, some of
the old ones and at most the new one, which matches none of the old. -/
theorem update_spec (b : KBucket) (toRemove toInsert : Option KBucketEntry) :
    (b.update toRemove toInsert).pfx = b.pfx ∧
      (b.update toRemove toInsert).homeBucket = b.homeBucket ∧
      ((b.update toRemove toInsert).entries.Sublist b.entries ∨
        ∃ ins kept, toInsert = some ins ∧ kept.Sublist b.entries ∧
          (∀ x ∈ b.entries, ins.matches x.toNodeInfo = false) ∧
          (b.update toRemove toInsert).entries.Perm (ins :: kept)) := by
  unfold update
  split
  · exact ⟨rfl, rfl, .inl (List.Sublist.refl _)⟩
  rename_i hno
  generalize hnew : (match toRemove with
    | some r => b.entries.filter (· != r)
    | none => b.entries) = new
  have hsub : new.Sublist b.entries := by
    subst hnew
    cases toRemove with
    | none => exact List.Sublist.refl _
    | some r => exact List.filter_sublist
  cases toInsert with
  | none =>
    simp only
    split
    · exact ⟨rfl, rfl, .inl hsub⟩
    · exact ⟨rfl, rfl, .inl (List.Sublist.refl _)⟩
  | some ins =>
    have hins : ∀ x ∈ b.entries, ins.matches x.toNodeInfo = false := by
      intro x hx
      simp only [Option.any_some, List.any_eq_true, not_exists, not_and, Bool.not_eq_true] at hno
      exact hno x hx
    simp only
    generalize new.getLast?.any (fun y => decide (ins.created < y.created)) = uo
    generalize hadd : (!decide (new.length ≥ MAX_ENTRIES_PER_BUCKET) || uo) = added
    split
    · refine ⟨rfl, rfl, ?_⟩
      simp only
      cases added with
      | false =>
        -- nothing was added, so the insert was not an unordered one either
        have huo : uo = false := by
          cases uo
          · rfl
          · simp at hadd
        subst huo
        exact .inl (by simpa using hsub)
      | true =>
        refine .inr ⟨ins, new, rfl, hsub, hins, ?_⟩
        have happ : (new ++ [ins]).Perm (ins :: new) := by
          simp
        cases uo with
        | false => simp
        | true => simpa using (sortByCreation_perm _).trans happ
    · exact ⟨rfl, rfl, .inl (List.Sublist.refl _)⟩

/-- An operation keeps the prefix and the flag, keeps ids distinct and adds at most the ids
`new`. -/
structure Keeps (b b' : KBucket) (new : Id → Prop) : Prop where
  pfx : b'.pfx = b.pfx
  home : b'.homeBucket = b.homeBucket
  nodup : b.ids.Nodup → b'.ids.Nodup
  mem : ∀ x ∈ b'.ids, x ∈ b.ids ∨ new x

theorem Keeps.refl (b : KBucket) (new : Id → Prop) : Keeps b b new := ⟨rfl, rfl, id, fun _ => .inl⟩

theorem Keeps.trans {b b' b'' : KBucket} {new : Id → Prop} (h : Keeps b b' new)
    (h' : Keeps b' b'' new) : Keeps b b'' new where
  pfx := h'.pfx.trans h.pfx
  home := h'.home.trans h.home
  nodup hn := h'.nodup (h.nodup hn)
  mem x hx := (h'.mem x hx).elim (h.mem x) .inr

theorem keeps_of_ids {entries : List KBucketEntry} {new : Id → Prop}
    (h : entries.map (·.nodeId) = b.ids) : Keeps b { b with entries := entries } new :=
  ⟨rfl, rfl, fun hn => by simpa only [ids, h] using hn, fun x hx =>
    .inl (by simpa only [ids, h] using hx)⟩

theorem update_keeps (b : KBucket) (toRemove toInsert : Option KBucketEntry) :
    Keeps b (b.update toRemove toInsert) fun x => ∃ ins, toInsert = some ins ∧ x = ins.nodeId := by
  obtain ⟨hp, hh, hsub | ⟨ins, kept, rfl, hsub, hins, hperm⟩⟩ := update_spec b toRemove toInsert
  · have hids : (b.update toRemove toInsert).ids.Sublist b.ids := hsub.map _
    exact ⟨hp, hh, fun hn => hn.sublist hids, fun x hx => .inl (hids.subset hx)⟩
  · have hids : (b.update toRemove (some ins)).ids.Perm (ins.nodeId :: kept.map (·.nodeId)) := by
      simpa [ids] using hperm.map (·.nodeId)
    refine ⟨hp, hh, fun hn => ?_, fun x hx => ?_⟩
    · refine hids.nodup_iff.mpr (List.nodup_cons.mpr ⟨?_, hn.sublist (hsub.map _)⟩)
      rintro hmem
      obtain ⟨y, hy, hyid⟩ := List.mem_map.mp hmem
      exact NodeInfo.nodeId_ne_of_not_matches (hins y (hsub.subset hy)) hyid.symm
    · rcases List.mem_cons.mp (hids.mem_iff.mp hx) with rfl | hx
      · exact .inr ⟨ins, rfl, rfl⟩
      · exact .inl ((hsub.map _).subset hx)

theorem update_insert_keeps (b : KBucket) (toRemove : Option KBucketEntry) (e : KBucketEntry) :
    Keeps b (b.update toRemove (some e)) (· = e.nodeId) := by
  refine { update_keeps b toRemove (some e) with mem := fun x hx => ?_ }
  obtain h | ⟨ins, hins, rfl⟩ := (update_keeps b toRemove (some e)).mem x hx
  · exact .inl h
  · cases hins
    exact .inr rfl

theorem update_remove_keeps (b : KBucket) (toRemove : Option KBucketEntry) (new : Id → Prop) :
    Keeps b (b.update toRemove none) new := by
  refine { update_keeps b toRemove none with mem := fun x hx => ?_ }
  obtain h | ⟨ins, hins, -⟩ := (update_keeps b toRemove none).mem x hx
  · exact .inl h
  · cases hins

theorem put_keeps (b : KBucket) (now : UInt64) (e : KBucketEntry) :
    Keeps b (b.put now e) (· = e.nodeId) := by
  unfold put
  split
  · refine keeps_of_ids (map_modify_nodeId fun x => ?_)
    split
    · exact KBucketEntry.merge_nodeId _ _
    · rfl
  · split
    · split
      · exact update_insert_keeps b _ e
      · split
        · exact update_insert_keeps b _ e
        · split
          · split
            · exact update_insert_keeps b _ e
            · exact Keeps.refl b _
          · exact Keeps.refl b _
    · exact Keeps.refl b _

theorem removeIfBad_keeps (b : KBucket) (now : UInt64) (e : KBucketEntry) (force : Bool)
    (new : Id → Prop) : Keeps b (b.removeIfBad now e force) new := by
  unfold removeIfBad
  split
  · exact update_remove_keeps b _ new
  · exact Keeps.refl b new

theorem onTimeout_keeps (b : KBucket) (now : UInt64) (id : Id) (new : Id → Prop) :
    Keeps b (b.onTimeout now id) new := by
  unfold onTimeout
  split
  · exact Keeps.refl b new
  · rename_i i _
    have hmod : Keeps b { b with entries := b.entries.modify i (·.signalRequestTimeout) } new :=
      keeps_of_ids (map_modify_nodeId fun _ => rfl)
    simp only
    split
    · exact hmod.trans (removeIfBad_keeps _ now _ false new)
    · exact hmod

theorem onSend_keeps (b : KBucket) (now : UInt64) (id : Id) (new : Id → Prop) :
    Keeps b (b.onSend now id) new := by
  unfold onSend
  split
  · exact Keeps.refl b new
  · exact keeps_of_ids (map_modify_nodeId fun _ => rfl)

theorem refresh_keeps (b : KBucket) (e : KBucketEntry) (new : Id → Prop) :
    Keeps b (b.refresh e) new := by
  unfold refresh
  split
  · exact keeps_of_ids (map_modify_nodeId fun x => x.merge_nodeId e)
  · exact Keeps.refl b new

end KBucket

end Boson
