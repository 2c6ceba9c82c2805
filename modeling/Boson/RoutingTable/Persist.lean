import Boson.Lib.Runs
import Boson.RoutingTable.Admission
import Boson.RoutingTable.Contents

/-!
# The persisted routing table (`KBucketEntry::toJson`, `fromJson`, `RoutingTable::save`, `load`)

`save` writes the entries bucket by bucket, and `load` puts them one by one into a new table. The
buckets of that table are the ids with 0, 1, 2, .. leading ones and no more, and a last one with all
ids that have more: `put` splits a bucket only for an entry of its high half, and the entries of a
low half come first.

* `Restorable`: what the entries have to be like for all of them to get in.
* `Loaded.put`: what one `put` of `load` does; `load_spec`: what `load` does.
* `restore_save_iff`: a table comes back from its file exactly if its entries are restorable.
-/

namespace Boson

open Keyspace

/-- An entry in the file: what `KBucketEntry::toJson` writes. CBOR and the file keep it. -/
structure StoredEntry where
  id : Id
  addr : List UInt8
  port : UInt16
  created : UInt64
  lastSeen : UInt64
  lastSend : UInt64
  failedRequests : Int
  reachable : Bool
  version : Int
  deriving DecidableEq

namespace KBucketEntry

/-- `KBucketEntry::toJson`. -/
def toJson (self : KBucketEntry) : StoredEntry where
  id := self.nodeId
  addr := self.sockaddr.inaddr
  port := self.sockaddr.port
  created := self.created
  lastSeen := self.lastSeen
  lastSend := self.lastSend
  failedRequests := self.failedRequests
  reachable := self.reachable
  version := self.version

/-- `KBucketEntry::fromJson`; `none` if the constructor of the address throws. -/
def fromJson (root : StoredEntry) : Option KBucketEntry :=
  (SocketAddress.ofBlob? root.addr root.port).map fun addr =>
    { nodeId := root.id, sockaddr := addr, version := root.version, created := root.created,
      lastSeen := root.lastSeen, lastSend := root.lastSend, reachable := root.reachable,
      failedRequests := root.failedRequests }

end KBucketEntry

namespace RoutingTable

/-- `RoutingTable::save`: the entries of the file, `none` if it is left empty. The timestamp is only
logged. -/
def save (self : RoutingTable) : Option (List StoredEntry) :=
  if self.allEntries.length = 0 then none else some (self.allEntries.map KBucketEntry.toJson)

/-- `RoutingTable::load` of a file. -/
def restore (self : RoutingTable) (now : UInt64) : Option (List StoredEntry) → Option RoutingTable
  | none => some self
  | some nodes => self.load now (nodes.map KBucketEntry.fromJson)

theorem restore_save (T T₀ : RoutingTable) (now : UInt64) :
    T₀.restore now T.save = T₀.load now (T.allEntries.map fun e =>
      KBucketEntry.fromJson e.toJson) := by
  unfold save
  split_ifs with hnone
  · rw [List.length_eq_zero_iff.mp hnone]
    rfl
  · simp only [restore, List.map_map]
    rfl

theorem restore_inv {T : RoutingTable} (h : Inv T) (now : UInt64)
    (file : Option (List StoredEntry)) :
    ∃ T', T.restore now file = some T' ∧ Inv T' := by
  cases file with
  | none => exact ⟨T, rfl, h⟩
  | some nodes => exact load_inv h _

end RoutingTable

/-! ## Addresses -/

/-- The address is restored from its IP and port: an IPv6 address has no flow info and no scope. -/
def SocketAddress.Storable : SocketAddress → Prop
  | empty => False
  | inet _ _ => True
  | inet6 _ _ flowinfo scopeId => flowinfo = 0 ∧ scopeId = 0

theorem SocketAddress.ofBlob?_inaddr {a : SocketAddress} :
    ofBlob? a.inaddr a.port = some a ↔ a.Storable := by
  cases a with
  | empty => exact iff_of_false (by decide) not_false
  | inet ip port => exact iff_of_true (by simp [ofBlob?, inaddr, SocketAddress.port]) trivial
  | inet6 ip port flowinfo scopeId =>
    have h4 : Bytes.ofList? 4 ip.data = none := by simp [Bytes.ofList?, ip.size_eq]
    simp only [ofBlob?, inaddr, h4, SocketAddress.port, Bytes.ofList?_data, Option.map_some,
      Option.some.injEq, inet6.injEq, true_and, Storable]
    exact and_congr eq_comm eq_comm

theorem KBucketEntry.fromJson_toJson {e : KBucketEntry} (h : e.sockaddr.Storable) :
    fromJson e.toJson = some e := by
  have haddr := SocketAddress.ofBlob?_inaddr.mpr h
  simp only [fromJson, toJson, haddr, Option.map_some]

/-! ## Leading ones -/

namespace Id

/-- The number of ones before the first zero. -/
def leadingOnes (x : Id) : Nat := (List.range 256).findIdx fun i => !x.bit i

variable {x y : Id} {k : Nat}

theorem le_leadingOnes : k ≤ x.leadingOnes ↔ ∀ i < k, x.bit i = true := by
  constructor
  · intro h i hi
    have hlen : i < (List.range 256).length := (hi.trans_le h).trans_le List.findIdx_le_length
    have hnot := List.not_of_lt_findIdx (hi.trans_le h)
    simpa using hnot
  · intro h
    by_contra hlt
    have hlen : x.leadingOnes < (List.range 256).length := by
      by_contra hge
      -- all bits are ones up to 256, where there is none
      have := h 256 (by simp at hge; omega)
      rw [x.bit_of_le le_rfl] at this
      cases this
    have hzero : (!x.bit (List.range 256)[x.leadingOnes]) = true :=
      List.findIdx_getElem (p := fun i => !x.bit i)
    rw [List.getElem_range, h x.leadingOnes (Nat.not_le.mp hlt)] at hzero
    cases hzero

theorem bit_leadingOnes (x : Id) : x.bit x.leadingOnes = false := by
  by_contra hbit
  have hle : x.leadingOnes + 1 ≤ x.leadingOnes := le_leadingOnes.mpr fun i hi => by
    obtain hlt | rfl := Nat.lt_succ_iff_lt_or_eq.mp hi
    · exact le_leadingOnes.mp le_rfl i hlt
    · simpa using hbit
  omega

theorem bit_eq_true_iff (h : k ≤ x.leadingOnes) : x.bit k = true ↔ k < x.leadingOnes := by
  refine ⟨fun hbit => lt_of_le_of_ne h ?_, fun hlt => le_leadingOnes.mp hlt k (Nat.lt_succ_self k)⟩
  rintro rfl
  rw [bit_leadingOnes] at hbit
  cases hbit

/-- Ids that begin with the same ones. -/
theorem agree_iff_le_leadingOnes (h : k ≤ x.leadingOnes) : Agree k x.key y.key ↔
    k ≤ y.leadingOnes := by
  have hx := le_leadingOnes.mp h
  rw [le_leadingOnes]
  refine forall_congr' fun i => forall_congr' fun hi => ?_
  rw [key_apply, key_apply, hx i hi]
  exact eq_comm

/-- Ids that begin with the same ones and a zero. -/
theorem agree_iff_leadingOnes_eq :
    Agree (x.leadingOnes + 1) x.key y.key ↔ y.leadingOnes = x.leadingOnes := by
  rw [agree_succ, agree_iff_le_leadingOnes le_rfl, key_apply, key_apply, bit_leadingOnes]
  constructor
  · rintro ⟨hle, hbit⟩
    by_contra hne
    have := le_leadingOnes.mp (show x.leadingOnes + 1 ≤ y.leadingOnes by omega)
        x.leadingOnes (by omega)
    rw [← hbit] at this
    cases this
  · intro h
    exact ⟨h.ge, by rw [← h, bit_leadingOnes]⟩

/-- An id with more leading ones is greater. -/
theorem lt_of_leadingOnes_lt (h : x.leadingOnes < y.leadingOnes) : x < y := by
  refine lt_iff_key.mpr (lt_iff.mpr ⟨x.leadingOnes, ?_, bit_leadingOnes x, ?_⟩)
  · exact (agree_iff_le_leadingOnes le_rfl).mpr h.le
  · exact le_leadingOnes.mp h x.leadingOnes (Nat.lt_succ_self _)

end Id

namespace RoutingTable

/-- The number of entries with at least `k` leading ones. -/
def atLeast (k : Nat) (l : List KBucketEntry) : Nat := l.countP fun x => k ≤ x.nodeId.leadingOnes

/-- All entries of a list get into a new table, one after the other at time `now`. -/
structure Restorable (now : UInt64) (l : List KBucketEntry) : Prop where
  /-- The addresses can be restored. -/
  address : ∀ e ∈ l, e.sockaddr.Storable
  /-- At most 8 entries have the same number of leading ones. -/
  room : ∀ k, l.countP (fun x => x.nodeId.leadingOnes = k) ≤ MAX_ENTRIES_PER_BUCKET
  /-- Where more than 8 have at least `k` leading ones, none of the first 8 of them is replaced. -/
  good : ∀ k, MAX_ENTRIES_PER_BUCKET < atLeast k l →
    ∀ x ∈ (l.filter fun x => k ≤ x.nodeId.leadingOnes).take MAX_ENTRIES_PER_BUCKET,
      x.needsReplacement now = false
  /-- An earlier entry with the same address is in a bucket of its own by then. -/
  alone : Runs.Every
    (fun pre e => ∀ x ∈ pre, x.sockaddr = e.sockaddr →
      MAX_ENTRIES_PER_BUCKET < atLeast x.nodeId.leadingOnes (pre ++ [e])) l

/-- An entry gets into the table after those of `pre`. -/
structure Fits (now : UInt64) (pre : List KBucketEntry) (e : KBucketEntry) : Prop where
  room : atLeast e.nodeId.leadingOnes pre < MAX_ENTRIES_PER_BUCKET
  good : ∀ k ≤ e.nodeId.leadingOnes, atLeast k pre = MAX_ENTRIES_PER_BUCKET →
    ∀ x ∈ pre, k ≤ x.nodeId.leadingOnes → x.needsReplacement now = false
  alone : ∀ x ∈ pre, x.sockaddr = e.sockaddr →
    MAX_ENTRIES_PER_BUCKET ≤ atLeast x.nodeId.leadingOnes pre

variable {T T' : RoutingTable} {now : UInt64} {e : KBucketEntry}
    {l pre : List KBucketEntry} {k m : Nat}

theorem atLeast_anti (l : List KBucketEntry) (h : k ≤ m) : atLeast m l ≤ atLeast k l := by
  refine List.countP_mono_left fun x _ hx => ?_
  simp only [decide_eq_true_eq] at hx ⊢
  exact h.trans hx

theorem atLeast_concat (k : Nat) (pre : List KBucketEntry) (e : KBucketEntry) :
    atLeast k (pre ++ [e]) = atLeast k pre + if k ≤ e.nodeId.leadingOnes then 1 else 0 := by
  simp only [atLeast, List.countP_append, List.countP_singleton, decide_eq_true_eq]

/-! ## The table while it is loaded -/

/-- The table has the entries `l`, and its buckets are the ids with 0, 1, .., `m - 1` leading ones,
and those with at least `m`. -/
structure Spine (l : List KBucketEntry) (m : Nat) (T : RoutingTable) : Prop where
  inv : Inv T
  tidy : T.Tidy
  perm : T.allEntries.Perm l
  shape : ∀ x, (T.getBucket x).pfx.len = min m (x.leadingOnes + 1)

/-- The table after all entries `l` got in: a bucket is split once it has more than 8. -/
def Loaded (l : List KBucketEntry) (T : RoutingTable) : Prop :=
  ∃ m, Spine l m T ∧ ∀ k, k < m ↔ MAX_ENTRIES_PER_BUCKET < atLeast k l

theorem loaded_init (localId : Id) : Loaded [] (init localId) := by
  refine ⟨0, ⟨init_inv localId, init_tidy localId, .nil, fun x => ?_⟩, fun k => by simp [atLeast]⟩
  have hget := (init_inv localId).getBucket_mem x
  rw [List.mem_singleton.mp hget, Nat.zero_min]
  rfl

namespace Spine

variable {x y : Id}

theorem covers_iff (h : Spine l m T) (x y : Id) :
    (T.getBucket x).pfx.isPrefixOf y = true ↔ Agree (min m (x.leadingOnes + 1)) x.key y.key := by
  have hx := Prefix.isPrefixOf_iff.mp (h.inv.getBucket_covers x)
  rw [Prefix.isPrefixOf_iff, h.shape] at *
  exact ⟨hx.symm.trans, hx.trans⟩

/-- The last bucket. -/
theorem covers_top (h : Spine l m T) (hx : m ≤ x.leadingOnes) :
    (T.getBucket x).pfx.isPrefixOf y = true ↔ m ≤ y.leadingOnes := by
  rw [h.covers_iff, min_eq_left (by omega), Id.agree_iff_le_leadingOnes hx]

/-- The other buckets. -/
theorem covers_low (h : Spine l m T) (hx : x.leadingOnes < m) :
    (T.getBucket x).pfx.isPrefixOf y = true ↔ y.leadingOnes = x.leadingOnes := by
  rw [h.covers_iff, min_eq_right (by omega), Id.agree_iff_leadingOnes_eq]

theorem entries_perm (h : Spine l m T) (x : Id) :
    (T.getBucket x).entries.Perm (l.filter fun y => (T.getBucket x).pfx.isPrefixOf y.nodeId) := by
  have hfilter := h.inv.filter_covers (h.inv.getBucket_mem x)
  have hperm := h.perm.filter fun y => (T.getBucket x).pfx.isPrefixOf y.nodeId
  rwa [hfilter] at hperm

theorem top_mem (h : Spine l m T) (hx : m ≤ x.leadingOnes) {y : KBucketEntry} :
    y ∈ (T.getBucket x).entries ↔ y ∈ l ∧ m ≤ y.nodeId.leadingOnes := by
  rw [(h.entries_perm x).mem_iff, List.mem_filter, h.covers_top hx]

theorem top_length (h : Spine l m T) (hx : m ≤ x.leadingOnes) :
    (T.getBucket x).entries.length = atLeast m l := by
  rw [(h.entries_perm x).length_eq, ← List.countP_eq_length_filter, atLeast]
  refine List.countP_congr fun y _ => ?_
  rw [h.covers_top hx, decide_eq_true_eq]

theorem low_length (h : Spine l m T) (hx : x.leadingOnes < m) :
    (T.getBucket x).entries.length = l.countP fun y => y.nodeId.leadingOnes = x.leadingOnes := by
  rw [(h.entries_perm x).length_eq, ← List.countP_eq_length_filter]
  refine List.countP_congr fun y _ => ?_
  rw [h.covers_low hx, decide_eq_true_eq]

theorem bucket_tidy (h : Spine l m T) (x : Id) : (T.getBucket x).Tidy :=
  h.tidy _ (h.inv.getBucket_mem x)

/-- A full bucket covers more than one id. -/
theorem splittable (h : Spine l m T) (hx : m ≤ x.leadingOnes)
    (hfull : MAX_ENTRIES_PER_BUCKET ≤ atLeast m l) : (T.getBucket x).pfx.isSplittable = true := by
  have hok := h.inv.ok _ (h.inv.getBucket_mem x)
  have hlen : (T.getBucket x).ids.length = atLeast m l := by
    rw [KBucket.ids, List.length_map, h.top_length hx]
  by_contra hnot
  have hdepth : 256 ≤ (T.getBucket x).pfx.len := by
    have hge : ¬ (T.getBucket x).pfx.depth < Id.BITS - 1 := fun hlt => hnot (decide_eq_true hlt)
    have hdepth := (T.getBucket x).pfx.depth_eq
    simp only [Id.BITS] at hge
    omega
  have hsame : (T.getBucket x).ids = List.replicate (atLeast m l) (T.getBucket x).pfx.id := by
    refine List.eq_replicate_iff.mpr ⟨hlen, fun y hy => ?_⟩
    have hagree := Prefix.isPrefixOf_iff.mp (hok.covered y hy)
    exact Id.ext_bit fun i hi => (hagree i (by omega)).symm
  have hnodup := hok.nodup
  rw [hsame, List.nodup_replicate] at hnodup
  simp only [MAX_ENTRIES_PER_BUCKET] at hfull
  omega

theorem split (h : Spine l m T) (hx : m ≤ x.leadingOnes)
    (hs : (T.getBucket x).pfx.isSplittable = true) :
    Spine l (m + 1) (T.split now (T.getBucket x) hs) := by
  have hmem := h.inv.getBucket_mem x
  have hlen : (T.getBucket x).pfx.len = m := by rw [h.shape, min_eq_left (by omega)]
  obtain ⟨hinv, hbranch⟩ := split_inv now h.inv hmem hs
  refine ⟨hinv, tidy_stable.split h.tidy (h.bucket_tidy x) hs,
    (split_perm hmem (h.bucket_tidy x) hs).trans h.perm, fun y => ?_⟩
  by_cases hy : m ≤ y.leadingOnes
  · obtain ⟨b, hb, hpfx⟩ := hbranch (y.bit m)
    have hcov : b.pfx.isPrefixOf y = true := by
      rw [hpfx, Prefix.isPrefixOf_splitBranch, hlen]
      exact ⟨(h.covers_top hx).mpr hy, rfl⟩
    rw [hinv.getBucket_eq hb hcov, hpfx, Prefix.splitBranch_len, hlen]
    omega
  · have hne : T.getBucket y ≠ T.getBucket x := by
      intro heq
      have hcov := h.inv.getBucket_covers y
      rw [heq, h.covers_top hx] at hcov
      exact hy hcov
    rw [hinv.getBucket_eq (mem_split_of_ne (h.inv.getBucket_mem y) hne hs)
      (h.inv.getBucket_covers y), h.shape]
    omega

/-- When the last bucket is split for an entry. -/
theorem needsSplit_iff (h : Spine l m T) (hm : m ≤ e.nodeId.leadingOnes) (hr : e.reachable = true)
    (hid : ∀ x ∈ l, x.nodeId ≠ e.nodeId) :
    needsSplit now (T.getBucket e.nodeId) e = true ↔
      MAX_ENTRIES_PER_BUCKET ≤ atLeast m l ∧
        (∀ x ∈ l, m ≤ x.nodeId.leadingOnes → x.needsReplacement now = false) ∧
        m < e.nodeId.leadingOnes := by
  have hlen : (T.getBucket e.nodeId).pfx.len = m := by rw [h.shape, min_eq_left (by omega)]
  have hfull : (T.getBucket e.nodeId).isFull = true ↔ MAX_ENTRIES_PER_BUCKET ≤ atLeast m l := by
    rw [KBucket.isFull, decide_eq_true_eq, h.top_length hm]
  have hexists : (T.getBucket e.nodeId).exists e.nodeId = false := by
    rw [KBucket.exists, List.any_eq_false]
    intro x hx
    simpa using hid x ((h.top_mem hm).mp hx).1
  have hgood : (T.getBucket e.nodeId).needsReplacement now = false ↔
      ∀ x ∈ l, m ≤ x.nodeId.leadingOnes → x.needsReplacement now = false := by
    simp only [KBucket.needsReplacement, List.any_eq_false, h.top_mem hm, and_imp, Bool.not_eq_true]
  have hhigh (hs : (T.getBucket e.nodeId).pfx.isSplittable = true) :
      ((T.getBucket e.nodeId).pfx.splitBranch true hs).isPrefixOf e.nodeId = true ↔
        m < e.nodeId.leadingOnes := by
    rw [Prefix.isPrefixOf_splitBranch, hlen, and_iff_right (h.inv.getBucket_covers e.nodeId),
      Id.bit_eq_true_iff hm]
  unfold needsSplit
  split_ifs with hs hskip
  · refine iff_of_false (by simp) ?_
    rintro ⟨h8, hnone, -⟩
    simp [hfull.mpr h8, hr, hexists, hgood.mpr hnone] at hskip
  · simp only [hr, hexists, Bool.or_eq_true, Bool.not_eq_true', Bool.not_true,
      Bool.or_false, not_or, Bool.not_eq_false, Bool.not_eq_true] at hskip
    rw [hhigh hs, ← hfull, ← hgood, and_iff_right hskip.1, and_iff_right hskip.2]
  · refine iff_of_false (by simp) ?_
    rintro ⟨h8, -⟩
    exact hs (h.splittable hm h8)

/-- The bucket takes an entry that finds room and no other with its address. -/
theorem putBucket (h : Spine l m T) (hm : m ≤ e.nodeId.leadingOnes) (hr : e.reachable = true)
    (hid : ∀ x ∈ l, x.nodeId ≠ e.nodeId) (hroom : atLeast m l < MAX_ENTRIES_PER_BUCKET)
    (halone : ∀ x ∈ l, m ≤ x.nodeId.leadingOnes → x.sockaddr ≠ e.sockaddr) :
    Spine (l ++ [e]) m (T.modifyBucket e.nodeId (·.put now e)) := by
  have hinv : Inv (T.modifyBucket e.nodeId (·.put now e)) := putBucket_inv h.inv
  have hno : ∀ x ∈ (T.getBucket e.nodeId).entries, x.matches e.toNodeInfo = false := by
    intro x hx
    obtain ⟨hl, hk⟩ := (h.top_mem hm).mp hx
    exact NodeInfo.not_matches_iff.mpr ⟨hid x hl, halone x hl hk⟩
  have hput : ((T.getBucket e.nodeId).put now e).entries.Perm
      (e :: (T.getBucket e.nodeId).entries) :=
    KBucket.put_perm hno hr (by rw [h.top_length hm]; exact hroom)
  refine ⟨hinv, h.tidy.modifyAt _ fun b hb => hb.put now e, ?_, fun x => ?_⟩
  · exact (h.inv.modifyBucket_perm hput).trans
      ((h.perm.cons e).trans (List.perm_append_singleton e l).symm)
  · rw [h.inv.modifyBucket_pfx hinv (KBucket.put_keeps _ now e).pfx, h.shape]

/-- An entry that finds no room, or another one with its address, adds nothing. -/
theorem putBucket_length_le (h : Spine l m T) (hm : m ≤ e.nodeId.leadingOnes)
    (hnot : MAX_ENTRIES_PER_BUCKET ≤ atLeast m l ∨
      ∃ x ∈ l, m ≤ x.nodeId.leadingOnes ∧ x.sockaddr = e.sockaddr) :
    (T.modifyBucket e.nodeId (·.put now e)).allEntries.length ≤ l.length := by
  have hlen := h.inv.modifyBucket_length e.nodeId (·.put now e)
  have hle : ((T.getBucket e.nodeId).put now e).entries.length ≤
      (T.getBucket e.nodeId).entries.length := by
    refine (h.bucket_tidy e.nodeId).put_length_le now ?_
    obtain hfull | ⟨x, hx, hk, haddr⟩ := hnot
    · exact .inr (by rw [h.top_length hm]; exact hfull)
    · exact .inl ⟨x, (h.top_mem hm).mpr ⟨hx, hk⟩, by simp [NodeInfo.matches, haddr]⟩
  rw [← h.perm.length_eq]
  omega

end Spine

/-- The next entry belongs into the last bucket: any other one would have more than 8 entries. -/
theorem Spine.le_leadingOnes (h : Spine l m T)
    (hdepth : ∀ k, k < m ↔ MAX_ENTRIES_PER_BUCKET < atLeast k l)
    (horder : MAX_ENTRIES_PER_BUCKET < atLeast e.nodeId.leadingOnes l →
      ∀ x ∈ l, e.nodeId.leadingOnes ≤ x.nodeId.leadingOnes →
        x.nodeId.leadingOnes = e.nodeId.leadingOnes) :
    m ≤ e.nodeId.leadingOnes := by
  by_contra hlt
  have hmany := (hdepth e.nodeId.leadingOnes).mp (Nat.not_le.mp hlt)
  have hroom := (h.bucket_tidy e.nodeId).room
  rw [h.low_length (Nat.not_le.mp hlt)] at hroom
  have hsame : (l.countP fun y => y.nodeId.leadingOnes = e.nodeId.leadingOnes) =
      atLeast e.nodeId.leadingOnes l := by
    refine List.countP_congr fun x hx => ?_
    simp only [decide_eq_true_eq]
    exact ⟨fun heq => heq.ge, horder hmany x hx⟩
  omega

/-- The splits of `put`: each of them finds 8 entries, of which none needs replacement. -/
theorem Spine.put_splits (h : Spine l m T) (hm : m ≤ e.nodeId.leadingOnes)
    (hdepth : ∀ k, k < m ↔ MAX_ENTRIES_PER_BUCKET < atLeast k l) (hr : e.reachable = true)
    (hid : ∀ x ∈ l, x.nodeId ≠ e.nodeId) (hput : T.put now e = some T') :
    ∃ T₁ m₁, Spine l m₁ T₁ ∧ m₁ ≤ e.nodeId.leadingOnes ∧
      (∀ k < m₁, MAX_ENTRIES_PER_BUCKET ≤ atLeast k l ∧ (atLeast k l = MAX_ENTRIES_PER_BUCKET →
        ∀ x ∈ l, k ≤ x.nodeId.leadingOnes → x.needsReplacement now = false)) ∧
      needsSplit now (T₁.getBucket e.nodeId) e = false ∧
        T' = T₁.modifyBucket e.nodeId (·.put now e) := by
  obtain ⟨T₁, ⟨m₁, h₁, hm₁, hfull⟩, hstop, hput⟩ :=
    put_rule (R := fun T₁ => ∃ m₁, Spine l m₁ T₁ ∧ m₁ ≤ e.nodeId.leadingOnes ∧
        ∀ k < m₁, MAX_ENTRIES_PER_BUCKET ≤ atLeast k l ∧ (atLeast k l = MAX_ENTRIES_PER_BUCKET →
          ∀ x ∈ l, k ≤ x.nodeId.leadingOnes → x.needsReplacement now = false))
      (fun T₁ ⟨m₁, h₁, hm₁, hfull⟩ hs => by
        obtain ⟨h8, hgood, hlt⟩ := (h₁.needsSplit_iff hm₁ hr hid).mp hs
        refine ⟨m₁ + 1, h₁.split hm₁ _, hlt, fun k hk => ?_⟩
        obtain hk | rfl := Nat.lt_succ_iff_lt_or_eq.mp hk
        · exact hfull k hk
        · exact ⟨h8, fun _ => hgood⟩)
      ⟨m, h, hm, fun k hk => ⟨((hdepth k).mp hk).le, fun heq =>
        absurd ((hdepth k).mp hk) (by omega)⟩⟩
      hput
  exact ⟨T₁, m₁, h₁, hm₁, hfull, hstop, hput⟩

/-- One step of `load`, after entries that all got in: the entry fits and gets in, or it does not
and nothing is added. The entries before it that have as many leading ones have no more, if these
are many. -/
theorem Loaded.put (h : Loaded l T) (hr : e.reachable = true) (hid : ∀ x ∈ l, x.nodeId ≠ e.nodeId)
    (horder : MAX_ENTRIES_PER_BUCKET < atLeast e.nodeId.leadingOnes l →
      ∀ x ∈ l, e.nodeId.leadingOnes ≤ x.nodeId.leadingOnes →
        x.nodeId.leadingOnes = e.nodeId.leadingOnes)
    (hput : T.put now e = some T') :
    Fits now l e ∧ Loaded (l ++ [e]) T' ∨ ¬ Fits now l e ∧ T'.allEntries.length ≤ l.length := by
  obtain ⟨m, hspine, hdepth⟩ := h
  have hm := hspine.le_leadingOnes hdepth horder
  obtain ⟨T₁, m₁, h₁, hm₁, hfull, hstop, rfl⟩ := hspine.put_splits hm hdepth hr hid hput
  have hsmall : atLeast m₁ l ≤ MAX_ENTRIES_PER_BUCKET := by
    rw [← h₁.top_length hm₁]
    exact (h₁.bucket_tidy e.nodeId).room
  by_cases hroom : atLeast m₁ l < MAX_ENTRIES_PER_BUCKET
  · have hsplit {k : Nat} (hk : MAX_ENTRIES_PER_BUCKET ≤ atLeast k l) : k < m₁ := by
      by_contra hge
      have := atLeast_anti l (Nat.not_lt.mp hge)
      omega
    by_cases halone : ∀ x ∈ l, m₁ ≤ x.nodeId.leadingOnes → x.sockaddr ≠ e.sockaddr
    · refine .inl ⟨⟨?_, fun k _ heq => (hfull k (hsplit heq.ge)).2 heq, fun x hx haddr => ?_⟩,
        m₁, h₁.putBucket hm₁ hr hid hroom halone, fun k => ?_⟩
      · exact (atLeast_anti l hm₁).trans_lt hroom
      · refine (hfull _ ?_).1
        by_contra hge
        exact halone x hx (Nat.not_lt.mp hge) haddr
      · rw [atLeast_concat]
        constructor
        · intro hk
          rw [if_pos (hk.le.trans hm₁)]
          exact Nat.lt_succ_of_le (hfull k hk).1
        · intro hk
          refine hsplit ?_
          split_ifs at hk <;> omega
    · push Not at halone
      obtain ⟨x, hx, hk, haddr⟩ := halone
      refine .inr ⟨fun hfits => ?_, h₁.putBucket_length_le hm₁ (.inr ⟨x, hx, hk, haddr⟩)⟩
      exact absurd (hsplit (hfits.alone x hx haddr)) (by omega)
  · have heq : atLeast m₁ l = MAX_ENTRIES_PER_BUCKET := by omega
    refine .inr ⟨fun hfits => ?_, h₁.putBucket_length_le hm₁ (.inl heq.ge)⟩
    have hlt : m₁ < e.nodeId.leadingOnes := by
      refine lt_of_le_of_ne hm₁ fun heq' => ?_
      have := hfits.room
      rw [← heq', heq] at this
      exact absurd this (lt_irrefl _)
    have hs := (h₁.needsSplit_iff hm₁ hr hid).mpr ⟨heq.ge, hfits.good m₁ hm₁ heq, hlt⟩
    rw [hs] at hstop
    cases hstop

/-! ## The order of the file -/

/-- Where 8 entries before an entry have at least as many leading ones as it, they have no more. -/
def Ordered (l : List KBucketEntry) : Prop :=
  Runs.Every
    (fun pre e => MAX_ENTRIES_PER_BUCKET ≤ atLeast e.nodeId.leadingOnes pre →
      ∀ x ∈ pre, e.nodeId.leadingOnes ≤ x.nodeId.leadingOnes →
        x.nodeId.leadingOnes = e.nodeId.leadingOnes) l

/-- A bucket with ids that have `k` leading ones and ids that have more has all ids with at least
`k`. -/
theorem Inv.atLeast_le (h : Inv T) {b : KBucket} (hb : b ∈ T.buckets) {x y : Id}
    (hx : b.pfx.isPrefixOf x = true) (hy : b.pfx.isPrefixOf y = true)
    (hlt : y.leadingOnes < x.leadingOnes) :
    atLeast y.leadingOnes T.allEntries ≤ b.entries.length := by
  have hagree : Agree b.pfx.len y.key x.key :=
    (Prefix.isPrefixOf_iff.mp hy).symm.trans (Prefix.isPrefixOf_iff.mp hx)
  have hlen : b.pfx.len ≤ y.leadingOnes := by
    by_contra hgt
    have := Id.agree_iff_leadingOnes_eq.mp
        (hagree.mono (show y.leadingOnes + 1 ≤ b.pfx.len by omega))
    omega
  rw [← h.filter_covers hb, ← List.countP_eq_length_filter, atLeast]
  refine List.countP_mono_left fun z _ hz => ?_
  have hz' := (Id.agree_iff_le_leadingOnes le_rfl).mpr (of_decide_eq_true hz)
  exact Prefix.isPrefixOf_iff.mpr ((Prefix.isPrefixOf_iff.mp hy).trans (hz'.mono hlen))

/-- The entries of a table are in order. -/
theorem Inv.ordered (h : Inv T) (ht : T.Tidy) : Ordered T.allEntries := by
  have hpair : T.allEntries.Pairwise fun x y =>
      y.nodeId.leadingOnes < x.nodeId.leadingOnes →
        atLeast y.nodeId.leadingOnes T.allEntries ≤ MAX_ENTRIES_PER_BUCKET := by
    have hcov (b : KBucket) (hb : b ∈ T.buckets) (x : KBucketEntry) (hx : x ∈ b.entries) :
        b.pfx.isPrefixOf x.nodeId = true := (h.ok b hb).covered _ (List.mem_map_of_mem hx)
    rw [allEntries, List.pairwise_flatMap]
    constructor
    · intro b hb
      refine List.pairwise_of_forall_mem_list fun x hx y hy hlt => ?_
      exact (h.atLeast_le hb (hcov b hb x hx) (hcov b hb y hy) hlt).trans (ht b hb).room
    · rw [List.pairwise_iff_getElem]
      intro i j hi hj hij x hx y hy hlt
      have hxy :=
        h.lt_of_index hij hj (hcov _ (List.getElem_mem hi) x hx) (hcov _ (List.getElem_mem hj) y hy)
      exact absurd hxy (Id.lt_of_leadingOnes_lt hlt).not_gt
  intro pre e post heq hmany x hx hle
  by_contra hne
  rw [heq, List.pairwise_append] at hpair
  have hfew := hpair.2.2 x hx e List.mem_cons_self (lt_of_le_of_ne hle (Ne.symm hne))
  rw [← List.singleton_append, ← List.append_assoc, atLeast, List.countP_append, ← atLeast,
    atLeast_concat, if_pos le_rfl] at hfew
  omega

/-- The entry at which a ninth one is counted. -/
theorem exists_ninth {p : KBucketEntry → Bool} (h : MAX_ENTRIES_PER_BUCKET < l.countP p) :
    ∃ pre e post, l = pre ++ e :: post ∧ p e = true ∧ pre.countP p = MAX_ENTRIES_PER_BUCKET := by
  refine Runs.exists_step (P := fun pre e => p e = true ∧ pre.countP p = MAX_ENTRIES_PER_BUCKET)
    (Q := fun l => MAX_ENTRIES_PER_BUCKET < l.countP p) (by simp) (fun pre e hafter => ?_) h
  rw [List.countP_append, List.countP_singleton] at hafter
  split_ifs at hafter with hp
  · obtain hlt | heq := Nat.lt_or_eq_of_le (Nat.le_of_lt_succ hafter)
    · exact .inl hlt
    · exact .inr ⟨hp, heq.symm⟩
  · exact .inl hafter

theorem take_filter {p : KBucketEntry → Bool} (h8 : pre.countP p = MAX_ENTRIES_PER_BUCKET)
    {post : List KBucketEntry} :
    ((pre ++ post).filter p).take MAX_ENTRIES_PER_BUCKET = pre.filter p := by
  rw [List.filter_append]
  exact List.take_left' (by rw [← List.countP_eq_length_filter]; exact h8)

/-- A list in order is restorable if its addresses are and every entry fits. -/
theorem restorable_iff (hl : Ordered l) :
    Restorable now l ↔ (∀ e ∈ l, e.sockaddr.Storable) ∧ Runs.Every (Fits now) l := by
  constructor
  · intro h
    refine ⟨h.address, fun pre e post heq => ⟨?_, fun k hk h8 => ?_, fun x hx haddr => ?_⟩⟩
    · by_contra hge
      -- the 8 entries before it have as many leading ones as the entry, which makes 9
      have hsame := hl pre e post heq (Nat.not_lt.mp hge)
      have hcount : (pre.countP fun x => x.nodeId.leadingOnes = e.nodeId.leadingOnes) =
          atLeast e.nodeId.leadingOnes pre := by
        refine List.countP_congr fun x hx => ?_
        simp only [decide_eq_true_eq]
        exact ⟨fun heq => heq.ge, hsame x hx⟩
      have hroom := h.room e.nodeId.leadingOnes
      simp only [heq, List.countP_append, List.countP_cons, decide_true, ↓reduceIte,
        hcount] at hroom
      omega
    · have hmany : MAX_ENTRIES_PER_BUCKET < atLeast k l := by
        rw [heq, atLeast, List.countP_append, List.countP_cons, ← atLeast, h8,
          decide_eq_true hk, if_pos rfl]
        omega
      intro x hx hkx
      refine h.good k hmany x ?_
      rw [heq, take_filter h8]
      exact List.mem_filter.mpr ⟨hx, decide_eq_true hkx⟩
    · have hmany := h.alone pre e post heq x hx haddr
      rw [atLeast_concat] at hmany
      split_ifs at hmany <;> omega
  · rintro ⟨haddress, hfits⟩
    refine ⟨haddress, fun k => ?_, fun k hmany x hx => ?_, fun pre e post heq x hx haddr => ?_⟩
    · by_contra hmany
      obtain ⟨pre, e, post, heq, he, h8⟩ := exists_ninth (Nat.not_le.mp hmany)
      have hk : e.nodeId.leadingOnes = k := of_decide_eq_true he
      have hroom := (hfits pre e post heq).room
      have hle : (pre.countP fun x => x.nodeId.leadingOnes = k) ≤ atLeast k pre := by
        refine List.countP_mono_left fun x _ hx => ?_
        simp only [decide_eq_true_eq] at hx ⊢
        exact hx.ge
      rw [hk] at hroom
      omega
    · obtain ⟨pre, e, post, heq, he, h8⟩ := exists_ninth hmany
      rw [heq, take_filter h8] at hx
      obtain ⟨hmem, hkx⟩ := List.mem_filter.mp hx
      exact (hfits pre e post heq).good k (of_decide_eq_true he) h8 x hmem (of_decide_eq_true hkx)
    · have hfit := hfits pre e post heq
      have hmany := hfit.alone x hx haddr
      have hlt : x.nodeId.leadingOnes ≤ e.nodeId.leadingOnes := by
        by_contra hgt
        have := atLeast_anti pre (Nat.not_le.mp hgt).le
        have := hfit.room
        omega
      rw [atLeast_concat, if_pos hlt]
      omega

/-! ## The file -/

theorem load_append (T : RoutingTable) (now : UInt64) (l : List KBucketEntry)
    (nodes : List (Option KBucketEntry)) :
    T.load now (l.map some ++ nodes) = (T.load now (l.map some)).bind (·.load now nodes) := by
  induction l generalizing T with
  | nil => rfl
  | cons x l ih =>
    simp only [List.map_cons, List.cons_append, load]
    cases T.put now x with
    | none => rfl
    | some T₁ => exact ih T₁

/-- `load` of a list in order: all entries get in if they fit, and else there are fewer. -/
theorem load_spec (localId : Id) (now : UInt64) (hr : ∀ e ∈ l, e.reachable = true)
    (hids : (l.map (·.nodeId)).Nodup) (hl : Ordered l) :
    ∃ T', (init localId).load now (l.map some) = some T' ∧ Inv T' ∧ T'.Tidy ∧
      (Runs.Every (Fits now) l ∧ Loaded l T' ∨
        ¬ Runs.Every (Fits now) l ∧ T'.allEntries.length < l.length) := by
  induction l using List.reverseRecOn with
  | nil =>
    exact ⟨_, rfl, init_inv localId, init_tidy localId, .inl ⟨Runs.every_nil, loaded_init localId⟩⟩
  | append_singleton l e ih =>
    rw [List.map_append, List.nodup_append] at hids
    rw [Ordered, Runs.every_concat] at hl
    obtain ⟨T₁, hload, hinv, htidy, hcases⟩ :=
      ih (fun x hx => hr x (List.mem_append_left _ hx)) hids.1 hl.1
    obtain ⟨T', hput, hinv'⟩ := put_inv now e hinv
    have hlen := put_length_le hinv htidy hput
    refine ⟨T', ?_, hinv', tidy_stable.putTable htidy trivial hput, ?_⟩
    · rw [List.map_append, load_append, hload, Option.bind_some, List.map_singleton, load, hput]
      rfl
    · rw [Runs.every_concat, List.length_append, List.length_singleton]
      obtain ⟨hfits, hloaded⟩ | ⟨hfits, hfew⟩ := hcases
      · have hid : ∀ x ∈ l, x.nodeId ≠ e.nodeId := fun x hx =>
          hids.2.2 x.nodeId (List.mem_map_of_mem hx) e.nodeId (by simp)
        obtain ⟨hfit, hloaded'⟩ | ⟨hfit, hsame⟩ :=
          hloaded.put (hr e (by simp)) hid (fun hmany => hl.2 hmany.le) hput
        · exact .inl ⟨⟨hfits, hfit⟩, hloaded'⟩
        · exact .inr ⟨fun h => hfit h.2, by omega⟩
      · exact .inr ⟨fun h => hfits h.1, by omega⟩

theorem Inv.entries_nodup (h : Inv T) : T.allEntries.Nodup := h.partition.nodup.of_map _

/-- A table comes back from its file exactly if its entries are restorable. -/
theorem restore_save_iff (h : Inv T) (ht : T.Tidy) (localId : Id) (now : UInt64) :
    ∃ T', (init localId).restore now T.save = some T' ∧
      ((∀ e, e ∈ T'.allEntries ↔ e ∈ T.allEntries) ↔ Restorable now T.allEntries) := by
  rw [restore_save]
  by_cases haddr : ∀ e ∈ T.allEntries, e.sockaddr.Storable
  · have hr : ∀ e ∈ T.allEntries, e.reachable = true := by
      intro e he
      obtain ⟨b, hb, he⟩ := List.mem_flatMap.mp he
      exact (ht b hb).reachable e he
    have hnodes : (T.allEntries.map fun e => KBucketEntry.fromJson e.toJson) =
        T.allEntries.map some :=
      List.map_congr_left fun e he => KBucketEntry.fromJson_toJson (haddr e he)
    obtain ⟨T', hload, hinv', -, hcases⟩ :=
      load_spec localId now hr h.partition.nodup (h.ordered ht)
    refine ⟨T', by rw [hnodes]; exact hload, ?_⟩
    rw [restorable_iff (h.ordered ht), and_iff_right haddr]
    obtain ⟨hfits, m, hspine, -⟩ | ⟨hfits, hfew⟩ := hcases
    · exact iff_of_true (fun e => hspine.perm.mem_iff) hfits
    · refine iff_of_false (fun hsame => ?_) hfits
      have hperm := (List.perm_ext_iff_of_nodup hinv'.entries_nodup h.entries_nodup).mpr hsame
      rw [hperm.length_eq] at hfew
      exact absurd hfew (lt_irrefl _)
  · obtain ⟨T', hload, -⟩ : ∃ T', (init localId).load now
        (T.allEntries.map fun e => KBucketEntry.fromJson e.toJson) = some T' ∧ Inv T' :=
      load_inv (init_inv localId) _
    refine ⟨T', hload, iff_of_false (fun hsame => haddr fun e he => ?_) fun hres =>
      haddr hres.address⟩
    -- what is loaded has the restored address of the entry with its id
    have hall : T'.All fun id addr => ∃ x ∈ T.allEntries, ∃ y,
        KBucketEntry.fromJson x.toJson = some y ∧
        y.nodeId = id ∧ y.sockaddr = addr := by
      refine all_stable.load (T := init localId) (fun b hb => ?_) (fun y hy _ => ?_) hload
      · rw [List.mem_singleton.mp hb]
        exact fun x hx => by cases hx
      · obtain ⟨x, hx, hxy⟩ := List.mem_map.mp hy
        exact ⟨x, hx, y, hxy, rfl, rfl⟩
    obtain ⟨x, hx, y, hxy, hid, hsock⟩ := all_iff.mp hall e ((hsame e).mpr he)
    obtain ⟨a, ha, rfl⟩ := Option.map_eq_some_iff.mp hxy
    obtain rfl : x = e := List.inj_on_of_nodup_map h.partition.nodup hx he hid
    obtain rfl : a = x.sockaddr := hsock
    exact SocketAddress.ofBlob?_inaddr.mp ha

/-- The round trip of a table that any operations lead to: its file gives back the same entries
exactly if they are restorable. -/
theorem run_restore_save (localId : Id) (ops : List Op) (now : UInt64) :
    ∃ T T', (init localId).run ops = some T ∧ (init localId).restore now T.save = some T' ∧
      ((∀ e, e ∈ T'.allEntries ↔ e ∈ T.allEntries) ↔ Restorable now T.allEntries) := by
  obtain ⟨T, hrun, hinv⟩ := run_inv (init_inv localId) ops
  obtain ⟨T', hload, hiff⟩ :=
    restore_save_iff hinv (tidy_stable.run (init_tidy localId) hrun) localId now
  exact ⟨T, T', hrun, hload, hiff⟩

/-- A reachable entry whose id begins with the bytes `x` and `y`. -/
def reachableEntry (x y : UInt8) : KBucketEntry where
  nodeId := Id.ofFn fun i => if i = 0 then x else if i = 1 then y else 0
  sockaddr := .inet ⟨[8, 8, x, y], rfl⟩ 39001
  created := 1
  lastSeen := 1
  reachable := true

/-- Ten entries: the ninth splits the table, and the tenth splits the low half. -/
def crowdedLowHalf : List KBucketEntry :=
  [reachableEntry 0 1, reachableEntry 0 2, reachableEntry 0 3, reachableEntry 0 4,
    reachableEntry 0x40 1,
    reachableEntry 0x40 2, reachableEntry 0x40 3, reachableEntry 0x40 4, reachableEntry 0x80 1,
    reachableEntry 0x40 5]

/-- Nine entries of the low half, which is one bucket while they are loaded. -/
theorem crowdedLowHalf_not_restored :
    ∃ T T', (init Id.zero).run (crowdedLowHalf.map (.put 2)) = some T ∧
      (init Id.zero).restore 2 T.save = some T' ∧ ¬ ∀ e, e ∈ T'.allEntries ↔ e ∈ T.allEntries := by
  obtain ⟨T, hrun, hinv⟩ := run_inv (init_inv Id.zero) (crowdedLowHalf.map (.put 2))
  obtain ⟨T', hload, hiff⟩ :=
    restore_save_iff hinv (tidy_stable.run (init_tidy Id.zero) hrun) Id.zero 2
  refine ⟨T, T', hrun, hload, fun hsame => ?_⟩
  have hnine : (scanAll 2 (init Id.zero) crowdedLowHalf).map
      (fun T => T.allEntries.countP fun x => x.nodeId.leadingOnes = 0) = some 9 := by decide +kernel
  rw [← (init_inv Id.zero).run_puts, hrun, Option.map_some, Option.some.injEq] at hnine
  have hroom := (hiff.mp hsame).room 0
  rw [hnine] at hroom
  exact absurd hroom (by decide)

end RoutingTable

end Boson
