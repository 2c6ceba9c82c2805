import Boson.KBucket
import Boson.Lib.Lowest

/-!
# The closest nodes of a lookup (`src/core/task/candidate_node.h`, `src/core/task/closest_set.h`)

`ClosestSet` holds its nodes in a `std::map` keyed by id, so their order, and with it the node that
`add` drops past the capacity, is the numeric order of the ids. What a lookup wants is the order by
XOR distance to the target.

* `addAll_ids`: after any sequence of `add` the set holds the numerically lowest ids.
* `KeepsClosest`: what the set is for, in terms of the XOR distance.
* `keepsClosest_iff`: the sequences for which numeric order does that job. They are those where the
  ids kept and the ids dropped fork at bits that are 0 in the target.
-/

namespace Boson

open Keyspace Lowest

/-- `CandidateNode`: a node of a lookup, with what the lookup knows of it. -/
structure CandidateNode extends NodeInfo where
  lastSent : UInt64 := 0
  lastReply : UInt64 := 0
  reachable : Bool := false
  acked : Bool := false
  pinged : Int := 0
  token : Int := 0
  deriving DecidableEq

/-- The copy constructor of `NodeInfo`, which leaves the version out. -/
def NodeInfo.copy (ni : NodeInfo) : NodeInfo := { nodeId := ni.nodeId, sockaddr := ni.sockaddr }

namespace CandidateNode

/-- `CandidateNode(const NodeInfo&)` for a node that is no `KBucketEntry`. -/
def ofNodeInfo (ni : NodeInfo) : CandidateNode := { ni.copy with }

/-- `CandidateNode(const NodeInfo&)` for a `KBucketEntry`, which the source finds with a
`dynamic_cast`. -/
def ofEntry (entry : KBucketEntry) : CandidateNode :=
  { entry.toNodeInfo.copy with reachable := entry.reachable }

/-- `CandidateNode::setSent`. -/
def setSent (self : CandidateNode) (now : UInt64) : CandidateNode :=
  { self with lastSent := now, pinged := self.pinged + 1 }

/-- `CandidateNode::clearSent`. -/
def clearSent (self : CandidateNode) : CandidateNode := { self with lastSent := 0 }

/-- `CandidateNode::setReplied`. -/
def setReplied (self : CandidateNode) (now : UInt64) : CandidateNode :=
  { self with lastReply := now }

/-- `CandidateNode::setToken`. -/
def setToken (self : CandidateNode) (token : Int) : CandidateNode := { self with token := token }

/-- `CandidateNode::isUnreachable`. -/
def isUnreachable (self : CandidateNode) : Bool := self.pinged ≥ 3

/-- `CandidateNode::isInFlight`. -/
def isInFlight (self : CandidateNode) : Bool := self.lastSent != 0

/-- `CandidateNode::isEligible`: no pending request and fewer than 3 tries. -/
def isEligible (self : CandidateNode) : Bool := self.lastSent == 0 && self.pinged < 3

end CandidateNode

/-- `ClosestSet`. The map `closest` is the list of its values, in the order of their ids. -/
structure ClosestSet where
  target : Id
  capacity : Nat
  closest : List CandidateNode := []
  insertAttemptsSinceTailModification : Int := 0
  insertAttemptsSinceHeadModification : Int := 0
  deriving DecidableEq

namespace ClosestSet

/-- `ClosestSet::reachedCapacity`. -/
def reachedCapacity (self : ClosestSet) : Bool := self.closest.length ≥ self.capacity

/-- `ClosestSet::size`. -/
def size (self : ClosestSet) : Nat := self.closest.length

/-- `ClosestSet::contains`. -/
def contains (self : ClosestSet) (id : Id) : Bool := self.closest.any (·.nodeId == id)

/-- The part of `ClosestSet::add` after the assignment: past the capacity the last node goes, and
the counter says for how many calls in a row it was the one just added. The pointer comparisons with
`cn` are comparisons of ids, since the map holds one node for each id. -/
def dropTail (self : ClosestSet) (cn : CandidateNode) : ClosestSet :=
  if self.closest.length > self.capacity then
    { self with
      insertAttemptsSinceTailModification :=
        if (self.closest.getLast?.map (·.nodeId)) == some cn.nodeId then
          self.insertAttemptsSinceTailModification + 1
        else 0
      closest := self.closest.dropLast }
  else self

/-- `ClosestSet::add`. -/
def add (self : ClosestSet) (cn : CandidateNode) : ClosestSet :=
  let self := { self with closest := assign (·.nodeId) cn self.closest }
  let self := self.dropTail cn
  { self with
    insertAttemptsSinceHeadModification :=
      if (self.closest.head?.map (·.nodeId)) == some cn.nodeId then 0
      else self.insertAttemptsSinceHeadModification + 1 }

/-- `ClosestSet::getEntries`. -/
def getEntries (self : ClosestSet) : List CandidateNode := self.closest

/-- `ClosestSet::tail`. -/
def tail (self : ClosestSet) : Id :=
  match self.closest.getLast? with
  | none => self.target.distance Id.MAX_ID
  | some cn => cn.nodeId

/-- `ClosestSet::head`. -/
def head (self : ClosestSet) : Id :=
  match self.closest.head? with
  | none => self.target.distance Id.MAX_ID
  | some cn => cn.nodeId

/-- `ClosestSet::isEligible`. -/
def isEligible (self : ClosestSet) : Bool :=
  self.reachedCapacity && self.insertAttemptsSinceTailModification > self.capacity

/-- A new set after calls of `add` with `cns`, in order. -/
def addAll (target : Id) (capacity : Nat) (cns : List CandidateNode) : ClosestSet :=
  cns.foldl add { target := target, capacity := capacity }

/-- The ids in the set, in order. -/
def ids (self : ClosestSet) : List Id := self.closest.map (·.nodeId)

/-! ## The set is the numerically lowest ids -/

variable {t : Id} {k : Nat} {cn : CandidateNode} {cns : List CandidateNode} {cs : ClosestSet}

theorem addAll_concat :
    addAll t k (cns ++ [cn]) = (addAll t k cns).add cn := by
  rw [addAll, List.foldl_append]
  rfl

@[simp] theorem add_target : (cs.add cn).target = cs.target := by
  simp only [add, dropTail]
  split <;> rfl

@[simp] theorem add_capacity : (cs.add cn).capacity = cs.capacity := by
  simp only [add, dropTail]
  split <;> rfl

theorem mem_add {n : CandidateNode} (h : n ∈ (cs.add cn).closest) : n = cn ∨ n ∈ cs.closest := by
  simp only [add, dropTail] at h
  split at h
  · exact mem_of_mem_assign (List.dropLast_subset _ h)
  · exact mem_of_mem_assign h

/-- A map within its capacity drops at most the last node of the new one. -/
theorem add_closest (h : cs.closest.length ≤ cs.capacity) :
    (cs.add cn).closest = (assign (·.nodeId) cn cs.closest).take cs.capacity := by
  have hlen : (assign (·.nodeId) cn cs.closest).length ≤ cs.capacity + 1 :=
    (length_assign_le cn cs.closest).trans (Nat.succ_le_succ h)
  simp only [add, dropTail]
  split
  case isTrue hgt =>
    dsimp only at hgt ⊢
    rw [List.dropLast_eq_take, show (assign (·.nodeId) cn cs.closest).length - 1 =
      cs.capacity by omega]
  case isFalse hle =>
    dsimp only at hle ⊢
    rw [List.take_of_length_le (by omega)]

theorem addAll_fields : (addAll t k cns).target = t ∧ (addAll t k cns).capacity = k := by
  induction cns using List.reverseRecOn with
  | nil => exact ⟨rfl, rfl⟩
  | append_singleton l cn ih => rw [addAll_concat, add_target, add_capacity]; exact ih

@[simp] theorem addAll_target : (addAll t k cns).target = t := addAll_fields.1

@[simp] theorem addAll_capacity : (addAll t k cns).capacity = k := addAll_fields.2

theorem addAll_length_le : (addAll t k cns).closest.length ≤ k := by
  induction cns using List.reverseRecOn with
  | nil => exact Nat.zero_le _
  | append_singleton l cn ih =>
    rw [addAll_concat, add_closest (by rw [addAll_capacity]; exact ih), addAll_capacity]
    exact List.length_take_le _ _

theorem addAll_closest_concat :
    (addAll t k (cns ++ [cn])).closest =
    (assign (·.nodeId) cn (addAll t k cns).closest).take k := by
  rw [addAll_concat, add_closest (by rw [addAll_capacity]; exact addAll_length_le), addAll_capacity]

/-- The nodes of the set are nodes that were added. -/
theorem addAll_subset : (addAll t k cns).closest ⊆ cns := by
  induction cns using List.reverseRecOn with
  | nil => exact List.Subset.refl _
  | append_singleton l cn ih =>
    intro x hx
    rw [addAll_closest_concat] at hx
    rcases mem_of_mem_assign (List.mem_of_mem_take hx) with rfl | hx
    · exact List.mem_append_right _ (List.mem_singleton.mpr rfl)
    · exact List.mem_append_left _ (ih hx)

/-- After calls of `add` with distinct ids the set holds the `k` numerically lowest of them. -/
theorem addAll_ids (hnd : (cns.map (·.nodeId)).Nodup) :
    (addAll t k cns).ids = lowest k (cns.map (·.nodeId)) := by
  induction cns using List.reverseRecOn with
  | nil => exact List.take_nil.symm
  | append_singleton l cn ih =>
    rw [List.map_append, List.nodup_append] at hnd
    have hnew : cn.nodeId ∉ (addAll t k l).ids := by
      rw [ih hnd.1]
      intro hmem
      exact hnd.2.2 _ (lowest_subset hmem) _ (List.mem_singleton.mpr rfl) rfl
    rw [ids, addAll_closest_concat, List.map_take, map_assign_of_notMem hnew, List.map_append,
      List.map_singleton, lowest_concat, ← ih hnd.1, ids]

theorem ids_nodup (hnd : (cns.map (·.nodeId)).Nodup) : (addAll t k cns).ids.Nodup := by
  rw [addAll_ids hnd]
  exact lowest_nodup hnd

theorem addAll_length (hnd : (cns.map (·.nodeId)).Nodup) :
    (addAll t k cns).closest.length = min k cns.length := by
  have := congrArg List.length (addAll_ids (t := t) (k := k) hnd)
  rwa [ids, List.length_map, lowest_length, List.length_map] at this

/-! ## What the set is for -/

/-- After calls of `add` with `cns` the set does its job: it holds the `k` nodes closest to `t`,
each call past the capacity dropped the farthest node, and `head` and `tail` are the closest and the
farthest node of the set. -/
structure KeepsClosest (t : Id) (k : Nat) (cns : List CandidateNode) : Prop where
  held : KLeast (fun x y => t.distance x.nodeId < t.distance y.nodeId) k cns
    (addAll t k cns).closest
  dropped : ∀ l cn, l ++ [cn] <+: cns → ∀ x, x = cn.nodeId ∨ x ∈ (addAll t k l).ids →
    x ∉ (addAll t k (l ++ [cn])).ids →
    ∀ y ∈ (addAll t k (l ++ [cn])).ids, t.distance y < t.distance x
  head : cns ≠ [] → (addAll t k cns).head ∈ (addAll t k cns).ids ∧
    ∀ y ∈ (addAll t k cns).ids, t.distance (addAll t k cns).head ≤ t.distance y
  tail : cns ≠ [] → (addAll t k cns).tail ∈ (addAll t k cns).ids ∧
    ∀ y ∈ (addAll t k cns).ids, t.distance y ≤ t.distance (addAll t k cns).tail

/-- At every point of the sequence the `k` lowest ids fork from the rest at 0 bits of `t`, and in
the end the lowest and the highest of the `k` fork from the others of them at 0 bits of `t`. -/
structure LowestForkAtZero (t : Id) (k : Nat) (cns : List CandidateNode) : Prop where
  kept : ∀ l, l <+: cns → ∀ x ∈ lowest k (l.map (·.nodeId)), ∀ y ∈ l.map (·.nodeId),
    y ∉ lowest k (l.map (·.nodeId)) → Id.ForkAtZero t x y
  first : ∀ x ∈ (lowest k (cns.map (·.nodeId))).head?, ∀ y ∈ lowest k (cns.map (·.nodeId)),
    x ≠ y → Id.ForkAtZero t x y
  last : ∀ y ∈ (lowest k (cns.map (·.nodeId))).getLast?, ∀ x ∈ lowest k (cns.map (·.nodeId)),
    x ≠ y → Id.ForkAtZero t x y

theorem head_of_mem {x : Id} (h : x ∈ cs.ids.head?) : cs.head = x := by
  rw [ids, List.head?_map] at h
  obtain ⟨cn, hcn, rfl⟩ := Option.map_eq_some_iff.mp h
  rw [ClosestSet.head, hcn]

theorem tail_of_mem {x : Id} (h : x ∈ cs.ids.getLast?) : cs.tail = x := by
  rw [ids, List.getLast?_map] at h
  obtain ⟨cn, hcn, rfl⟩ := Option.map_eq_some_iff.mp h
  rw [ClosestSet.tail, hcn]

/-- The sequences for which dropping the numerically greatest id drops the farthest one. -/
theorem dropped_iff (hnd : (cns.map (·.nodeId)).Nodup) :
    (∀ l cn, l ++ [cn] <+: cns → ∀ x, x = cn.nodeId ∨ x ∈ (addAll t k l).ids →
      x ∉ (addAll t k (l ++ [cn])).ids →
      ∀ y ∈ (addAll t k (l ++ [cn])).ids, t.distance y < t.distance x) ↔
    ∀ l, l <+: cns → ∀ x ∈ lowest k (l.map (·.nodeId)), ∀ y ∈ l.map (·.nodeId),
      y ∉ lowest k (l.map (·.nodeId)) → t.distance x < t.distance y := by
  have hndl : ∀ l, l <+: cns → (l.map (·.nodeId)).Nodup :=
    fun l hl => hnd.sublist (hl.map _).sublist
  constructor
  · intro h l
    -- one more call keeps the separation, by what it drops
    induction l using List.reverseRecOn with
    | nil => exact fun _ x hx => absurd (lowest_subset hx) List.not_mem_nil
    | append_singleton l cn ih =>
      intro hl
      have hl' : l <+: cns := (List.prefix_append l [cn]).trans hl
      have hlc := hndl _ hl
      rw [List.map_append, List.map_singleton] at hlc ⊢
      refine lowest_separated_concat (P := fun x y => t.distance x < t.distance y)
        (fun _ _ _ => lt_trans) hlc (ih hl') ?_
      intro y hy hyn x hx
      have hdrop := h l cn hl y
      rw [addAll_ids (hndl _ hl'), addAll_ids (hndl _ hl), List.map_append, List.map_singleton]
        at hdrop
      exact hdrop hy hyn x hx
  · intro h l cn hl x hx hxn y hy
    have hl' : l <+: cns := (List.prefix_append l [cn]).trans hl
    rw [addAll_ids (hndl _ hl)] at hxn hy
    rw [addAll_ids (hndl _ hl')] at hx
    refine h _ hl y hy x ?_ hxn
    rw [List.map_append, List.map_singleton, List.mem_append, List.mem_singleton]
    exact hx.symm.imp_left fun h => lowest_subset h

/-- The set holds the closest nodes if the ids it keeps precede the others in the XOR order. -/
theorem kLeast_closest (hnd : (cns.map (·.nodeId)).Nodup)
    (h : ∀ x ∈ lowest k (cns.map (·.nodeId)), ∀ y ∈ cns.map (·.nodeId),
      y ∉ lowest k (cns.map (·.nodeId)) → t.distance x < t.distance y) :
    KLeast (fun x y : CandidateNode => t.distance x.nodeId < t.distance y.nodeId) k cns
      (addAll t k cns).closest where
  subset := addAll_subset
  nodup := (ids_nodup hnd).of_map
  length := addAll_length hnd
  least x hx y hy hyn := by
    rw [← addAll_ids (t := t) hnd] at h
    refine h _ (List.mem_map_of_mem hx) _ (List.mem_map_of_mem hy) fun hmem => hyn ?_
    obtain ⟨z, hz, hzy⟩ := List.mem_map.mp hmem
    rwa [List.inj_on_of_nodup_map hnd (addAll_subset hz) hy hzy] at hz

theorem ids_ne_nil (hk : 0 < k) (hne : cns ≠ []) (hnd : (cns.map (·.nodeId)).Nodup) :
    (addAll t k cns).ids ≠ [] := by
  intro h
  have := congrArg List.length h
  rw [ids, List.length_map, addAll_length hnd, List.length_nil] at this
  have := List.length_pos_iff.mpr hne
  omega

/-- The lowest id of the set is the closest one exactly if it forks from the others at 0 bits. -/
theorem head_iff (hk : 0 < k) (hnd : (cns.map (·.nodeId)).Nodup) :
    (cns ≠ [] → (addAll t k cns).head ∈ (addAll t k cns).ids ∧
      ∀ y ∈ (addAll t k cns).ids, t.distance (addAll t k cns).head ≤ t.distance y) ↔
    ∀ x ∈ (lowest k (cns.map (·.nodeId))).head?, ∀ y ∈ lowest k (cns.map (·.nodeId)),
      x ≠ y → Id.ForkAtZero t x y := by
  by_cases hne : cns = []
  · simp [hne, lowest]
  obtain ⟨x, hx⟩ :=
    Option.isSome_iff_exists.mp (List.isSome_head?.mpr (ids_ne_nil (t := t) hk hne hnd))
  rw [head_of_mem hx, addAll_ids hnd]
  rw [addAll_ids hnd] at hx
  constructor
  · intro h x' hx' y hy hxy
    obtain rfl := Option.mem_unique hx hx'
    refine (Id.distance_lt_iff_forkAtZero (lt_of_mem_head? hx hy hxy)).mp ?_
    exact lt_of_le_of_ne ((h hne).2 y hy) fun h => hxy (Id.distance_injective t h)
  · intro h _
    refine ⟨List.mem_of_mem_head? hx, fun y hy => ?_⟩
    by_cases hxy : x = y
    · rw [hxy]
    · exact ((Id.distance_lt_iff_forkAtZero (lt_of_mem_head? hx hy hxy)).mpr (h x hx y hy hxy)).le

/-- The highest id of the set is the farthest one exactly if it forks from the others at 0 bits. -/
theorem tail_iff (hk : 0 < k) (hnd : (cns.map (·.nodeId)).Nodup) :
    (cns ≠ [] → (addAll t k cns).tail ∈ (addAll t k cns).ids ∧
      ∀ y ∈ (addAll t k cns).ids, t.distance y ≤ t.distance (addAll t k cns).tail) ↔
    ∀ y ∈ (lowest k (cns.map (·.nodeId))).getLast?, ∀ x ∈ lowest k (cns.map (·.nodeId)),
      x ≠ y → Id.ForkAtZero t x y := by
  by_cases hne : cns = []
  · simp [hne, lowest]
  have hlast := List.getLast?_eq_some_getLast (ids_ne_nil (t := t) hk hne hnd)
  obtain ⟨y, hy⟩ : ∃ y, y ∈ (addAll t k cns).ids.getLast? := ⟨_, hlast⟩
  rw [tail_of_mem hy, addAll_ids hnd]
  rw [addAll_ids hnd] at hy
  constructor
  · intro h y' hy' x hx hxy
    obtain rfl := Option.mem_unique hy hy'
    refine (Id.distance_lt_iff_forkAtZero (lt_of_mem_getLast? hy hx hxy)).mp ?_
    exact lt_of_le_of_ne ((h hne).2 x hx) fun h => hxy (Id.distance_injective t h)
  · intro h _
    refine ⟨List.mem_of_mem_getLast? hy, fun x hx => ?_⟩
    by_cases hxy : x = y
    · rw [hxy]
    · exact ((Id.distance_lt_iff_forkAtZero (lt_of_mem_getLast? hy hx hxy)).mpr
        (h y hy x hx hxy)).le

/-- The set keeps the closest nodes exactly if the numerically lowest ids fork from the others at 0
bits of the target. -/
theorem keepsClosest_iff (t : Id) (k : Nat) (hk : 0 < k) (cns : List CandidateNode)
    (hnd : (cns.map (·.nodeId)).Nodup) : KeepsClosest t k cns ↔ LowestForkAtZero t k cns := by
  have hkept : ∀ l, l <+: cns → ∀ x ∈ lowest k (l.map (·.nodeId)), ∀ y ∈ l.map (·.nodeId),
      y ∉ lowest k (l.map (·.nodeId)) → (t.distance x < t.distance y ↔ Id.ForkAtZero t x y) :=
    fun l _ x hx y hy hyn => Id.distance_lt_iff_forkAtZero (lt_of_mem_lowest hx hy hyn)
  constructor
  · intro h
    have hsep := (dropped_iff hnd).mp h.dropped
    exact ⟨fun l hl x hx y hy hyn => (hkept l hl x hx y hy hyn).mp (hsep l hl x hx y hy hyn),
      (head_iff hk hnd).mp h.head, (tail_iff hk hnd).mp h.tail⟩
  · intro h
    have hsep : ∀ l, l <+: cns → ∀ x ∈ lowest k (l.map (·.nodeId)), ∀ y ∈ l.map (·.nodeId),
        y ∉ lowest k (l.map (·.nodeId)) → t.distance x < t.distance y :=
      fun l hl x hx y hy hyn => (hkept l hl x hx y hy hyn).mpr (h.kept l hl x hx y hy hyn)
    exact ⟨kLeast_closest hnd (hsep cns (List.prefix_refl _)), (dropped_iff hnd).mpr hsep,
      (head_iff hk hnd).mpr h.first, (tail_iff hk hnd).mpr h.last⟩

/-- A node whose id starts with the byte `b`, for the examples. -/
def nodeAt (b : UInt8) : CandidateNode :=
  { nodeId := Id.zero.setByte 0 b, sockaddr := .empty }

/-- With the zero target numeric order and XOR order are the same. -/
theorem keepsClosest_zero : KeepsClosest Id.zero 1 [nodeAt 0x80, nodeAt 0] :=
  (keepsClosest_iff Id.zero 1 (by decide) [nodeAt 0x80, nodeAt 0] (by decide)).mpr
    ⟨fun _ _ _ _ _ _ _ i _ _ => Id.bit_zero i, fun _ _ _ _ _ i _ _ => Id.bit_zero i,
      fun _ _ _ _ _ i _ _ => Id.bit_zero i⟩

/-- A set of one node whose target has its top bit set drops the target itself for the zero id. -/
theorem not_keepsClosest :
    ¬ KeepsClosest (Id.zero.setByte 0 0x80) 1 [nodeAt 0, nodeAt 0x80] := by
  intro h
  have hx : nodeAt 0 ∈ (addAll (Id.zero.setByte 0 0x80) 1 [nodeAt 0, nodeAt 0x80]).closest := by
    decide +kernel
  have := h.held.least _ hx (nodeAt 0x80) (by decide +kernel) (by decide +kernel)
  revert this
  decide +kernel

end ClosestSet

end Boson
