import Boson.Task.ClosestSet

/-!
# The candidates of a lookup (`src/core/task/closest_candidates.*`)

`ClosestCandidates` holds the nodes that a lookup may still query, in the order of their XOR
distance to the target. A node is taken only once: the ids and the IP addresses of all nodes ever
offered are kept.

* `WF`: the candidates are sorted and their ids are different and known.
* `mem_add`: a candidate after `add` is one from before, or new and never queried.
* `next_eq_none`: there is no next candidate exactly if none is eligible.
-/

namespace Boson

open Lowest

/-- `Sp<NodeInfo>`, which may point to a `KBucketEntry`. -/
inductive NodeRef where
  | info (n : NodeInfo)
  | entry (e : KBucketEntry)
  deriving DecidableEq

namespace NodeRef

/-- The node that is pointed to. -/
def node : NodeRef → NodeInfo
  | info n => n
  | entry e => e.toNodeInfo

/-- `CandidateNode(const NodeInfo&)`. -/
def candidate : NodeRef → CandidateNode
  | info n => .ofNodeInfo n
  | entry e => .ofEntry e

@[simp] theorem candidate_nodeId (r : NodeRef) : r.candidate.nodeId = r.node.nodeId := by
    cases r <;> rfl

theorem candidate_fresh (r : NodeRef) : r.candidate.lastSent = 0 ∧ r.candidate.pinged = 0 := by
  cases r <;> exact ⟨rfl, rfl⟩

end NodeRef

/-- `SocketAddress::IpCompare`. The `sockaddr_storage` of two addresses of the same family differ in
their IP. -/
def SocketAddress.ipCompare (a b : SocketAddress) : Bool :=
  if !a.isValid && !b.isValid then true
  else if a.family ≠ b.family then a.family.toNat < b.family.toNat
  else a.inaddr < b.inaddr

/-- `ClosestCandidates`. The sets `dedup_ids` and `dedups_addrs` are lists of what was inserted. -/
structure ClosestCandidates where
  target : Id
  capacity : Nat
  dedupIds : List Id := []
  dedupAddrs : List SocketAddress := []
  closest : List CandidateNode := []

namespace ClosestCandidates

/-- `ClosestCandidates::size`. -/
def size (self : ClosestCandidates) : Nat := self.closest.length

/-- `ClosestCandidates::get`. -/
def get (self : ClosestCandidates) (id : Id) : Option CandidateNode :=
  self.closest.find? (·.nodeId == id)

/-- `ClosestCandidates::remove`, without the node that it returns (`get`). -/
def remove (self : ClosestCandidates) (id : Id) : ClosestCandidates :=
  { self with closest := self.closest.eraseP (·.nodeId == id) }

/-- A change of the candidate that is shared with a call. -/
def modify (self : ClosestCandidates) (id : Id) (f : CandidateNode → CandidateNode) :
    ClosestCandidates :=
  { self with closest := self.closest.map fun n => if n.nodeId = id then f n else n }

/-- `ClosestCandidates::candidateOrder`. -/
def candidateOrder (target : Id) (a b : CandidateNode) : Int :=
  let comparison := a.pinged - b.pinged
  if comparison ≠ 0 then (if comparison < 0 then -1 else 1)
  else target.threeWayCompare a.nodeId b.nodeId

/-- Sorted by `candidateOrder`. -/
def sortByOrder (target : Id) (l : List CandidateNode) : List CandidateNode :=
  l.insertionSort fun a b => candidateOrder target a b ≤ 0

/-- `ClosestCandidates::next`. -/
def next (self : ClosestCandidates) : Option CandidateNode :=
  (sortByOrder self.target (self.closest.filter (·.isEligible))).head?

/-- `ClosestCandidates::head`. -/
def head (self : ClosestCandidates) : Id :=
  match self.closest.head? with
  | none => self.target.distance Id.MAX_ID
  | some cn => cn.nodeId

/-- The loop of `ClosestCandidates::add` that takes the nodes not seen before. -/
def takeNew (self : ClosestCandidates) : List NodeRef → ClosestCandidates × List CandidateNode
  | [] => (self, [])
  | item :: rest =>
    let addr := item.node.sockaddr
    if item.node.nodeId ∈ self.dedupIds then self.takeNew rest
    else
      let self := { self with dedupIds := item.node.nodeId :: self.dedupIds }
      if self.dedupAddrs.any fun a => !a.ipCompare addr && !addr.ipCompare a then self.takeNew rest
      else
        let (self, filtered) := { self with dedupAddrs := addr :: self.dedupAddrs }.takeNew rest
        (self, item.candidate :: filtered)

/-- The order of the candidates. -/
def closerEq (target : Id) (a b : CandidateNode) : Bool :=
  target.threeWayCompare a.nodeId b.nodeId ≤ 0

/-- `filtered.sort` and `closest.merge`: of two equivalent nodes the one in `closest` comes
first. -/
def mergeSorted (self : ClosestCandidates) (filtered : List CandidateNode) : ClosestCandidates :=
  let filtered := filtered.insertionSort fun a b => closerEq self.target a b
  { self with closest := mergeBy (closerEq self.target) self.closest filtered }

/-- The end of `ClosestCandidates::add`: past the capacity, candidates that are not in flight go. -/
def shrink (self : ClosestCandidates) : ClosestCandidates :=
  if self.closest.length > self.capacity then
    let toRemove := self.closest.filter (!·.isInFlight)
    if toRemove.length > self.capacity then
      ((sortByOrder self.target toRemove).drop self.capacity).foldl (fun c n =>
        c.remove n.nodeId) self
    else self
  else self

/-- `ClosestCandidates::add`. -/
def add (self : ClosestCandidates) (candidates : List NodeRef) : ClosestCandidates :=
  let (self, filtered) := self.takeNew candidates
  (self.mergeSorted filtered).shrink

/-! ## Well-formed candidates -/

variable {cc : ClosestCandidates} {n : CandidateNode} {id : Id}

/-- The candidates are in order, and each was taken once. -/
structure WF (cc : ClosestCandidates) : Prop where
  sorted : cc.closest.Pairwise fun a b => cc.target.distance a.nodeId ≤ cc.target.distance b.nodeId
  nodup : (cc.closest.map (·.nodeId)).Nodup
  known : ∀ n ∈ cc.closest, n.nodeId ∈ cc.dedupIds

theorem wf_empty (target : Id) (capacity : Nat) :
    WF { target := target, capacity := capacity } :=
  ⟨List.Pairwise.nil, List.nodup_nil, by simp⟩

/-- Fewer candidates are still well-formed. -/
theorem WF.sublist (h : WF cc) {l : List CandidateNode} (hl : l.Sublist cc.closest) :
    WF { cc with closest := l } :=
  ⟨h.sorted.sublist hl, h.nodup.sublist (hl.map _), fun n hn => h.known n (hl.subset hn)⟩

theorem WF.remove (h : WF cc) (id : Id) : WF (cc.remove id) := h.sublist List.eraseP_sublist

theorem mem_eraseP {l : List CandidateNode} (hnd : (l.map (·.nodeId)).Nodup) :
    n ∈ l.eraseP (·.nodeId == id) ↔ n ∈ l ∧ n.nodeId ≠ id := by
  induction l with
  | nil => simp
  | cons x l ih =>
    rw [List.map_cons, List.nodup_cons] at hnd
    by_cases hx : x.nodeId = id
    · rw [List.eraseP_cons_of_pos (by simpa using hx)]
      constructor
      · intro hn
        refine ⟨List.mem_cons_of_mem _ hn, ?_⟩
        rintro rfl
        exact hnd.1 (hx ▸ List.mem_map_of_mem hn)
      · rintro ⟨hn, hne⟩
        rcases List.mem_cons.mp hn with rfl | hn
        · exact absurd hx hne
        · exact hn
    · have hrest := ih hnd.2
      rw [List.eraseP_cons_of_neg (by simpa using hx), List.mem_cons, List.mem_cons, hrest]
      constructor
      · rintro (rfl | ⟨hn, hne⟩)
        · exact ⟨.inl rfl, hx⟩
        · exact ⟨.inr hn, hne⟩
      · rintro ⟨rfl | hn, hne⟩
        · exact .inl rfl
        · exact .inr ⟨hn, hne⟩

/-- The candidates after `remove` are those with another id. -/
theorem WF.mem_remove (h : WF cc) : n ∈ (cc.remove id).closest ↔ n ∈ cc.closest ∧ n.nodeId ≠ id :=
  mem_eraseP h.nodup

/-- A change of a candidate keeps its id, and with it the order. -/
theorem WF.modify (h : WF cc) (id : Id) {f : CandidateNode → CandidateNode}
    (hf : ∀ n, (f n).nodeId = n.nodeId) : WF (cc.modify id f) := by
  have hid : ∀ n : CandidateNode, (if n.nodeId = id then f n else n).nodeId = n.nodeId := by
    intro n
    split
    · exact hf n
    · rfl
  refine ⟨?_, ?_, ?_⟩
  · refine List.pairwise_map.mpr (h.sorted.imp fun hab => ?_)
    rw [hid, hid]
    exact hab
  · simp only [ClosestCandidates.modify, List.map_map, Function.comp_def, hid]
    exact h.nodup
  · intro n hn
    obtain ⟨m, hm, rfl⟩ := List.mem_map.mp hn
    rw [hid]
    exact h.known m hm

/-! ## Adding candidates -/

/-- Nodes that were never offered before, each once. -/
structure Fresh (cc cc' : ClosestCandidates) (filtered : List CandidateNode) : Prop where
  same : cc'.target = cc.target ∧ cc'.capacity = cc.capacity ∧ cc'.closest = cc.closest
  grows : ∀ id ∈ cc.dedupIds, id ∈ cc'.dedupIds
  nodup : (filtered.map (·.nodeId)).Nodup
  fresh : ∀ n ∈ filtered, n.nodeId ∉ cc.dedupIds ∧ n.nodeId ∈ cc'.dedupIds ∧
    n.lastSent = 0 ∧ n.pinged = 0

theorem takeNew_fresh (cc : ClosestCandidates) (items : List NodeRef) :
    Fresh cc (cc.takeNew items).1 (cc.takeNew items).2 := by
  induction items generalizing cc with
  | nil => exact ⟨⟨rfl, rfl, rfl⟩, fun _ h => h, List.nodup_nil, by simp [takeNew]⟩
  | cons item rest ih =>
    unfold takeNew
    simp only
    split
    · exact ih cc
    rename_i hnew
    split
    · obtain ⟨hsame, hgrows, hnd, hfresh⟩ :=
        ih { cc with dedupIds := item.node.nodeId :: cc.dedupIds }
      refine ⟨hsame, fun id hid => hgrows id (List.mem_cons_of_mem _ hid), hnd, fun n hn => ?_⟩
      obtain ⟨h1, h2⟩ := hfresh n hn
      exact ⟨fun hk => h1 (List.mem_cons_of_mem _ hk), h2⟩
    · obtain ⟨hsame, hgrows, hnd, hfresh⟩ := ih
        { cc with
          dedupIds := item.node.nodeId :: cc.dedupIds
          dedupAddrs := item.node.sockaddr :: cc.dedupAddrs }
      refine ⟨hsame, fun id hid => hgrows id (List.mem_cons_of_mem _ hid), ?_, fun n hn => ?_⟩
      · rw [List.map_cons, List.nodup_cons]
        refine ⟨fun hmem => ?_, hnd⟩
        obtain ⟨m, hm, heq⟩ := List.mem_map.mp hmem
        exact (hfresh m hm).1 (by rw [heq, NodeRef.candidate_nodeId]; exact List.mem_cons_self)
      · rcases List.mem_cons.mp hn with rfl | hn
        · rw [NodeRef.candidate_nodeId]
          exact ⟨hnew, hgrows _ List.mem_cons_self, item.candidate_fresh⟩
        · obtain ⟨h1, h2⟩ := hfresh n hn
          exact ⟨fun hk => h1 (List.mem_cons_of_mem _ hk), h2⟩

theorem closerEq_iff {t : Id} {a b : CandidateNode} :
    closerEq t a b = true ↔ t.distance a.nodeId ≤ t.distance b.nodeId := by
  rw [closerEq, decide_eq_true_iff, Id.threeWayCompare_le_iff_distance]

theorem mergeSorted_perm {filtered : List CandidateNode} :
    (cc.mergeSorted filtered).closest.Perm (cc.closest ++ filtered) := by
  rw [mergeSorted, mergeBy_eq_merge]
  exact (List.merge_perm_append _).trans ((List.perm_insertionSort _ _).append_left _)

theorem mem_mergeSorted {filtered : List CandidateNode} :
    n ∈ (cc.mergeSorted filtered).closest ↔ n ∈ cc.closest ∨ n ∈ filtered := by
  rw [mergeSorted_perm.mem_iff, List.mem_append]

theorem WF.mergeSorted {cc' : ClosestCandidates} {filtered : List CandidateNode} (h : WF cc)
    (hf : Fresh cc cc' filtered) : WF (cc'.mergeSorted filtered) := by
  obtain ⟨⟨htarget, -, hclosest⟩, hgrows, hnd, hfresh⟩ := hf
  have htrans : ∀ a b c : CandidateNode, closerEq cc'.target a b = true →
      closerEq cc'.target b c = true → closerEq cc'.target a c = true := by
    intro a b c hab hbc
    rw [closerEq_iff] at hab hbc ⊢
    exact le_trans hab hbc
  have htotal : ∀ a b : CandidateNode,
      (closerEq cc'.target a b || closerEq cc'.target b a) = true := by
    intro a b
    rw [Bool.or_eq_true, closerEq_iff, closerEq_iff]
    exact le_total _ _
  refine ⟨?_, ?_, ?_⟩
  · have hold : cc'.closest.Pairwise fun a b => closerEq cc'.target a b = true := by
      rw [hclosest]
      exact h.sorted.imp fun hab => closerEq_iff.mpr (htarget ▸ hab)
    have : IsTrans CandidateNode fun a b => closerEq cc'.target a b = true := ⟨htrans⟩
    have : Std.Total fun a b : CandidateNode => closerEq cc'.target a b = true :=
      ⟨fun a b => by simpa using htotal a b⟩
    have hnew := List.pairwise_insertionSort (fun a b => closerEq cc'.target a b = true) filtered
    rw [ClosestCandidates.mergeSorted, mergeBy_eq_merge]
    exact (List.pairwise_merge htrans htotal _ _ hold hnew).imp closerEq_iff.mp
  · have hperm : (cc'.mergeSorted filtered).closest.Perm (cc.closest ++ filtered) :=
      hclosest ▸ mergeSorted_perm
    rw [(hperm.map _).nodup_iff, List.map_append, List.nodup_append]
    refine ⟨h.nodup, hnd, fun a ha b hb heq => ?_⟩
    obtain ⟨m, hm, rfl⟩ := List.mem_map.mp ha
    obtain ⟨k, hk, rfl⟩ := List.mem_map.mp hb
    exact (hfresh k hk).1 (heq ▸ h.known m hm)
  · intro n hn
    rcases mem_mergeSorted.mp hn with hn | hn
    · exact hgrows _ (h.known n (hclosest ▸ hn))
    · exact (hfresh n hn).2.1

theorem foldl_remove_sublist (l : List CandidateNode) (cc : ClosestCandidates) :
    ∃ m, m.Sublist cc.closest ∧
      l.foldl (fun c n => c.remove n.nodeId) cc = { cc with closest := m } := by
  induction l generalizing cc with
  | nil => exact ⟨cc.closest, List.Sublist.refl _, rfl⟩
  | cons x l ih =>
    obtain ⟨m, hm, heq⟩ := ih (cc.remove x.nodeId)
    exact ⟨m, hm.trans List.eraseP_sublist, heq⟩

/-- The candidates that stay when there are too many. -/
theorem shrink_sublist (cc : ClosestCandidates) :
    ∃ m, m.Sublist cc.closest ∧ cc.shrink = { cc with closest := m } := by
  unfold shrink
  split
  · simp only
    split
    · exact foldl_remove_sublist _ cc
    · exact ⟨cc.closest, List.Sublist.refl _, rfl⟩
  · exact ⟨cc.closest, List.Sublist.refl _, rfl⟩

theorem WF.add (h : WF cc) (items : List NodeRef) : WF (cc.add items) := by
  have hmerged := h.mergeSorted (takeNew_fresh cc items)
  obtain ⟨m, hm, heq⟩ := shrink_sublist ((cc.takeNew items).1.mergeSorted (cc.takeNew items).2)
  change WF (ClosestCandidates.shrink _)
  rw [heq]
  exact hmerged.sublist hm

/-- A candidate after `add` is one from before, or was never offered before. -/
theorem mem_add_cases {items : List NodeRef} (h : n ∈ (cc.add items).closest) :
    n ∈ cc.closest ∨ n.nodeId ∉ cc.dedupIds ∧ n.lastSent = 0 ∧ n.pinged = 0 := by
  have hfresh := takeNew_fresh cc items
  obtain ⟨m, hm, heq⟩ := shrink_sublist ((cc.takeNew items).1.mergeSorted (cc.takeNew items).2)
  change n ∈ (ClosestCandidates.shrink _).closest at h
  rw [heq] at h
  rcases mem_mergeSorted.mp (hm.subset h) with hn | hn
  · exact .inl (hfresh.same.2.2 ▸ hn)
  · exact .inr ⟨(hfresh.fresh n hn).1, (hfresh.fresh n hn).2.2⟩

/-- A candidate after `add` is one from before, or was never queried. -/
theorem mem_add {items : List NodeRef} (h : n ∈ (cc.add items).closest) :
    n ∈ cc.closest ∨ n.lastSent = 0 ∧ n.pinged = 0 :=
  (mem_add_cases h).imp_right And.right

/-- Ids that were offered are not forgotten. -/
theorem dedupIds_subset_add (cc : ClosestCandidates) (items : List NodeRef) :
    cc.dedupIds ⊆ (cc.add items).dedupIds := by
  obtain ⟨m, -, heq⟩ := shrink_sublist ((cc.takeNew items).1.mergeSorted (cc.takeNew items).2)
  change cc.dedupIds ⊆ (ClosestCandidates.shrink _).dedupIds
  rw [heq]
  exact (takeNew_fresh cc items).grows

@[simp] theorem add_target (cc : ClosestCandidates) (items : List NodeRef) :
    (cc.add items).target = cc.target := by
  obtain ⟨m, -, heq⟩ := shrink_sublist ((cc.takeNew items).1.mergeSorted (cc.takeNew items).2)
  change (ClosestCandidates.shrink _).target = _
  rw [heq]
  exact (takeNew_fresh cc items).same.1

/-! ## The next candidate -/

theorem next_eq_none : cc.next = none ↔ ∀ n ∈ cc.closest, n.isEligible = false := by
  have hnil : sortByOrder cc.target (cc.closest.filter (·.isEligible)) = [] ↔
      cc.closest.filter (·.isEligible) = [] := by
    rw [← List.length_eq_zero_iff, sortByOrder, List.length_insertionSort, List.length_eq_zero_iff]
  rw [next, List.head?_eq_none_iff, hnil, List.filter_eq_nil_iff]
  simp

/-- The head is the candidate closest to the target. -/
theorem WF.head_le (h : WF cc) (hn : n ∈ cc.closest) :
    cc.target.distance cc.head ≤ cc.target.distance n.nodeId := by
  have hs := h.sorted
  unfold head
  cases hc : cc.closest with
  | nil =>
    rw [hc] at hn
    cases hn
  | cons x l =>
    rw [hc] at hn hs
    rcases List.mem_cons.mp hn with rfl | hn
    · exact le_refl _
    · exact (List.pairwise_cons.mp hs).1 n hn

end ClosestCandidates

end Boson
