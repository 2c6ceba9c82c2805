import Boson.Lib.Runs
import Boson.Task.Candidates

/-!
# Nodes that are ignored (`ClosestCandidates::add`)

`add` takes a node if neither its id nor its IP was seen before. It inserts the id into its set
before it looks at the IP, so a node that is turned down for its IP leaves its id behind, and no
node with this id is taken any more.

* `adds_eq`: the sets after any calls of `add` are those after all nodes of the calls, one after the
  other.
* `fair_iff`: when a node is ignored only for a node that was taken.
-/

namespace Boson

open Runs

/-- The same id, or the same IP. -/
def NodeRef.Conflicts (a b : NodeRef) : Prop :=
  a.node.nodeId = b.node.nodeId ∨ a.node.sockaddr.SameIp b.node.sockaddr

instance (a b : NodeRef) : Decidable (a.Conflicts b) := inferInstanceAs (Decidable (_ ∨ _))

namespace ClosestCandidates

/-- What `add` checks of a node. -/
def accepts (self : ClosestCandidates) (item : NodeRef) : Prop :=
  item.node.nodeId ∉ self.dedupIds ∧ ∀ a ∈ self.dedupAddrs, ¬ a.SameIp item.node.sockaddr

instance (cc : ClosestCandidates) (item : NodeRef) : Decidable (cc.accepts item) :=
  inferInstanceAs (Decidable (_ ∧ _))

/-- The candidates after a call of `add` for one node, before they are merged. -/
def see (self : ClosestCandidates) (item : NodeRef) : ClosestCandidates := (self.takeNew [item]).1

/-- The candidates after nodes were offered. -/
def seen (self : ClosestCandidates) (items : List NodeRef) : ClosestCandidates :=
  items.foldl see self

/-- The nodes that are taken. -/
def taken (self : ClosestCandidates) : List NodeRef → List NodeRef
  | [] => []
  | item :: rest => (if self.accepts item then [item] else []) ++ (self.see item).taken rest

variable {cc : ClosestCandidates} {item : NodeRef} {items : List NodeRef}

theorem any_sameIp (addrs : List SocketAddress) (addr : SocketAddress) :
    (addrs.any fun a => !a.ipCompare addr && !addr.ipCompare a) = true ↔ ∃ a ∈ addrs,
      a.SameIp addr := by
  simp [SocketAddress.SameIp]

/-- The set of ids takes every node, the set of addresses those that are taken. -/
theorem takeNew_cons (cc : ClosestCandidates) (item : NodeRef) (rest : List NodeRef) :
    cc.takeNew (item :: rest) = (((cc.see item).takeNew rest).1,
      (if cc.accepts item then [item.candidate] else []) ++ ((cc.see item).takeNew rest).2) := by
  by_cases hid : item.node.nodeId ∈ cc.dedupIds
  · have hnot : ¬ cc.accepts item := fun h => h.1 hid
    simp [takeNew, see, hid, hnot]
  · by_cases haddr : ∃ a ∈ cc.dedupAddrs, a.SameIp item.node.sockaddr
    · have hnot : ¬ cc.accepts item := fun h => by
        obtain ⟨a, ha, hsame⟩ := haddr
        exact h.2 a ha hsame
      simp only [takeNew, see, hid, hnot, (any_sameIp _ _).mpr haddr, if_true, if_false,
        List.nil_append]
    · have hyes : cc.accepts item := ⟨hid, fun a ha hsame => haddr ⟨a, ha, hsame⟩⟩
      simp only [takeNew, see, hid, hyes, mt (any_sameIp _ _).mp haddr, if_true, if_false,
        Bool.false_eq_true, List.singleton_append]

theorem mem_see_dedupIds {id : Id} :
    id ∈ (cc.see item).dedupIds ↔ id ∈ cc.dedupIds ∨ id = item.node.nodeId := by
  unfold see takeNew takeNew
  dsimp only
  split_ifs with hid
  · exact ⟨.inl, fun h => h.elim (fun h => h) fun heq => heq ▸ hid⟩
  · exact List.mem_cons.trans or_comm
  · exact List.mem_cons.trans or_comm

theorem mem_see_dedupAddrs {a : SocketAddress} :
    a ∈ (cc.see item).dedupAddrs ↔
      a ∈ cc.dedupAddrs ∨ cc.accepts item ∧ a = item.node.sockaddr := by
  unfold see takeNew takeNew
  dsimp only
  split_ifs with hid haddr
  · have hnot : ¬ cc.accepts item := fun h => h.1 hid
    simp [hnot]
  · have hnot : ¬ cc.accepts item := fun h => by
      obtain ⟨a, ha, hsame⟩ := (any_sameIp _ _).mp haddr
      exact h.2 a ha hsame
    simp [hnot]
  · have hyes : cc.accepts item :=
      ⟨hid, fun a ha hsame => haddr ((any_sameIp _ _).mpr ⟨a, ha, hsame⟩)⟩
    simp [hyes, or_comm]

@[simp] theorem seen_nil : cc.seen [] = cc := rfl

@[simp] theorem seen_concat : cc.seen (items ++ [item]) = (cc.seen items).see item :=
  List.foldl_concat ..

theorem taken_concat : cc.taken (items ++ [item]) =
    cc.taken items ++ if (cc.seen items).accepts item then [item] else [] := by
  induction items generalizing cc with
  | nil => exact List.append_nil _
  | cons first rest ih =>
    rw [List.cons_append, taken, taken, ih, List.append_assoc]
    rfl

/-- The loop of `add` sees one node after the other. -/
theorem takeNew_eq (cc : ClosestCandidates) (items : List NodeRef) :
    cc.takeNew items = (cc.seen items, (cc.taken items).map (·.candidate)) := by
  induction items generalizing cc with
  | nil => rfl
  | cons item rest ih =>
    rw [takeNew_cons, ih, taken, List.map_append]
    split_ifs <;> rfl

theorem mem_seen_dedupIds {id : Id} :
    id ∈ (cc.seen items).dedupIds ↔ id ∈ cc.dedupIds ∨ ∃ other ∈ items, other.node.nodeId = id := by
  induction items using List.reverseRecOn with
  | nil => simp
  | append_singleton items item ih =>
    rw [seen_concat, mem_see_dedupIds, ih]
    simp only [List.mem_append, List.mem_singleton]
    grind

theorem mem_seen_dedupAddrs {a : SocketAddress} : a ∈ (cc.seen items).dedupAddrs ↔
    a ∈ cc.dedupAddrs ∨ ∃ other ∈ cc.taken items, other.node.sockaddr = a := by
  induction items using List.reverseRecOn with
  | nil => simp [taken]
  | append_singleton items item ih =>
    rw [seen_concat, mem_see_dedupAddrs, ih, taken_concat]
    split_ifs with h
    · simp only [h, true_and, List.mem_append, List.mem_singleton]
      grind
    · simp [h]

/-! ## Calls of `add` -/

/-- The same sets. -/
structure SameSets (a b : ClosestCandidates) : Prop where
  ids : a.dedupIds = b.dedupIds
  addrs : a.dedupAddrs = b.dedupAddrs

namespace SameSets

variable {a b c : ClosestCandidates}

theorem trans (h : SameSets a b) (h' : SameSets b c) : SameSets a c :=
  ⟨h.ids.trans h'.ids, h.addrs.trans h'.addrs⟩

theorem accepts (h : SameSets a b) : a.accepts item ↔ b.accepts item := by
  unfold ClosestCandidates.accepts
  rw [h.ids, h.addrs]

theorem see (h : SameSets a b) (item : NodeRef) : SameSets (a.see item) (b.see item) := by
  unfold ClosestCandidates.see takeNew takeNew
  dsimp only
  rw [h.ids, h.addrs]
  split_ifs
  · exact h
  · exact ⟨rfl, rfl⟩
  · exact ⟨rfl, rfl⟩

theorem seen (h : SameSets a b) (items : List NodeRef) : SameSets (a.seen items)
    (b.seen items) := by
  induction items generalizing a b with
  | nil => exact h
  | cons item rest ih => exact ih (h.see item)

theorem taken (h : SameSets a b) (items : List NodeRef) : a.taken items = b.taken items := by
  induction items generalizing a b with
  | nil => rfl
  | cons item rest ih =>
    rw [ClosestCandidates.taken, ClosestCandidates.taken, ih (h.see item)]
    simp only [h.accepts]

/-- The end of `add` leaves the sets as they are. -/
theorem add (cc : ClosestCandidates) (items : List NodeRef) : SameSets (cc.add items)
    (cc.seen items) := by
  obtain ⟨m, -, heq⟩ := shrink_sublist ((cc.takeNew items).1.mergeSorted (cc.takeNew items).2)
  have hadd : cc.add items = ((cc.takeNew items).1.mergeSorted (cc.takeNew items).2).shrink := rfl
  rw [hadd, heq, takeNew_eq]
  exact ⟨rfl, rfl⟩

end SameSets

/-- The candidates after calls of `add`. -/
def adds (self : ClosestCandidates) (calls : List (List NodeRef)) : ClosestCandidates :=
  calls.foldl add self

/-- The calls of `add` see their nodes one after the other. -/
theorem adds_eq (cc : ClosestCandidates) (calls : List (List NodeRef)) : SameSets (cc.adds calls)
    (cc.seen calls.flatten) := by
  induction calls generalizing cc with
  | nil => exact ⟨rfl, rfl⟩
  | cons items calls ih =>
    have hseen : cc.seen (items :: calls).flatten = (cc.seen items).seen calls.flatten := by
      rw [List.flatten_cons]
      exact List.foldl_append
    rw [hseen]
    exact (ih (cc.add items)).trans ((SameSets.add cc items).seen calls.flatten)

/-- What a further call takes are the nodes that pass the check. -/
theorem accepted_adds (cc : ClosestCandidates) (calls : List (List NodeRef))
    (items : List NodeRef) :
    (cc.adds calls).accepted items = ((cc.seen calls.flatten).taken items).map (·.candidate) := by
  rw [accepted, takeNew_eq, (adds_eq cc calls).taken]

/-! ## Who is ignored -/

/-- What a set of nodes with different ids and IPs is made of: each node that has the id or the IP
of none before. -/
def intended (items : List NodeRef) : List NodeRef :=
  items.foldl (fun kept item => if ∃ other ∈ kept, other.Conflicts item then
    kept else kept ++ [item]) []

@[simp] theorem intended_concat (items : List NodeRef) (item : NodeRef) :
    intended (items ++ [item]) =
    if ∃ other ∈ intended items, other.Conflicts item then intended items
    else intended items ++ [item] :=
  List.foldl_concat ..

/-- In any calls of `add`, a node is ignored only if one that was taken has the same id or the same
IP. -/
def Fair (cc : ClosestCandidates) (calls : List (List NodeRef)) : Prop :=
  Every (fun before item => ¬ (cc.seen before).accepts item → ∃ other ∈ cc.taken before,
    other.Conflicts item)
    calls.flatten

/-- Whoever has the id or the IP of no node that should have been taken has an id that was never
offered. -/
def NeverTainted (calls : List (List NodeRef)) : Prop :=
  Every (fun before item => (∀ other ∈ intended before, ¬ other.Conflicts item) →
    ∀ other ∈ before, other.node.nodeId ≠ item.node.nodeId) calls.flatten

variable {target : Id} {capacity : Nat}

/-- A node is taken if no node was offered with its id, and none taken with its IP. -/
theorem accepts_seen_iff : (seen { target := target, capacity := capacity } items).accepts item ↔
    (∀ other ∈ items, other.node.nodeId ≠ item.node.nodeId) ∧
      ∀ other ∈ taken { target := target, capacity := capacity } items,
        ¬ other.node.sockaddr.SameIp item.node.sockaddr := by
  rw [accepts, mem_seen_dedupIds]
  simp only [mem_seen_dedupAddrs, List.not_mem_nil, false_or, not_exists, not_and,
    forall_exists_index, and_imp, forall_apply_eq_imp_iff₂, ne_eq]

theorem taken_subset (cc : ClosestCandidates) (items : List NodeRef) : cc.taken items ⊆ items := by
  induction items using List.reverseRecOn with
  | nil => exact List.Subset.refl _
  | append_singleton items item ih =>
    rw [taken_concat]
    refine List.append_subset.mpr ⟨List.subset_append_of_subset_left _ ih, ?_⟩
    split_ifs
    · exact List.subset_append_right _ _
    · exact List.nil_subset _

/-- A node is taken exactly if it has the id or IP of none that was taken, and an id that was never
offered. -/
theorem accepts_iff : (seen { target := target, capacity := capacity } items).accepts item ↔
    (∀ other ∈ taken { target := target, capacity := capacity } items, ¬ other.Conflicts item) ∧
      ∀ other ∈ items, other.node.nodeId ≠ item.node.nodeId := by
  rw [accepts_seen_iff]
  constructor
  · rintro ⟨hids, hips⟩
    refine ⟨fun other hother hconflict => ?_, hids⟩
    obtain hid | hip := hconflict
    · exact hids other (taken_subset _ _ hother) hid
    · exact hips other hother hip
  · rintro ⟨hconflict, hids⟩
    exact ⟨hids, fun other hother hip => hconflict other hother (.inr hip)⟩

/-- The nodes are ignored for the right reason exactly if no node that should be taken comes with an
id that was offered before. -/
theorem fair_iff (target : Id) (capacity : Nat) (calls : List (List NodeRef)) :
    Fair { target := target, capacity := capacity } calls ↔ NeverTainted calls := by
  -- as long as the nodes are ignored for the right reason, those that are taken are those that
  -- should be
  refine every_iff_of_inv (I := fun before =>
    taken { target := target, capacity := capacity } before =
      intended before) rfl ?_ ?_ calls.flatten
  · intro before item hsame hfair
    rw [taken_concat, intended_concat, ← hsame]
    by_cases hconflict : ∃ other ∈ taken { target := target, capacity := capacity } before,
      other.Conflicts item
    · have hnot : ¬ (seen { target := target, capacity := capacity } before).accepts item := by
        intro haccepts
        obtain ⟨other, hother, hconflict⟩ := hconflict
        exact (accepts_iff.mp haccepts).1 other hother hconflict
      rw [if_neg hnot, if_pos hconflict, List.append_nil]
    · rw [if_pos (not_not.mp (mt hfair hconflict)), if_neg hconflict]
  · intro before item hsame
    rw [accepts_iff, hsame]
    constructor
    · intro hfair hnone
      by_contra hids
      obtain ⟨other, hother, hconflict⟩ := hfair fun h => hids h.2
      exact hnone other hother hconflict
    · intro hclean hnot
      by_contra hnone
      simp only [not_exists, not_and] at hnone
      exact hnot ⟨hnone, hclean hnone⟩

/-- The second node is ignored since it has the IP of the first; the third has its id and an IP of
its own. -/
theorem not_fair_tainted : ¬ Fair { target := Id.zero, capacity := 24 }
    [[.info { nodeId := Id.zero.setByte 0 1, sockaddr := .inet ⟨[8, 8, 8, 1], rfl⟩ 39001 },
      .info { nodeId := Id.zero.setByte 0 2, sockaddr := .inet ⟨[8, 8, 8, 1], rfl⟩ 39002 }],
     [.info { nodeId := Id.zero.setByte 0 2, sockaddr := .inet ⟨[8, 8, 8, 2], rfl⟩ 39001 }]] := by
  intro h
  have hlast :=
    h [.info { nodeId := Id.zero.setByte 0 1, sockaddr := .inet ⟨[8, 8, 8, 1], rfl⟩ 39001 },
    .info { nodeId := Id.zero.setByte 0 2, sockaddr := .inet ⟨[8, 8, 8, 1], rfl⟩ 39002 }] _ [] rfl
  revert hlast
  decide +kernel

end ClosestCandidates

end Boson
